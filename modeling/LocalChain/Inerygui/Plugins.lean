import LocalChain.Inerygui.Users
import Mathlib.Data.List.Nodup

namespace LocalChain.Inerygui

open LocalChain.Inery LocalChain.Store
open LocalChain.K2ultra (Host)

/-! Removing a plugin. -/

/-- The loop of `rmpluginu` reads no cell behind the current end of the list, and leaves the plugins of other
ids in their order. -/
structure FiltersSafely (pluginId : UInt64) (row : User) : Prop where
  within : ∀ i < row.plugins.length, i < (Removal.after pluginId row.plugins i).size
  result : row.rmpluginu pluginId = .ok { row with plugins := row.plugins.filter (·.id ≠ pluginId) }

variable {host : Host} {txs : List Tx} {tx tx' on off : Tx} {state next : State} {row : User}
  {guiname : ByteString} {pluginId : UInt64} {active : Bool} {it plugin : UserPlugin}

/-- From the first round on the list is no longer than the rounds made, so that a second one reads behind
its end. -/
theorem filtersSafely_iff : FiltersSafely pluginId row ↔ row.plugins.length ≤ 1 := by
  constructor
  · rintro ⟨within, _⟩
    by_contra long
    have second : 1 < row.plugins.length := by omega
    have left : (Removal.after pluginId row.plugins 1).size =
        ((row.plugins.take 1).filter (·.id ≠ pluginId)).length := by
      rw [Removal.after_eq second.le]
      rfl
    have collected : ((row.plugins.take 1).filter (·.id ≠ pluginId)).length ≤ 1 :=
      (List.length_filter_le _ _).trans (by simp)
    have read := within 1 second
    omega
  · intro short
    refine ⟨fun i inside => ?_, User.rmpluginu_eq row⟩
    obtain rfl : i = 0 := by omega
    exact inside

/-- Of two plugins the second is read after the list has shrunk to one. -/
theorem pair_not_filtersSafely :
    ¬ FiltersSafely 7 { User.fresh ⟨0⟩ with plugins := [⟨7, false, ⟨0⟩⟩, ⟨8, false, ⟨0⟩⟩] } := by
  rintro ⟨within, _⟩
  exact absurd (within 1 (by decide)) (by decide)

/-! Switching a plugin on and off. -/

/-- The two switches: the mark they set, and what they are given. -/
def Action.switch? : Action → Option (Bool × ByteString × UInt64)
  | .turnonplugin guiname pluginId => some (true, guiname, pluginId)
  | .turnofplugin guiname pluginId => some (false, guiname, pluginId)
  | _ => none

/-- There is a row under the hash of the name, and its list has the plugin. -/
def HasPlugin (host : Host) (state : State) (guiname : ByteString) (pluginId : UInt64) : Prop :=
  ∃ row, state.user.find? (host.stringToUInt64 guiname) = some row ∧
    ∃ plugin ∈ row.plugins, plugin.id = pluginId

/-- The mark of one plugin of one user is set and nothing else is changed. -/
structure Switched (active : Bool) (id pluginId : UInt64) (state next : State) : Prop where
  row : ∃ row, state.user.find? id = some row ∧
    next.user.find? id = some { row with plugins := row.plugins.map fun plugin =>
      if plugin.id = pluginId then { plugin with active := active } else plugin }
  others : ∀ other, other ≠ id → next.user.find? other = state.user.find? other
  history : next.history = state.history
  permissions : next.permissions = state.permissions

theorem plugin?_eq_some (found : row.plugin? pluginId = some it) :
    it ∈ row.plugins ∧ it.id = pluginId :=
  ⟨List.mem_of_find?_eq_some found, by simpa using List.find?_some found⟩

/-- The precondition looks at the first plugin with the id, which is the only one. -/
theorem plugin_unique (distinct : (row.plugins.map UserPlugin.id).Nodup)
    (found : row.plugin? pluginId = some it) (member : plugin ∈ row.plugins)
    (same : plugin.id = pluginId) : plugin = it := by
  obtain ⟨present, place⟩ := plugin?_eq_some found
  exact List.inj_on_of_nodup_map distinct member present (same.trans place.symm)

theorem plugin?_setActive :
    (row.setActive active pluginId).plugin? pluginId =
      (row.plugin? pluginId).map (fun plugin => { plugin with active := active }) := by
  simp only [User.plugin?, User.setActive, List.find?_map]
  have same : (fun plugin : UserPlugin => decide (plugin.id = pluginId)) ∘ (fun plugin =>
      if plugin.id = pluginId then { plugin with active := active } else plugin) =
        fun plugin => decide (plugin.id = pluginId) := by
    funext plugin
    by_cases here : plugin.id = pluginId <;> simp [here]
  rw [same]
  cases found : row.plugins.find? (fun plugin => decide (plugin.id = pluginId)) with
  | none => rfl
  | some plugin =>
    have place : plugin.id = pluginId := by simpa using List.find?_some found
    simp [place]

theorem setActive_setActive (again : Bool) :
    (row.setActive active pluginId).setActive again pluginId = row.setActive again pluginId := by
  simp only [User.setActive, List.map_map]
  congr 1
  refine List.map_congr_left fun plugin _ => ?_
  by_cases here : plugin.id = pluginId <;> simp [here]

/-- Setting the mark that the plugin has already changes nothing. -/
theorem setActive_self (distinct : (row.plugins.map UserPlugin.id).Nodup)
    (found : row.plugin? pluginId = some it) (same : it.active = active) :
    row.setActive active pluginId = row := by
  have unchanged : row.plugins.map (fun plugin =>
      if plugin.id = pluginId then { plugin with active := active } else plugin) = row.plugins := by
    refine (List.map_congr_left fun plugin member => ?_).trans (List.map_id _)
    by_cases here : plugin.id = pluginId
    · obtain rfl := plugin_unique distinct found member here
      subst same
      simp
    · simp [here]
  rw [User.setActive, unchanged]

/-- A switch commits exactly if the contract signs and the plugin is there with the other mark. -/
theorem step_switch (called : tx.action.switch? = some (active, guiname, pluginId)) :
    step host state tx = some next ↔ host.self ∈ tx.auth ∧ ∃ row it,
      state.user.find? (host.stringToUInt64 guiname) = some row ∧ row.plugin? pluginId = some it ∧
        it.active = !active ∧ next = { state with
          user := state.user.put (row.setActive active pluginId), global := some (state.global.getD {}) } := by
  obtain ⟨updater, edit, edits⟩ : ∃ updater,
      (∀ time version, tx.action.edit? time version = some (guiname, updater)) ∧
        ∀ row updated, updater row = .ok updated ↔
          (∃ it, row.plugin? pluginId = some it ∧ it.active = !active) ∧
            row.setActive active pluginId = updated := by
    cases action : tx.action <;> simp only [action, Action.switch?, reduceCtorEq, Option.some.injEq,
      Prod.mk.injEq] at called <;> obtain ⟨rfl, rfl, rfl⟩ := called
    case turnonplugin => exact ⟨_, fun _ _ => rfl, fun _ _ => User.turnonplugin_eq_ok⟩
    case turnofplugin => exact ⟨_, fun _ _ => rfl, fun _ _ => User.turnofplugin_eq_ok⟩
  rw [step_edit (edit _ _)]
  refine and_congr_right fun _ => exists_congr fun row => ?_
  constructor
  · rintro ⟨_, found, accepted, _, rfl⟩
    obtain ⟨⟨it, held, mark⟩, rfl⟩ := (edits _ _).mp accepted
    exact ⟨it, found, held, mark, rfl⟩
  · rintro ⟨it, found, held, mark, rfl⟩
    exact ⟨_, found, (edits _ _).mpr ⟨⟨it, held, mark⟩, rfl⟩, rfl, rfl⟩

/-- The mark of the plugin decides which switch can be thrown. -/
theorem switchable_iff (found : state.user.find? (host.stringToUInt64 guiname) = some row)
    (held : row.plugin? pluginId = some it)
    (called : tx.action.switch? = some (active, guiname, pluginId)) (authorised : host.self ∈ tx.auth) :
    (step host state tx).isSome ↔ it.active = !active := by
  rw [Option.isSome_iff_exists]
  constructor
  · rintro ⟨next, committed⟩
    obtain ⟨_, row', it', found', held', mark, _⟩ := (step_switch called).mp committed
    obtain rfl := Option.some.inj (found.symm.trans found')
    obtain rfl := Option.some.inj (held.symm.trans held')
    exact mark
  · intro mark
    exact ⟨_, (step_switch called).mpr ⟨authorised, row, it, found, held, mark, rfl⟩⟩

theorem hasPlugin_iff :
    HasPlugin host state guiname pluginId ↔ ∃ row it,
      state.user.find? (host.stringToUInt64 guiname) = some row ∧ row.plugin? pluginId = some it := by
  constructor
  · rintro ⟨row, found, plugin, member, same⟩
    cases held : row.plugin? pluginId with
    | some it => exact ⟨row, it, found, held⟩
    | none => exact absurd same (by simpa using List.find?_eq_none.mp held plugin member)
  · rintro ⟨row, it, found, held⟩
    exact ⟨row, found, it, plugin?_eq_some held⟩

/-- Without the plugin there is nothing to switch. -/
theorem hasPlugin_of_switch (called : tx.action.switch? = some (active, guiname, pluginId))
    (committed : (step host state tx).isSome) : HasPlugin host state guiname pluginId := by
  obtain ⟨next, outcome⟩ := Option.isSome_iff_exists.mp committed
  obtain ⟨_, row, it, found, held, _⟩ := (step_switch called).mp outcome
  exact hasPlugin_iff.mpr ⟨row, it, found, held⟩

theorem switched_of (called : tx.action.switch? = some (active, guiname, pluginId))
    (committed : step host state tx = some next) :
    Switched active (host.stringToUInt64 guiname) pluginId state next := by
  obtain ⟨_, row, it, found, _, _, rfl⟩ := (step_switch called).mp committed
  have place : row.id = host.stringToUInt64 guiname := Table.key_of_find? found
  refine ⟨⟨row, found, ?_⟩, fun other apart => ?_, rfl, rfl⟩
  · exact Table.find?_put_of_key _ place
  · have elsewhere : other ≠ (row.setActive active pluginId).primaryKey :=
      fun same => apart (same.trans place)
    simp only [Table.find?_put, if_neg elsewhere]

/-- The other switch puts the mark back, and with it the whole table. -/
theorem switch_back (wellFormed : state.WellFormed host)
    (called : tx.action.switch? = some (active, guiname, pluginId))
    (called' : tx'.action.switch? = some (!active, guiname, pluginId)) (authorised : host.self ∈ tx'.auth)
    (committed : step host state tx = some next) :
    ∃ last, step host next tx' = some last ∧ last.user = state.user := by
  obtain ⟨_, row, it, found, held, mark, rfl⟩ := (step_switch called).mp committed
  obtain ⟨present, place⟩ := Table.find?_eq_some.mp found
  have distinct := (wellFormed row present).plugins
  refine ⟨_, (step_switch called').mpr ⟨authorised, row.setActive active pluginId,
    { it with active := active }, Table.find?_put_of_key _ place, ?_, ?_, rfl⟩, ?_⟩
  · rw [plugin?_setActive, held, Option.map_some]
  · simp
  · have restored : (row.setActive active pluginId).setActive (!active) pluginId = row := by
      rw [setActive_setActive, setActive_self distinct held mark]
    rw [restored]
    exact Table.put_back present rfl

/-- After every run exactly one of the two switches of a plugin can be thrown if the user has the plugin, and
none otherwise. Each of them sets the mark of this plugin alone, and the other one puts it back. -/
theorem switches_inverse (host : Host) (txs : List Tx) (onCalled : on.action = .turnonplugin guiname pluginId)
    (offCalled : off.action = .turnofplugin guiname pluginId) (onSigned : host.self ∈ on.auth)
    (offSigned : host.self ∈ off.auth) :
    (HasPlugin host (reached host txs) guiname pluginId →
        ((step host (reached host txs) on).isSome ↔ ¬ (step host (reached host txs) off).isSome)) ∧
      (¬ HasPlugin host (reached host txs) guiname pluginId →
        step host (reached host txs) on = none ∧ step host (reached host txs) off = none) ∧
      (∀ next, step host (reached host txs) on = some next →
        Switched true (host.stringToUInt64 guiname) pluginId (reached host txs) next ∧
          ∃ last, step host next off = some last ∧ last.user = (reached host txs).user) ∧
      ∀ next, step host (reached host txs) off = some next →
        Switched false (host.stringToUInt64 guiname) pluginId (reached host txs) next ∧
          ∃ last, step host next on = some last ∧ last.user = (reached host txs).user := by
  have onSwitch : on.action.switch? = some (true, guiname, pluginId) := by rw [onCalled, Action.switch?]
  have offSwitch : off.action.switch? = some (false, guiname, pluginId) := by rw [offCalled, Action.switch?]
  have wellFormed := reached_wellFormed host txs
  refine ⟨fun has => ?_, fun lacks => ?_, fun next committed => ?_, fun next committed => ?_⟩
  · obtain ⟨row, it, found, held⟩ := hasPlugin_iff.mp has
    rw [switchable_iff found held onSwitch onSigned, switchable_iff found held offSwitch offSigned]
    cases it.active <;> simp
  · rw [← Option.not_isSome_iff_eq_none, ← Option.not_isSome_iff_eq_none]
    exact ⟨fun switched => lacks (hasPlugin_of_switch onSwitch switched),
      fun switched => lacks (hasPlugin_of_switch offSwitch switched)⟩
  · exact ⟨switched_of onSwitch committed, switch_back wellFormed onSwitch offSwitch offSigned committed⟩
  · exact ⟨switched_of offSwitch committed, switch_back wellFormed offSwitch onSwitch onSigned committed⟩

/-- The user has a plugin, which is off at first. -/
def plugged : List Tx := registered ++ [.signed chain.self (.addpluginu gui 7)]

theorem plugged_switches :
    (step chain (reached chain plugged) (.signed chain.self (.turnonplugin gui 7))).isSome ∧
      ∃ next, step chain (reached chain plugged) (.signed chain.self (.turnonplugin gui 7)) = some next ∧
        ∃ last, step chain next (.signed chain.self (.turnofplugin gui 7)) = some last ∧
          last.user = (reached chain plugged).user := by
  have signed : chain.self ∈ (Tx.signed chain.self (.turnonplugin gui 7)).auth := by decide
  have committed : (step chain (reached chain plugged)
      (.signed chain.self (.turnonplugin gui 7))).isSome := by decide +kernel
  obtain ⟨next, outcome⟩ := Option.isSome_iff_exists.mp committed
  have signed' : chain.self ∈ (Tx.signed chain.self (.turnofplugin gui 7)).auth := by decide
  obtain ⟨_, _, inverse, _⟩ := switches_inverse chain plugged rfl rfl signed signed'
  exact ⟨committed, next, outcome, (inverse next outcome).2⟩

end LocalChain.Inerygui
