import LocalChain.Inerygui.ActionSpec

namespace LocalChain.Inerygui

open LocalChain.Inery LocalChain.Inery.MultiIndex LocalChain.Store
open LocalChain.K2ultra (Host)

variable {host : Host} {context : Context} {action : Action} {contract next : Contract}
  {state after : State} {tx : Tx} {row updated : User} {guiname version : ByteString} {time : TimePoint}
  {updater : User → Except Abort User} {printed : List Printed} {k : UInt64}

/-- The actions on one user: the name they are given, and what they do to the row they find. -/
def Action.edit? (time : TimePoint) (version : ByteString) :
    Action → Option (ByteString × (User → Except Abort User))
  | .addtwords guiname twords => some (guiname, User.addtwords twords)
  | .recoverpsw guiname twords newpassword => some (guiname, User.recoverpsw twords newpassword)
  | .upversionu guiname => some (guiname, User.upversionu version)
  | .addaccount guiname account => some (guiname, User.addaccount account)
  | .rmaccount guiname account => some (guiname, User.rmaccount account)
  | .addserver guiname server => some (guiname, User.addserver server)
  | .rmserver guiname server => some (guiname, User.rmserver server)
  | .addtemplateu guiname templateId => some (guiname, User.addtemplateu templateId)
  | .rmtemplateu guiname templateId => some (guiname, User.rmtemplateu templateId)
  | .addpluginu guiname pluginId => some (guiname, User.addpluginu time pluginId)
  | .rmpluginu guiname pluginId => some (guiname, User.rmpluginu pluginId)
  | .turnonplugin guiname pluginId => some (guiname, User.turnonplugin pluginId)
  | .turnofplugin guiname pluginId => some (guiname, User.turnofplugin pluginId)
  | _ => none

/-- The actions on the global row. -/
def Action.configures : Action → Bool
  | .addtemplateg .. | .addpluging .. | .upversiong .. | .rmpluging => true
  | _ => false

/-- The actions that write nothing of their own. -/
def Action.reads : Action → Bool
  | .sti .. | .checkoff .. => true
  | _ => false

/-- Everything a committed action can do to its contract object. -/
inductive Effect (context : Context) (action : Action) (contract next : Contract) : Prop where
  | registered {guiname version : ByteString} {password : Checksum256}
      (called : action = .adduser guiname password version) (authorised : context.self ∈ context.auth)
      (absent : contract.user.find? (context.stringToUInt64 guiname) = none)
      (result : next = { contract with user := contract.user.put ((User.fresh context.memory).registered
        (context.stringToUInt64 guiname) guiname password version) })
  | edited {guiname : ByteString} {updater : User → Except Abort User} {row updated : User}
      (called : action.edit? context.now contract.gstate.version = some (guiname, updater))
      (authorised : context.self ∈ context.auth)
      (found : contract.user.find? (context.stringToUInt64 guiname) = some row)
      (edits : updater row = .ok updated) (same : updated.id = row.id)
      (result : next = { contract with user := contract.user.put updated })
  | upgraded {user : UserTable} (called : action = .waversion) (authorised : context.self ∈ context.auth)
      (rows : user.rows = contract.user.rows.map (User.setVersion contract.gstate.version))
      (result : next = { contract with user := user })
  | cleared (called : action = .rmusers) (authorised : context.self ∈ context.auth)
      (result : next = { contract with user := .empty })
  | configured {gstate : GlobalInfo} (called : action.configures)
      (authorised : context.self ∈ context.auth) (result : next = { contract with gstate := gstate })
  | recorded {owner composition : Name} {object : HistoryObject} {type : ByteString}
      (called : action = .addhistory owner composition object type)
      (paid : ((contract.history owner.value).find? composition.value).elim 0 History.packSize <
        (History.grown composition object type
          ((contract.history owner.value).find? composition.value)).packSize → owner ∈ context.auth)
      (result : next = contract.setHistory owner.value ((contract.history owner.value).put
        (History.grown composition object type
          ((contract.history owner.value).find? composition.value))))
  | linked {owner composition permName : Name} (called : action = .linkperm owner composition permName)
      (paid : (contract.permissions owner.value).find? composition.value = none → owner ∈ context.auth)
      (result : next = contract.setPermissions owner.value ((contract.permissions owner.value).put
        (Permissions.relinked composition permName
          ((contract.permissions owner.value).find? composition.value))))
  | idle (called : action.reads) (result : next = contract)

@[simp] theorem silent_eq_ok {outcome : Except Abort Contract} :
    silent outcome = .ok (next, printed) ↔ outcome = .ok next ∧ printed = [] := by
  cases outcome <;> simp [silent, eq_comm]

/-- The actions on one user differ in the message for a missing row and in the updater only. -/
theorem dispatch_edit (called : action.edit? context.now contract.gstate.version = some (guiname, updater)) :
    ∃ missing, dispatch context contract action = editUser context guiname missing updater contract := by
  cases action <;> simp only [Action.edit?, reduceCtorEq, Option.some.injEq, Prod.mk.injEq] at called <;>
    obtain ⟨rfl, rfl⟩ := called <;> exact ⟨_, rfl⟩

/-- An action on one user commits if the contract account signs, the lookup by the hash of the name finds
a row, and the updater accepts it and leaves it its id. -/
theorem dispatch_edit_isOk
    (called : action.edit? context.now contract.gstate.version = some (guiname, updater)) :
    (∃ printed, dispatch context contract action = .ok (next, printed)) ↔
      context.self ∈ context.auth ∧ ∃ row updated,
        contract.user.find? (context.stringToUInt64 guiname) = some row ∧
          updater row = .ok updated ∧ updated.id = row.id ∧
            next = { contract with user := contract.user.put updated } := by
  obtain ⟨missing, same⟩ := dispatch_edit called
  rw [same]
  exact editUser_eq_ok

private theorem configured_effect {gstate : GlobalInfo} (called : action.configures)
    (committed : (do
      context.requireAuth context.self
      return ({ contract with gstate := gstate } : Contract)) = Except.ok next) :
    Effect context action contract next := by
  simp only [bind_eq_ok, Context.requireAuth_eq_ok, pure_eq_ok] at committed
  obtain ⟨_, authorised, result⟩ := committed
  exact .configured called authorised result.symm

theorem dispatch_effect (committed : dispatch context contract action = .ok (next, printed)) :
    Effect context action contract next := by
  cases edit : action.edit? context.now contract.gstate.version with
  | some found =>
    obtain ⟨authorised, row, updated, held, edits, same, result⟩ :=
      (dispatch_edit_isOk edit).mp ⟨printed, committed⟩
    exact .edited edit authorised held edits same result
  | none =>
    cases action with
    | addtemplateg => exact configured_effect rfl (silent_eq_ok.mp committed).1
    | addpluging => exact configured_effect rfl (silent_eq_ok.mp committed).1
    | upversiong => exact configured_effect rfl (silent_eq_ok.mp committed).1
    | rmpluging => exact configured_effect rfl (silent_eq_ok.mp committed).1
    | rmusers =>
      obtain ⟨authorised, result⟩ := rmusers_ok committed
      exact .cleared rfl authorised result
    | waversion =>
      obtain ⟨authorised, user, rows, result⟩ := waversion_ok (silent_eq_ok.mp committed).1
      exact .upgraded rfl authorised rows result
    | adduser =>
      obtain ⟨authorised, absent, result⟩ := adduser_ok committed
      exact .registered rfl authorised absent result
    | addhistory =>
      obtain ⟨paid, result⟩ := addhistory_ok (silent_eq_ok.mp committed).1
      exact .recorded rfl paid result
    | linkperm =>
      obtain ⟨paid, result⟩ := linkperm_ok (silent_eq_ok.mp committed).1
      exact .linked rfl paid result
    | sti => exact .idle rfl (Prod.mk.inj (pure_eq_ok.mp committed)).1.symm
    | checkoff =>
      have done := (silent_eq_ok.mp committed).1
      simp only [checkoff, bind_eq_ok, pure_eq_ok] at done
      obtain ⟨_, _, result⟩ := done
      exact .idle rfl result.symm
    | _ => cases edit

/-! What the edits change. -/

/-- What an action on one user does to the row. -/
inductive User.Edit (guiname : ByteString) (action : Action) (row updated : User) : Prop where
  | twords {twords : List Checksum256} (called : action = .addtwords guiname twords)
      (empty : row.twords = []) (result : updated = { row with twords := twords })
  | password {newpassword : Checksum256} (called : action = .recoverpsw guiname row.twords newpassword)
      (result : updated = { row with password := newpassword })
  | version {version : ByteString} (result : updated = row.setVersion version)
  | accounts {accounts : List Name} (distinct : row.accounts.Nodup → accounts.Nodup)
      (result : updated = { row with accounts := accounts })
  | servers {servers : List ByteString} (result : updated = { row with servers := servers })
  | templates {templates : List UInt64} (distinct : row.templates.Nodup → templates.Nodup)
      (result : updated = { row with templates := templates })
  | plugins {plugins : List UserPlugin}
      (distinct : (row.plugins.map UserPlugin.id).Nodup → (plugins.map UserPlugin.id).Nodup)
      (result : updated = { row with plugins := plugins })

theorem nodup_concat {α : Type} {values : List α} {value : α} (fresh : value ∉ values)
    (distinct : values.Nodup) : (values ++ [value]).Nodup :=
  List.nodup_append.mpr ⟨distinct, by simp, fun old member new single =>
    fun same => fresh (List.mem_singleton.mp single ▸ same ▸ member)⟩

@[simp] theorem User.setActive_ids (active : Bool) (pluginId : UInt64) (row : User) :
    (row.setActive active pluginId).plugins.map UserPlugin.id = row.plugins.map UserPlugin.id := by
  rw [User.setActive, List.map_map]
  refine List.map_congr_left fun plugin _ => ?_
  simp only [Function.comp_apply]
  split <;> rfl

private theorem setActive_edit {active : Bool} {pluginId : UInt64}
    (result : updated = row.setActive active pluginId) : User.Edit guiname action row updated :=
  .plugins (fun distinct => (User.setActive_ids active pluginId row).symm ▸ distinct) result

theorem edit_of (called : action.edit? time version = some (guiname, updater))
    (edits : updater row = .ok updated) : User.Edit guiname action row updated := by
  cases action <;> simp only [Action.edit?, reduceCtorEq, Option.some.injEq, Prod.mk.injEq] at called <;>
    obtain ⟨rfl, rfl⟩ := called
  case addtwords twords =>
    simp only [User.addtwords, bind_eq_ok, check_eq_ok, pure_eq_ok, List.isEmpty_iff] at edits
    obtain ⟨_, empty, rfl⟩ := edits
    exact .twords rfl empty (by rw [empty, List.nil_append])
  case recoverpsw twords newpassword =>
    simp only [User.recoverpsw, bind_eq_ok, check_eq_ok, pure_eq_ok, decide_eq_true_eq] at edits
    obtain ⟨_, rfl, rfl⟩ := edits
    exact .password rfl rfl
  case upversionu =>
    simp only [User.upversionu, bind_eq_ok, pure_eq_ok] at edits
    obtain ⟨_, _, rfl⟩ := edits
    exact .version rfl
  case addaccount account =>
    simp only [User.addaccount, bind_eq_ok, check_eq_ok, pure_eq_ok, decide_eq_true_eq] at edits
    obtain ⟨_, fresh, rfl⟩ := edits
    exact .accounts (nodup_concat fresh) rfl
  case rmaccount account =>
    simp only [User.rmaccount, bind_eq_ok, pure_eq_ok] at edits
    obtain ⟨_, _, rfl⟩ := edits
    exact .accounts (fun distinct => distinct.filter _) rfl
  case addserver =>
    exact .servers (pure_eq_ok.mp edits).symm
  case rmserver =>
    simp only [User.rmserver, bind_eq_ok, pure_eq_ok] at edits
    obtain ⟨_, _, rfl⟩ := edits
    exact .servers rfl
  case addtemplateu templateId =>
    simp only [User.addtemplateu, bind_eq_ok, check_eq_ok, pure_eq_ok, decide_eq_true_eq] at edits
    obtain ⟨_, fresh, rfl⟩ := edits
    exact .templates (nodup_concat fresh) rfl
  case rmtemplateu templateId =>
    simp only [User.rmtemplateu, bind_eq_ok, pure_eq_ok] at edits
    obtain ⟨_, _, rfl⟩ := edits
    exact .templates (fun distinct => distinct.filter _) rfl
  case addpluginu pluginId =>
    simp only [User.addpluginu, User.plugin?, bind_eq_ok, check_eq_ok, pure_eq_ok,
      Option.isNone_iff_eq_none, List.find?_eq_none, decide_eq_true_eq] at edits
    obtain ⟨_, absent, rfl⟩ := edits
    refine .plugins (fun distinct => ?_) rfl
    rw [List.map_append]
    refine nodup_concat (fun member => ?_) distinct
    obtain ⟨plugin, present, same⟩ := List.mem_map.mp member
    exact absent plugin present same
  case rmpluginu pluginId =>
    rw [User.rmpluginu_eq] at edits
    obtain rfl := Except.ok.inj edits
    exact .plugins (fun distinct => distinct.sublist (List.filter_sublist.map _)) rfl
  case turnonplugin pluginId =>
    exact setActive_edit (User.turnonplugin_eq_ok.mp edits).2.symm
  case turnofplugin pluginId =>
    exact setActive_edit (User.turnofplugin_eq_ok.mp edits).2.symm

/-! Single rows. -/

/-- Where a row of the user table comes from when an action commits. -/
inductive RowOrigin (context : Context) (action : Action) (user : UserTable) (row : User) : Prop where
  | registered {guiname version : ByteString} {password : Checksum256}
      (called : action = .adduser guiname password version)
      (absent : user.find? (context.stringToUInt64 guiname) = none)
      (result : row = (User.fresh context.memory).registered (context.stringToUInt64 guiname) guiname
        password version)
  | edited {guiname : ByteString} {old : User}
      (found : user.find? (context.stringToUInt64 guiname) = some old)
      (same : row.id = old.id) (edit : User.Edit guiname action old row)
  | upgraded {old : User} {version : ByteString} (held : user.find? row.id = some old)
      (called : action = .waversion) (result : row = old.setVersion version)
  | kept (held : user.find? row.id = some row)

theorem Effect.origin (effect : Effect context action contract next)
    (found : next.user.find? k = some row) : RowOrigin context action contract.user row := by
  have place : row.id = k := Table.key_of_find? found
  cases effect with
  | registered called _ absent result =>
    subst result
    rw [Table.find?_put] at found
    split at found
    · exact .registered called absent (Option.some.inj found).symm
    · exact .kept (place ▸ found)
  | edited called _ held edits same result =>
    subst result
    rw [Table.find?_put] at found
    split at found
    · cases found
      exact .edited held same (edit_of called edits)
    · exact .kept (place ▸ found)
  | upgraded called _ rows result =>
    subst result
    rw [Table.find?_map (f := User.setVersion _) (fun _ => rfl) rows, Option.map_eq_some_iff] at found
    obtain ⟨old, held, rfl⟩ := found
    exact .upgraded (place ▸ held) called rfl
  | cleared _ _ result => subst result; cases found
  | configured _ _ result => subst result; exact .kept (place ▸ found)
  | recorded _ _ result => subst result; exact .kept (place ▸ found)
  | linked _ _ result => subst result; exact .kept (place ▸ found)
  | idle _ result => subst result; exact .kept (place ▸ found)

/-- A user stays in the table until `rmusers` empties it. -/
theorem Effect.survives (effect : Effect context action contract next) (kept : action ≠ .rmusers)
    (present : (contract.user.find? k).isSome) : (next.user.find? k).isSome := by
  cases effect with
  | cleared called => exact absurd called kept
  | upgraded _ _ rows result =>
    subst result
    rw [Table.find?_map (f := User.setVersion _) (fun _ => rfl) rows, Option.isSome_map]
    exact present
  | registered _ _ _ result | edited _ _ _ _ _ result =>
    subst result
    exact Table.find?_put_isSome _ present
  | configured _ _ result | recorded _ _ result | linked _ _ result | idle _ result =>
    subst result
    exact present

/-- What every later version of a row keeps of it. -/
structure User.Follows (row updated : User) : Prop where
  id : updated.id = row.id
  guiname : updated.guiname = row.guiname
  accounts : row.accounts.Nodup → updated.accounts.Nodup
  templates : row.templates.Nodup → updated.templates.Nodup
  plugins : (row.plugins.map UserPlugin.id).Nodup → (updated.plugins.map UserPlugin.id).Nodup
  twords : row.twords ≠ [] → updated.twords = row.twords

theorem User.Follows.refl (row : User) : row.Follows row := ⟨rfl, rfl, fun distinct => distinct,
  fun distinct => distinct, fun distinct => distinct, fun _ => rfl⟩

theorem User.Follows.trans {last : User} (first : row.Follows updated) (second : updated.Follows last) :
    row.Follows last where
  id := second.id.trans first.id
  guiname := second.guiname.trans first.guiname
  accounts := second.accounts ∘ first.accounts
  templates := second.templates ∘ first.templates
  plugins := second.plugins ∘ first.plugins
  twords stored := by
    have same := first.twords stored
    rw [second.twords (same ▸ stored), same]

theorem User.Edit.follows (edit : User.Edit guiname action row updated) : row.Follows updated := by
  have unchanged := User.Follows.refl row
  cases edit with
  | twords _ empty result =>
    subst result
    exact { unchanged with twords := fun stored => absurd empty stored }
  | accounts distinct result => subst result; exact { unchanged with accounts := distinct }
  | templates distinct result => subst result; exact { unchanged with templates := distinct }
  | plugins distinct result => subst result; exact { unchanged with plugins := distinct }
  | password _ result => subst result; exact { unchanged with }
  | version result | servers result => subst result; exact { unchanged with }

/-- A row follows the one under its id before the step, if there was one. -/
theorem RowOrigin.follows {user : UserTable} (origin : RowOrigin context action user updated)
    (held : user.find? updated.id = some row) : row.Follows updated := by
  cases origin with
  | registered _ absent result =>
    subst result
    cases absent.symm.trans held
  | edited found same edit =>
    rw [same, ← User.primaryKey_eq, Table.find?_self (Table.find?_eq_some.mp found).1] at held
    cases held
    exact edit.follows
  | upgraded before _ result =>
    cases before.symm.trans held
    subst result
    exact { User.Follows.refl row with }
  | kept before =>
    cases before.symm.trans held
    exact .refl _

theorem Effect.follows (effect : Effect context action contract next) (kept : action ≠ .rmusers)
    (held : contract.user.find? k = some row) :
    ∃ updated, next.user.find? k = some updated ∧ row.Follows updated := by
  have present : (contract.user.find? k).isSome := Option.isSome_iff_exists.mpr ⟨row, held⟩
  obtain ⟨updated, found⟩ := Option.isSome_iff_exists.mp (effect.survives kept present)
  have place : updated.id = k := Table.key_of_find? found
  exact ⟨updated, found, (effect.origin found).follows (place ▸ held)⟩

/-! Whole transactions. -/

theorem step_eq_some :
    step host state tx = some after ↔ ∃ next printed,
      dispatch (tx.context host) (Contract.construct state) tx.action = .ok (next, printed) ∧
        next.destruct = after := by
  unfold step
  cases dispatch (tx.context host) (Contract.construct state) tx.action with
  | error => simp
  | ok result =>
    obtain ⟨contract, printed⟩ := result
    simp

theorem step_effect (committed : step host state tx = some after) :
    ∃ next, Effect (tx.context host) tx.action (Contract.construct state) next ∧
      next.destruct = after := by
  obtain ⟨next, printed, done, stored⟩ := step_eq_some.mp committed
  exact ⟨next, dispatch_effect done, stored⟩

theorem step_origin (committed : step host state tx = some after)
    (found : after.user.find? k = some row) : RowOrigin (tx.context host) tx.action state.user row := by
  obtain ⟨next, effect, rfl⟩ := step_effect committed
  exact effect.origin found

theorem step_follows (committed : step host state tx = some after) (kept : tx.action ≠ .rmusers)
    (held : state.user.find? k = some row) :
    ∃ updated, after.user.find? k = some updated ∧ row.Follows updated := by
  obtain ⟨next, effect, rfl⟩ := step_effect committed
  exact effect.follows kept held

/-- An action on one user commits exactly if the contract signs, there is a row under the hash of the name,
and the updater accepts it and leaves it its id. It then writes that row and nothing else. -/
theorem step_edit
    (called : tx.action.edit? tx.now (state.global.getD {}).version = some (guiname, updater)) :
    step host state tx = some after ↔ host.self ∈ tx.auth ∧ ∃ row updated,
      state.user.find? (host.stringToUInt64 guiname) = some row ∧ updater row = .ok updated ∧
        updated.id = row.id ∧ after = { state with
          user := state.user.put updated, global := some (state.global.getD {}) } := by
  have commits (next : Contract) : (∃ printed, dispatch (tx.context host) (Contract.construct state)
      tx.action = .ok (next, printed)) ↔ _ := dispatch_edit_isOk called
  rw [step_eq_some]
  constructor
  · rintro ⟨next, printed, done, rfl⟩
    obtain ⟨authorised, row, updated, found, edits, same, rfl⟩ := (commits next).mp ⟨printed, done⟩
    exact ⟨authorised, row, updated, found, edits, same, rfl⟩
  · rintro ⟨authorised, row, updated, found, edits, same, rfl⟩
    obtain ⟨printed, done⟩ := (commits { Contract.construct state with
      user := state.user.put updated }).mpr ⟨authorised, row, updated, found, edits, same, rfl⟩
    exact ⟨_, printed, done, rfl⟩

end LocalChain.Inerygui
