import LocalChain.Inerygui.Run

namespace LocalChain.Inerygui

open LocalChain.Inery LocalChain.Store
open LocalChain.K2ultra (Host)

/-- The removal that goes with an addition. -/
def Action.reverse? : Action → Option Action
  | .addaccount guiname account => some (.rmaccount guiname account)
  | .addserver guiname server => some (.rmserver guiname server)
  | .addtemplateu guiname templateId => some (.rmtemplateu guiname templateId)
  | .addpluginu guiname pluginId => some (.rmpluginu guiname pluginId)
  | _ => none

/-- What is added is not in the row yet. Only `addserver` does not check this itself. -/
def Action.AddsFresh (row : User) : Action → Prop
  | .addserver _ server => server ∉ row.servers
  | _ => True

variable {host : Host} {tx tx' : Tx} {state next : State} {action back : Action} {row updated : User}
  {guiname version : ByteString} {time : TimePoint} {add : User → Except Abort User}

theorem filter_concat {α : Type} [DecidableEq α] (values : List α) (value : α) :
    (values ++ [value]).filter (· ≠ value) = values.filter (· ≠ value) := by
  simp

theorem filter_fresh {α : Type} [DecidableEq α] {values : List α} {value : α} :
    values.filter (· ≠ value) = values ↔ value ∉ values := by
  rw [List.filter_eq_self]
  constructor
  · intro kept member
    simpa using kept value member
  · intro fresh other member
    have apart : other ≠ value := fun same => fresh (same ▸ member)
    simpa using apart

/-- A removal accepts the row that its addition has left. It takes out what was added, and with it whatever
was equal to it before. -/
theorem reversed_row (reverses : action.reverse? = some back)
    (edit : action.edit? time version = some (guiname, add)) (edits : add row = .ok updated) :
    ∃ remove removed, (∀ time version, back.edit? time version = some (guiname, remove)) ∧
      remove updated = .ok removed ∧ removed.id = row.id ∧ (removed = row ↔ action.AddsFresh row) := by
  cases action <;> simp only [Action.reverse?, reduceCtorEq, Option.some.injEq] at reverses <;>
    subst reverses <;> simp only [Action.edit?, Option.some.injEq, Prod.mk.injEq] at edit <;>
    obtain ⟨rfl, rfl⟩ := edit
  case addaccount account =>
    simp only [User.addaccount, bind_eq_ok, check_eq_ok, pure_eq_ok, decide_eq_true_eq] at edits
    obtain ⟨_, fresh, rfl⟩ := edits
    refine ⟨_, row, fun _ _ => rfl, ?_, rfl, iff_of_true rfl trivial⟩
    simp only [User.rmaccount, bind_eq_ok, check_eq_ok, pure_eq_ok, filter_concat, filter_fresh.mpr fresh]
    exact ⟨(), by simp, trivial⟩
  case addserver server =>
    obtain rfl := pure_eq_ok.mp edits
    refine ⟨_, { row with servers := row.servers.filter (· ≠ server) }, fun _ _ => rfl, ?_, rfl, ?_⟩
    · simp only [User.rmserver, bind_eq_ok, check_eq_ok, pure_eq_ok, filter_concat]
      exact ⟨(), by simp, trivial⟩
    · rw [Action.AddsFresh, ← filter_fresh]
      constructor
      · intro same
        exact congrArg User.servers same
      · intro kept
        rw [kept]
  case addtemplateu templateId =>
    simp only [User.addtemplateu, bind_eq_ok, check_eq_ok, pure_eq_ok, decide_eq_true_eq] at edits
    obtain ⟨_, fresh, rfl⟩ := edits
    refine ⟨_, row, fun _ _ => rfl, ?_, rfl, iff_of_true rfl trivial⟩
    simp only [User.rmtemplateu, bind_eq_ok, check_eq_ok, pure_eq_ok, filter_concat,
      filter_fresh.mpr fresh]
    exact ⟨(), by simp, trivial⟩
  case addpluginu pluginId =>
    simp only [User.addpluginu, User.plugin?, bind_eq_ok, check_eq_ok, pure_eq_ok,
      Option.isNone_iff_eq_none, List.find?_eq_none, decide_eq_true_eq] at edits
    obtain ⟨_, absent, rfl⟩ := edits
    refine ⟨_, row, fun _ _ => rfl, ?_, rfl, iff_of_true rfl trivial⟩
    have kept : row.plugins.filter (·.id ≠ pluginId) = row.plugins :=
      List.filter_eq_self.mpr (by simpa using absent)
    rw [User.rmpluginu_eq, List.filter_append, kept]
    simp

/-- In terms of the state, the addition is fresh if the row under the hash of the name does not list the
server. -/
theorem addsFresh_iff (found : state.user.find? (host.stringToUInt64 guiname) = some row)
    (edit : action.edit? time version = some (guiname, add)) :
    action.AddsFresh row ↔ ∀ guiname server, action = .addserver guiname server → ∀ row,
      state.user.find? (host.stringToUInt64 guiname) = some row → server ∉ row.servers := by
  constructor
  · rintro fresh other server rfl row' found'
    obtain ⟨rfl, _⟩ := Prod.mk.inj (Option.some.inj edit)
    obtain rfl := Option.some.inj (found.symm.trans found')
    exact fresh
  · intro fresh
    cases action with
    | addserver other server =>
      obtain ⟨rfl, _⟩ := Prod.mk.inj (Option.some.inj edit)
      exact fresh other server rfl row found
    | _ => trivial

/-- Right after an addition the removal of the same value commits, and it brings back the users as they
were exactly if the value was not a server that the row had listed already. -/
theorem addition_reversed_iff (committed : step host state tx = some next)
    (reverses : tx.action.reverse? = some tx'.action) (authorised : host.self ∈ tx'.auth) :
    (∃ last, step host next tx' = some last) ∧
      ((∃ last, step host next tx' = some last ∧ last.user = state.user) ↔
        ∀ guiname server, tx.action = .addserver guiname server → ∀ row,
          state.user.find? (host.stringToUInt64 guiname) = some row → server ∉ row.servers) := by
  obtain ⟨guiname, add, edit⟩ : ∃ guiname add,
      tx.action.edit? tx.now (state.global.getD {}).version = some (guiname, add) := by
    cases action : tx.action <;> simp only [action, Action.reverse?, reduceCtorEq] at reverses <;>
      exact ⟨_, _, rfl⟩
  obtain ⟨_, row, updated, found, edits, same, rfl⟩ := (step_edit edit).mp committed
  obtain ⟨present, place⟩ := Table.find?_eq_some.mp found
  obtain ⟨remove, removed, edit', edits', same', restores⟩ := reversed_row reverses edit edits
  have held : (state.user.put updated).find? (host.stringToUInt64 guiname) = some updated :=
    Table.find?_put_of_key _ (same.trans place)
  have removal : step host { state with
      user := state.user.put updated, global := some (state.global.getD {}) } tx' = some _ :=
    (step_edit (edit' _ _)).mpr
      ⟨authorised, updated, removed, held, edits', same'.trans same.symm, rfl⟩
  refine ⟨⟨_, removal⟩, ?_⟩
  rw [← addsFresh_iff found edit, ← restores]
  constructor
  · rintro ⟨last, committed', unchanged⟩
    obtain rfl := Option.some.inj (removal.symm.trans committed')
    have left : ((state.user.put updated).put removed).find? (host.stringToUInt64 guiname) =
        some removed := Table.find?_put_of_key _ (same'.trans place)
    have result : (state.user.put updated).put removed = state.user := unchanged
    rw [result] at left
    exact Option.some.inj (left.symm.trans found)
  · rintro rfl
    exact ⟨_, removal, Table.put_back present same⟩

/-- An account is added and removed. -/
theorem account_reversed :
    ∃ next, step chain (reached chain registered) (.signed chain.self (.addaccount gui alice)) = some next ∧
      ∃ last, step chain next (.signed chain.self (.rmaccount gui alice)) = some last ∧
        last.user = (reached chain registered).user := by
  have committed : step chain (reached chain registered)
      (.signed chain.self (.addaccount gui alice)) = some _ := committed_exec (by decide +kernel)
  have signed : chain.self ∈ (Tx.signed chain.self (.rmaccount gui alice)).auth := by decide
  refine ⟨_, committed, (addition_reversed_iff committed rfl signed).2.mpr ?_⟩
  rintro _ _ called
  cases called

/-- The user lists a server. -/
def served : List Tx := registered ++ [.signed chain.self (.addserver gui "server")]

/-- The server is added once more and then removed, the old entry with it. -/
theorem server_not_reversed :
    ∃ next last,
      step chain (reached chain served) (.signed chain.self (.addserver gui "server")) = some next ∧
      step chain next (.signed chain.self (.rmserver gui "server")) = some last ∧
      last.user ≠ (reached chain served).user := by
  refine ⟨_, _, committed_exec (by decide +kernel), committed_exec (by decide +kernel), ?_⟩
  decide +kernel

end LocalChain.Inerygui
