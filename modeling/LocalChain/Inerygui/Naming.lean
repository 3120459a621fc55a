import LocalChain.Inerygui.Users

namespace LocalChain.Inerygui

open LocalChain.Inery LocalChain.Store
open LocalChain.K2ultra (Host)

variable {host : Host} {txs : List Tx} {tx : Tx} {state next : State} {guiname : ByteString} {row : User}

/-- The name that an action on one user is given. -/
def Action.guiname? (action : Action) : Option ByteString := (action.edit? ⟨0⟩ "").map Prod.fst

theorem Action.edit?_of_guiname? {action : Action} (named : action.guiname? = some guiname)
    (time : TimePoint) (version : ByteString) :
    ∃ updater, action.edit? time version = some (guiname, updater) := by
  cases action <;> simp only [guiname?, edit?, Option.map_some, Option.map_none, reduceCtorEq,
    Option.some.injEq] at named <;> subst named <;> exact ⟨_, rfl⟩

/-- An action on one user writes the row under the hash of the name and no other. -/
theorem named_ok (committed : step host state tx = some next)
    (named : tx.action.guiname? = some guiname) :
    ∃ row updated, state.user.find? (host.stringToUInt64 guiname) = some row ∧
      updated.id = host.stringToUInt64 guiname ∧ next.user = state.user.put updated := by
  obtain ⟨contract, printed, done, rfl⟩ := step_eq_some.mp committed
  obtain ⟨updater, edit⟩ := Action.edit?_of_guiname? named (tx.context host).now
    (Contract.construct state).gstate.version
  obtain ⟨_, row, updated, found, _, same, rfl⟩ := (dispatch_edit_isOk edit).mp ⟨printed, done⟩
  have place : row.id = host.stringToUInt64 guiname := Table.key_of_find? found
  exact ⟨row, updated, found, same.trans place, rfl⟩

/-- An action that was given a name has reached a user of that name and no other. -/
structure ReachesNamed (guiname : ByteString) (state next : State) : Prop where
  named : ∃ row ∈ state.user.rows, row.guiname = guiname
  others : ∀ row ∈ state.user.rows, row.guiname ≠ guiname → next.user.find? row.id = some row

/-- After every run a committed action on one user reaches the user it names exactly if the row under
the hash of the name has that name. -/
theorem reaches_named_iff (committed : step host (reached host txs) tx = some next)
    (named : tx.action.guiname? = some guiname) :
    ReachesNamed guiname (reached host txs) next ↔
      ∀ row, (reached host txs).user.find? (host.stringToUInt64 guiname) = some row →
        row.guiname = guiname := by
  constructor
  · rintro ⟨⟨other, present, same⟩, _⟩ row found
    have place : other.id = host.stringToUInt64 guiname :=
      same ▸ (reached_wellFormed host txs other present).named
    have held := Table.find?_self present
    rw [User.primaryKey_eq, place] at held
    cases held.symm.trans found
    exact same
  · intro matching
    obtain ⟨row, updated, found, place, result⟩ := named_ok committed named
    obtain ⟨present, under⟩ := Table.find?_eq_some.mp found
    refine ⟨⟨row, present, matching row found⟩, fun other member differs => ?_⟩
    rw [result, Table.find?_put, if_neg]
    · exact Table.find?_self member
    · intro same
      have shared : other.primaryKey = row.primaryKey := same.trans (place.trans under.symm)
      rw [Table.key_injective _ member present shared] at differs
      exact differs (matching row found)

/-- An account is added to the user by its name. -/
theorem gui_reached :
    ∃ next, step chain (reached chain registered) (.signed chain.self (.addaccount gui alice)) =
        some next ∧ ReachesNamed gui (reached chain registered) next := by
  have committed : step chain (reached chain registered)
      (.signed chain.self (.addaccount gui alice)) = some _ := committed_exec (by decide +kernel)
  refine ⟨_, committed, (reaches_named_iff committed rfl).mpr fun row found => ?_⟩
  have held : (reached chain registered).user.find? (chain.stringToUInt64 gui) =
      some ((User.fresh ⟨0⟩).registered (chain.stringToUInt64 gui) gui password "V-1.0.0") := by
    decide +kernel
  cases held.symm.trans found
  rfl

/-- Nobody is registered as the namesake, whose hash begins like that of the user: the account goes to
the user. -/
theorem namesake_not_reached :
    ∃ next, step chain (reached chain registered) (.signed chain.self (.addaccount namesake alice)) =
        some next ∧ ¬ ReachesNamed namesake (reached chain registered) next := by
  refine ⟨_, committed_exec (by decide +kernel), ?_⟩
  rintro ⟨⟨row, present, same⟩, _⟩
  have others : ∀ row ∈ (reached chain registered).user.rows, row.guiname ≠ namesake := by
    decide +kernel
  exact others row present same

end LocalChain.Inerygui
