import LocalChain.Inerygui.Run

namespace LocalChain.Inerygui

open LocalChain.Inery LocalChain.Store
open LocalChain.K2ultra (Host)

variable {host : Host} {tx : Tx} {state next : State} {owner composition permName : Name}
  {object : HistoryObject} {type : ByteString} {auth : List Name}

theorem HistoryObject.bulky (object : HistoryObject) : 5 ≤ object.packSize := by
  unfold packSize
  omega

/-- An event of a known type makes the row bigger, and one of another type leaves it as it is. -/
theorem History.record_grows (row : History) :
    row.record object type = row ∨ row.packSize < (row.record object type).packSize := by
  have created := packSizeVector_grows row.createhistory object.bulky
  have updated := packSizeVector_grows row.updatehistory object.bulky
  have deleted := packSizeVector_grows row.deletehistory object.bulky
  unfold record packSize
  split_ifs
  · right
    simp only
    omega
  · right
    simp only
    omega
  · right
    simp only
    omega
  · exact .inl rfl

theorem History.packSize_pos (row : History) : 0 < row.packSize := by
  unfold packSize
  omega

/-- A row of the history or permissions table of the account's scope is added or changed. -/
def Touched (owner : Name) (state next : State) : Prop :=
  (∃ row ∈ (next.history owner.value).rows, row ∉ (state.history owner.value).rows) ∨
    ∃ row ∈ (next.permissions owner.value).rows, row ∉ (state.permissions owner.value).rows

/-- The account whose tables an action writes. -/
def Action.owner? : Action → Option Name
  | .addhistory owner _ _ _ => some owner
  | .linkperm owner _ _ => some owner
  | _ => none

/-- Either the owner has signed, or the action is not a link that replaces another permission. -/
def OwnerWarranted (auth : List Name) (state : State) : Action → Prop
  | .linkperm owner composition permName =>
    owner ∈ auth ∨ ∀ row, (state.permissions owner.value).find? composition.value = some row →
      row.permName = permName
  | _ => True

/-- Whoever pays for a history is its owner: every event that leaves a trace takes storage. -/
theorem addhistory_authorised (committed : step host state tx = some next)
    (called : tx.action = .addhistory owner composition object type) (touched : Touched owner state next) :
    owner ∈ tx.auth := by
  obtain ⟨contract, printed, done, rfl⟩ := step_eq_some.mp committed
  rw [called] at done
  obtain ⟨paid, rfl⟩ := addhistory_ok (silent_eq_ok.mp done).1
  refine paid ?_
  cases found : ((Contract.construct state).history owner.value).find? composition.value with
  | none => exact History.packSize_pos _
  | some row =>
    refine (History.record_grows row).resolve_left fun same => ?_
    have stored : row ∈ (state.history owner.value).rows := (Table.find?_eq_some.mp found).1
    have unchanged : (state.history owner.value).put row = state.history owner.value :=
      Table.put_self stored
    rcases touched with ⟨added, present, fresh⟩ | ⟨_, present, fresh⟩
    · simp only [Contract.destruct, Contract.setHistory_history, ↓reduceIte, found, History.grown,
        same] at present
      exact fresh (unchanged ▸ present)
    · exact fresh present

/-- A link is paid for where there was none. -/
theorem linkperm_step (committed : step host state tx = some next)
    (called : tx.action = .linkperm owner composition permName) :
    ((state.permissions owner.value).find? composition.value = none → owner ∈ tx.auth) ∧
      next.history = state.history ∧
      next.permissions owner.value = (state.permissions owner.value).put
        (Permissions.relinked composition permName
          ((state.permissions owner.value).find? composition.value)) := by
  obtain ⟨contract, printed, done, rfl⟩ := step_eq_some.mp committed
  rw [called] at done
  obtain ⟨paid, rfl⟩ := linkperm_ok (silent_eq_ok.mp done).1
  refine ⟨paid, rfl, ?_⟩
  simp only [Contract.destruct, Contract.setPermissions_permissions, ↓reduceIte]
  rfl

theorem linkperm_authorised_iff (committed : step host state tx = some next)
    (called : tx.action = .linkperm owner composition permName) :
    (Touched owner state next → owner ∈ tx.auth) ↔ OwnerWarranted tx.auth state tx.action := by
  obtain ⟨paid, histories, result⟩ := linkperm_step committed called
  rw [called]
  constructor
  · intro authorised
    by_cases signed : owner ∈ tx.auth
    · exact .inl signed
    · refine .inr fun row found => ?_
      by_contra differs
      refine signed (authorised (.inr ⟨row.setPermName permName, ?_, fun old => differs ?_⟩))
      · rw [result, found]
        exact Table.mem_put.mpr (.inl rfl)
      · have same := Table.key_injective _ old (Table.find?_eq_some.mp found).1 rfl
        exact (congrArg Permissions.permName same).symm
  · rintro (signed | same) touched
    · exact signed
    · cases found : (state.permissions owner.value).find? composition.value with
      | none => exact paid found
      | some row =>
        have unchanged : row.setPermName permName = row := by rw [← same row found]; rfl
        have stored := (Table.find?_eq_some.mp found).1
        have kept : next.permissions owner.value = state.permissions owner.value := by
          rw [result, found, Permissions.relinked, unchanged, Table.put_self stored]
        rcases touched with ⟨added, present, fresh⟩ | ⟨added, present, fresh⟩
        · exact absurd (histories ▸ present) fresh
        · exact absurd (kept ▸ present) fresh

/-- In every state, a committed `addhistory` or `linkperm` that touches the tables of an account has
its authority, exactly if it is not a link that replaces another permission without it. -/
theorem owner_authorised_iff (committed : step host state tx = some next)
    (owned : tx.action.owner? = some owner) :
    (Touched owner state next → owner ∈ tx.auth) ↔ OwnerWarranted tx.auth state tx.action := by
  cases called : tx.action with
  | addhistory =>
    rw [called] at owned
    cases owned
    exact iff_of_true (addhistory_authorised committed called) trivial
  | linkperm =>
    rw [called] at owned
    cases owned
    rw [← called]
    exact linkperm_authorised_iff committed called
  | _ => rw [called] at owned; cases owned

/-- Alice links a permission. -/
def linked : Tx := .signed alice (.linkperm alice ⟨1⟩ ⟨2⟩)

theorem linked_authorised :
    Touched alice State.initial (reached chain [linked]) ∧ alice ∈ linked.auth := by
  have committed : step chain State.initial linked = some (reached chain [linked]) :=
    committed_exec (by decide +kernel)
  have touched : Touched alice State.initial (reached chain [linked]) :=
    .inr ⟨⟨⟨1⟩, ⟨2⟩⟩, by decide +kernel, by decide +kernel⟩
  exact ⟨touched, (owner_authorised_iff committed rfl).mpr (.inl (by decide)) touched⟩

/-- Bob replaces the permission that Alice has linked. -/
def relinked : Tx := .signed bob (.linkperm alice ⟨1⟩ ⟨3⟩)

theorem relinked_not_authorised :
    ∃ next, step chain (reached chain [linked]) relinked = some next ∧
      Touched alice (reached chain [linked]) next ∧ alice ∉ relinked.auth := by
  refine ⟨_, committed_exec (by decide +kernel), .inr ⟨⟨⟨1⟩, ⟨3⟩⟩, ?_, ?_⟩, by decide⟩
  · decide +kernel
  · decide +kernel

end LocalChain.Inerygui
