import LocalChain.K2ultra.Mirror

namespace LocalChain.K2ultra

open LocalChain.Graph LocalChain.Inery LocalChain.Inery.MultiIndex LocalChain.Store

variable {state next : State} {owner x : Name} {rest : List Requests} {row : Requests} {scope : UInt64}

/-- Where no row names the owner, each round erases a row of the owner's table through the one table
object and a row of another table through the other, so no round aborts. -/
private theorem deletereqsLoop_isOk
    (sorted : rest.Pairwise fun earlier later => earlier.primaryKey < later.primaryKey)
    (rows : state.requests owner.value = ⟨rest, sorted⟩) (apart : ∀ row ∈ rest, row.contact ≠ owner) :
    ∃ next, deletereqsLoop owner rest.length rest.head? state = .ok next := by
  induction rest generalizing state with
  | nil => exact ⟨state, rfl⟩
  | cons row rest ih =>
    have others : ∀ other ∈ rest, other.contact ≠ owner :=
      fun other member => apart other (List.mem_cons_of_mem _ member)
    have distinct : ¬ row.contact.value = owner.value :=
      fun same => apart row List.mem_cons_self (Name.value_inj.mp same)
    have elsewhere (table : RequestsTable) : (state.setRequests owner.value table).requests
        row.contact.value = state.requests row.contact.value := by
      rw [State.setRequests_requests, if_neg distinct]
    simp only [List.length_cons, List.head?_cons, deletereqsLoop, rows, erase_head sorted, elsewhere,
      bind_eq_ok, Except.ok.injEq, exists_eq_left']
    split
    · rename_i present
      obtain ⟨theirs, counterpart⟩ := Option.isSome_iff_exists.mp present
      have place : theirs.scope = row.scope := State.book_scope counterpart
      have erased : ∃ removed, erase (state.requests row.contact.value) (some theirs) = .ok removed :=
        ⟨_, erase_some.mpr ⟨by rw [Requests.primaryKey_eq, place]; exact present, rfl⟩⟩
      obtain ⟨⟨itr, requests2⟩, removed⟩ := erased
      simp only [counterpart, removed, bind_eq_ok, Except.ok.injEq, exists_eq_left']
      refine ih (List.pairwise_cons.mp sorted).2 ?_ others
      rw [State.setRequests_requests, if_neg fun same => distinct same.symm, State.setRequests_requests,
        if_pos rfl]
    · refine ih (List.pairwise_cons.mp sorted).2 ?_ others
      rw [State.setRequests_requests, if_pos rfl]

/-- Where every row has its counterpart, what the cascade takes from another account are exactly its rows
that name the owner. -/
theorem cascade_eq (mirrored : state.links.Mirrored) (other : x ≠ owner) :
    state.book.cascade owner x scope = (state.book x scope).filter (fun row => row.contact ≠ owner) := by
  simp only [Book.cascade, other, false_or]
  cases held : state.book x scope with
  | none => simp
  | some row =>
    have names : (∃ mine, state.book owner scope = some mine ∧ mine.contact = x) ↔
        row.contact = owner := by
      rw [← Book.links_eq_some]
      change state.links owner scope = some x ↔ _
      rw [mirrored.flip, State.links_of_book held, Option.some.injEq]
    by_cases same : row.contact = owner <;> simp [Option.filter, names, same]

/-- From a state in which every row has its counterpart, `deletereqs` commits, empties the table of the
owner and takes from every other table exactly the rows that name him. -/
theorem deletereqs_cascades (mirrored : state.links.Mirrored) :
    ∃ next, deletereqs owner state = .ok next ∧ next.requests owner.value = .empty ∧
      (∀ x, x ≠ owner → (next.requests x.value).rows =
        (state.requests x.value).rows.filter (fun row => row.contact ≠ owner)) ∧
      OnlyRequests state next ∧ next.links.Mirrored := by
  have apart (row : Requests) (present : row ∈ (state.requests owner.value).rows) :
      row.contact ≠ owner :=
    (mirrored owner row.scope row.contact (State.links_of_book (State.mem_rows.mp present))).1
  obtain ⟨next, committed⟩ := deletereqsLoop_isOk (state.requests owner.value).sorted rfl apart
  obtain ⟨only, book⟩ := deletereqs_ok committed
  refine ⟨next, committed, ?_, fun x other => ?_, only, ?_⟩
  · refine Table.ext_find? fun scope => ?_
    change next.book owner scope = none
    simp [book, Book.cascade]
  · have kept : next.requests x.value =
        (state.requests x.value).keep (fun row => row.contact ≠ owner) := by
      refine Table.ext_find? fun scope => ?_
      rw [Table.find?_keep]
      change next.book x scope = (state.book x scope).filter _
      rw [book, cascade_eq mirrored other]
    rw [kept]
    rfl
  · have legal : (Links.Move.cascade owner).Legal state.links := trivial
    rw [State.links, book, Book.links_cascade]
    exact mirrored.apply legal trivial

/-- Alice and Bob are linked, and Alice's rows are deleted. -/
theorem requested_cascades :
    ∃ next, deletereqs alice (reached chain requested) = .ok next ∧
      next.requests alice.value = .empty ∧
      (∀ x, x ≠ alice → (next.requests x.value).rows =
        ((reached chain requested).requests x.value).rows.filter (fun row => row.contact ≠ alice)) ∧
      OnlyRequests (reached chain requested) next ∧ next.links.Mirrored :=
  deletereqs_cascades (reached_mirrored (by decide))

end LocalChain.K2ultra
