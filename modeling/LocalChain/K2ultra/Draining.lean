import LocalChain.K2ultra.Reading

namespace LocalChain.K2ultra

open LocalChain.Inery LocalChain.Inery.MultiIndex LocalChain.Store

/-- The unseen rows of smallest id, `n` of them or all there are. -/
structure Earliest (n : Nat) (chosen : List Messages) (messages : MessagesTable) : Prop where
  distinct : chosen.Nodup
  waiting : ∀ row ∈ chosen, row ∈ messages.rows ∧ row.seen = 0
  count : chosen.length = min (unseen messages.rows).length n
  first : ∀ row ∈ chosen, ∀ other ∈ messages.rows, other.seen = 0 → other ∉ chosen → row.id < other.id

/-- Calling `seenmsg` on a scope until it does not print 1: how many calls it takes, and the state after
the last one. -/
inductive Drains (scope : UInt64) : State → Nat → State → Prop where
  | done {state next : State} {printed : List Printed}
      (committed : seenmsg scope state = .ok (next, printed)) (quiet : printed ≠ [.int 1]) :
      Drains scope state 1 next
  | again {state next last : State} {calls : Nat}
      (committed : seenmsg scope state = .ok (next, [.int 1])) (later : Drains scope next calls last) :
      Drains scope state (calls + 1) last

variable {messages result : MessagesTable} {rows : List Messages} {n : Nat} {state : State}
  {scope : UInt64}

/-- Rows are listed in the order of their ids, so the first unseen ones are those of smallest id. -/
theorem earliest_take (messages : MessagesTable) (n : Nat) :
    Earliest n ((unseen messages.rows).take n) messages := by
  have sorted : (unseen messages.rows).Pairwise (fun earlier later => earlier.id < later.id) :=
    messages.sorted.filter _
  constructor
  · exact (messages.nodup.filter _).sublist (List.take_sublist _ _)
  · intro row member
    exact mem_unseen.mp (List.mem_of_mem_take member)
  · rw [List.length_take, min_comm]
  · intro row member other present zero skipped
    have found : other ∈ (unseen messages.rows).take n ++ (unseen messages.rows).drop n := by
      rw [List.take_append_drop]
      exact mem_unseen.mpr ⟨present, zero⟩
    have behind := (List.mem_append.mp found).resolve_left skipped
    rw [← List.take_append_drop n (unseen messages.rows)] at sorted
    exact (List.pairwise_append.mp sorted).2.2 row member other behind

theorem markFirst_eq_map (distinct : rows.Nodup) :
    markFirst n rows = rows.map fun row => if row ∈ (unseen rows).take n then row.setSeen else row := by
  induction rows generalizing n with
  | nil => simp
  | cons row rest ih =>
    obtain ⟨fresh, distinct⟩ := List.nodup_cons.mp distinct
    cases n with
    | zero => simp
    | succ n =>
      by_cases zero : row.seen = 0
      · have head : unseen (row :: rest) = row :: unseen rest := by simp [unseen, zero]
        rw [markFirst, if_pos zero, head, List.take_succ_cons, List.map_cons, if_pos List.mem_cons_self,
          ih distinct]
        refine congrArg _ (List.map_congr_left fun other member => ?_)
        have apart : other ≠ row := fun same => fresh (same ▸ member)
        simp [apart]
      · have head : unseen (row :: rest) = unseen rest := by simp [unseen, zero]
        have absent : row ∉ (unseen rest).take (n + 1) := fun member =>
          fresh (mem_unseen.mp (List.mem_of_mem_take member)).1
        rw [markFirst, if_neg zero, head, List.map_cons, if_neg absent, ih distinct]

theorem Binary.markFirst (binary : Binary messages) (marked : result.rows = markFirst n messages.rows) :
    Binary result := by
  intro row member
  rw [marked] at member
  rcases mem_markFirst member with old | ⟨_, _, marked⟩
  · exact binary row old
  · exact .inr (marked ▸ rfl)

/-- Where every `seen` is 0 or 1, `seenmsg` commits and marks the 1000 unseen rows of smallest id, or all
there are, and changes nothing else. -/
theorem seenmsg_marks (binary : Binary (state.messages scope)) :
    ∃ chosen result printed, Earliest 1000 chosen (state.messages scope) ∧
      result.rows = (state.messages scope).rows.map
        (fun row => if row ∈ chosen then row.setSeen else row) ∧
      seenmsg scope state = .ok (state.setMessages scope result, printed) := by
  obtain ⟨printed, result, committed, rows, _⟩ := seenmsg_eq binary
  exact ⟨_, result, printed, earliest_take _ _,
    rows.trans (markFirst_eq_map (state.messages scope).nodup), committed⟩

/-- One of them reads what both have written. -/
theorem resumed_marks :
    ∃ chosen result printed, Earliest 1000 chosen ((reached chain resumed).messages 0) ∧
      result.rows = ((reached chain resumed).messages 0).rows.map
        (fun row => if row ∈ chosen then row.setSeen else row) ∧
      seenmsg 0 (reached chain resumed) = .ok ((reached chain resumed).setMessages 0 result, printed) ∧
      ((reached chain resumed).messages 0).rows.map (fun row => (row.sender, row.seen)) =
        [(alice, 1), (bob, 0), (alice, 1), (bob, 0), (alice, 0), (bob, 0)] ∧
      (result.rows.map fun row => row.seen) = [1, 1, 1, 1, 1, 1] := by
  obtain ⟨chosen, result, printed, earliest, rows, committed⟩ := seenmsg_marks (reached_binary chain resumed 0)
  refine ⟨chosen, result, printed, earliest, rows, committed, by decide +kernel, ?_⟩
  have marked : (seenmsg 0 (reached chain resumed)).toOption.map
      (fun outcome => (outcome.1.messages 0).rows.map fun row => row.seen) = some [1, 1, 1, 1, 1, 1] := by
    decide +kernel
  rw [committed] at marked
  exact Option.some.inj marked

/-- Each call but the last takes up to 1000 unseen rows, and the last one at most finds that nothing is
left. -/
private theorem drains_within (binary : Binary (state.messages scope)) :
    ∃ calls last, Drains scope state calls last ∧
      calls ≤ ((unseen (state.messages scope).rows).length + 999) / 1000 + 1 ∧
      unseen (last.messages scope).rows = [] := by
  induction waiting : (unseen (state.messages scope).rows).length using Nat.strong_induction_on
    generalizing state with
  | _ count ih =>
    obtain ⟨printed, result, committed, rows, found, all⟩ := seenmsg_eq binary
    have written : (state.setMessages scope result).messages scope = result := by
      rw [State.setMessages_messages, if_pos rfl]
    have left : unseen result.rows = (unseen (state.messages scope).rows).drop 1000 := by
      rw [rows, unseen_markFirst]
    by_cases more : printed = [.int 1]
    · subst more
      have positive : 0 < count := waiting ▸ List.length_pos_iff.mpr (found rfl)
      have remaining : (unseen result.rows).length = count - 1000 := by
        rw [left, List.length_drop, waiting]
      have binary' : Binary ((state.setMessages scope result).messages scope) :=
        written.symm ▸ binary.markFirst rows
      obtain ⟨calls, last, drains, bound, drained⟩ := ih (count - 1000) (by omega) binary' (by
        rw [written, remaining])
      exact ⟨calls + 1, last, .again committed drains, by omega, drained⟩
    · refine ⟨1, _, .done committed more, by omega, ?_⟩
      rw [written, left]
      exact List.drop_eq_nil_of_le (all more)

/-- Where every `seen` is 0 or 1, calling `seenmsg` for as long as it prints 1 ends and leaves no message
unseen. -/
theorem seenmsg_drains (binary : Binary (state.messages scope)) :
    ∃ calls last, Drains scope state calls last ∧
      calls ≤ (unseen (state.messages scope).rows).length / 1000 + 2 ∧
      ∀ row ∈ (last.messages scope).rows, row.seen ≠ 0 := by
  obtain ⟨calls, last, drains, bound, drained⟩ := drains_within binary
  refine ⟨calls, last, drains, by omega, fun row present zero => ?_⟩
  have member : row ∈ unseen (last.messages scope).rows := mem_unseen.mpr ⟨present, zero⟩
  rw [drained] at member
  cases member

/-- A call or two are enough for both of them. -/
theorem resumed_drains :
    ∃ calls last, Drains 0 (reached chain resumed) calls last ∧
      (unseen ((reached chain resumed).messages 0).rows).length = 4 ∧ calls ≤ 4 / 1000 + 2 ∧
      ∀ row ∈ (last.messages 0).rows, row.seen ≠ 0 := by
  have waiting : (unseen ((reached chain resumed).messages 0).rows).length = 4 := by decide +kernel
  obtain ⟨calls, last, drains, bound, drained⟩ := seenmsg_drains (reached_binary chain resumed 0)
  exact ⟨calls, last, drains, waiting, waiting ▸ bound, drained⟩

end LocalChain.K2ultra
