import LocalChain.K2ultra.SeenWalk

namespace LocalChain.K2ultra

open LocalChain.Inery LocalChain.Inery.MultiIndex LocalChain.Store

variable {messages : MessagesTable} {rows front back before : List Messages} {row itr : Messages}
  {left cnt : Nat} {state : State} {scope : UInt64} {sender : Name}

/-- The walk of `getunseen` over a list: the rows before `itr` come next, nearest first. -/
def tally (sender : Name) : Nat → Nat → Messages → List Messages → Nat × Nat × Messages
  | left, cnt, itr, [] => (left, cnt, itr)
  | 0, cnt, itr, _ :: _ => (0, cnt, itr)
  | left + 1, cnt, itr, previous :: before =>
    if cnt < 100 then tally sender left (if itr.sender = sender then cnt + 1 else cnt) previous before
    else (left + 1, cnt, itr)

/-- What `getunseen` counts among the unseen rows, which it meets in descending order. -/
def counted (sender : Name) : List Messages → Nat
  | [] => 0
  | last :: before =>
    let (left, cnt, itr) := tally sender 1000 0 last before
    if itr.sender = sender ∧ 0 < left then cnt + 1 else cnt

theorem tally_mem : (tally sender left cnt itr before).2.2 ∈ itr :: before := by
  induction before generalizing left cnt itr with
  | nil => simp [tally]
  | cons previous before ih =>
    cases left with
    | zero => simp [tally]
    | succ left =>
      rw [tally]
      split
      · exact List.mem_cons_of_mem _ ih
      · exact List.mem_cons_self

/-- An unseen row with another one before it stands in the middle of the index. -/
private theorem listed_split {previous : Messages} (binary : Binary messages)
    (split : unseen messages.rows = front ++ previous :: itr :: back) :
    messages.Listed Messages.bySeen ((front ++ [previous]) ++ itr :: (back ++ seen messages.rows)) := by
  simpa [split] using listed_unseen binary

private theorem decrement_unseen {previous : Messages} (binary : Binary messages)
    (split : unseen messages.rows = front ++ previous :: itr :: back) :
    decrement messages Messages.bySeen (some itr) = .ok previous := by
  simp [decrement, (listed_split binary split).indexPrevious, pure, Except.pure]

private theorem begin_ne {previous : Messages} (binary : Binary messages)
    (split : unseen messages.rows = front ++ previous :: itr :: back) :
    messages.indexLowerBound Messages.bySeen 0 ≠ some itr := by
  intro first
  rw [indexLowerBound_eq_head? binary, split] at first
  have early : itr ∈ front ++ [previous] := by
    refine List.mem_of_head? ?_
    cases front <;> simpa using first
  have sorted := (List.pairwise_append.mp (listed_split binary split).sorted).2.2
  exact lt_irrefl _ (sorted itr early itr List.mem_cons_self)

/-- The walk of `getunseen` from an unseen row on. -/
theorem getunseenLoop_eq (binary : Binary messages)
    (split : unseen messages.rows = before.reverse ++ itr :: back) :
    getunseenLoop sender messages left cnt itr = .ok (tally sender left cnt itr before) := by
  induction before generalizing left cnt itr back with
  | nil =>
    have first : messages.indexLowerBound Messages.bySeen 0 = some itr := by
      rw [indexLowerBound_eq_head? binary, split]
      rfl
    cases left with
    | zero => rfl
    | succ left => simp [getunseenLoop, tally, first, pure, Except.pure]
  | cons previous before ih =>
    cases left with
    | zero => rfl
    | succ left =>
      have zero : itr.seen = 0 := (mem_unseen.mp (by rw [split]; simp)).2
      rw [List.reverse_cons, List.append_assoc, List.singleton_append] at split
      have apart := begin_ne binary split
      by_cases room : cnt < 100
      · rw [getunseenLoop, if_pos ⟨apart, zero, room⟩, decrement_unseen binary split, tally, if_pos room]
        exact ih split
      · rw [getunseenLoop, if_neg (fun all => room all.2.2), tally, if_neg room]
        rfl

theorem indexUpperBound_eq_head? (binary : Binary messages) :
    messages.indexUpperBound Messages.bySeen 0 = (seen messages.rows).head? := by
  have below : ∀ row ∈ unseen messages.rows, ¬ 0 < row.bySeen := by
    intro row member
    simp [Messages.bySeen, (mem_unseen.mp member).2]
  rw [Table.indexUpperBound, (listed_unseen binary).leastWhere, List.find?_append,
    List.find?_eq_none.mpr (by simpa using below)]
  cases first : seen messages.rows with
  | nil => rfl
  | cons row rest =>
    have member : row ∈ seen messages.rows := by simp [first]
    simp only [seen, List.mem_filter, decide_eq_true_eq] at member
    have one := (binary row member.1).resolve_left member.2
    simp [Messages.bySeen, one]

/-- Stepping back from the upper bound leads to the last unseen row. -/
private theorem decrement_upper (binary : Binary messages) {last : Messages}
    (split : unseen messages.rows = before.reverse ++ [last]) :
    decrement messages Messages.bySeen (messages.indexUpperBound Messages.bySeen 0) = .ok last := by
  have listed := listed_unseen binary
  rw [split] at listed
  rw [indexUpperBound_eq_head? binary]
  cases first : seen messages.rows with
  | nil =>
    rw [first, List.append_nil] at listed
    simp [decrement, listed.indexPrevious_none, pure, Except.pure]
  | cons row rest =>
    rw [first] at listed
    simp [decrement, listed.indexPrevious, pure, Except.pure]

/-- `getunseen` never steps back from the beginning of the index, and prints what the walk counts. -/
theorem getunseen_eq (binary : Binary (state.messages scope)) :
    getunseen scope sender state =
      .ok (state, [.int (counted sender (unseen (state.messages scope).rows).reverse)]) := by
  have lower := indexLowerBound_eq_head? binary
  have upper := indexUpperBound_eq_head? binary
  cases order : (unseen (state.messages scope).rows).reverse with
  | nil =>
    rw [List.reverse_eq_nil_iff.mp order, List.nil_append] at lower
    have same : (state.messages scope).indexUpperBound Messages.bySeen 0 =
        (state.messages scope).indexLowerBound Messages.bySeen 0 := by rw [upper, lower]
    simp only [getunseen, same, ne_eq, not_true_eq_false, ↓reduceIte]
    rfl
  | cons last before =>
    have split : unseen (state.messages scope).rows = before.reverse ++ [last] := by
      rw [← List.reverse_cons, ← order, List.reverse_reverse]
    have differ : (state.messages scope).indexUpperBound Messages.bySeen 0 ≠
        (state.messages scope).indexLowerBound Messages.bySeen 0 := by
      rw [upper, lower, split]
      intro same
      obtain ⟨first, begins⟩ : ∃ first, (before.reverse ++ [last]).head? = some first :=
        Option.isSome_iff_exists.mp (by simp)
      rw [List.head?_append, begins] at same
      have member := List.mem_of_head? same
      simp only [seen, List.mem_filter, decide_eq_true_eq] at member
      have found : first ∈ unseen (state.messages scope).rows := split ▸ List.mem_of_head? begins
      exact member.2 (mem_unseen.mp found).2
    have zero : (tally sender 1000 0 last before).2.2.seen = 0 := by
      have member : (tally sender 1000 0 last before).2.2 ∈ unseen (state.messages scope).rows := by
        rw [← List.mem_reverse, order]
        exact tally_mem
      exact (mem_unseen.mp member).2
    simp only [getunseen, if_pos differ, decrement_upper binary split]
    refine bind_eq_ok.mpr ⟨last, rfl, bind_eq_ok.mpr ⟨_, getunseenLoop_eq binary split, ?_⟩⟩
    simp only [counted, zero, true_and]
    rfl

/-- Short of both caps the walk reaches the first row with every own row before it counted. -/
private theorem tally_eq (few : cnt + (itr :: before).countP (fun row => row.sender = sender) < 100)
    (room : before.length < left) :
    ∃ n m first, tally sender left cnt itr before = (n, m, first) ∧ 0 < n ∧
      (if first.sender = sender then m + 1 else m) =
        cnt + (itr :: before).countP (fun row => row.sender = sender) := by
  induction before generalizing left cnt itr with
  | nil =>
    refine ⟨left, cnt, itr, by simp [tally], room, ?_⟩
    by_cases own : itr.sender = sender <;> simp [own]
  | cons previous before ih =>
    cases left with
    | zero => simp at room
    | succ left =>
      have split : (itr :: previous :: before).countP (fun row => row.sender = sender) =
          (previous :: before).countP (fun row => row.sender = sender) +
            if itr.sender = sender then 1 else 0 := by
        rw [List.countP_cons]
        simp
      have next : (if itr.sender = sender then cnt + 1 else cnt) =
          cnt + if itr.sender = sender then 1 else 0 := by
        split <;> rfl
      rw [split] at few ⊢
      rw [tally, if_pos (by omega), next]
      have few' : (cnt + if itr.sender = sender then 1 else 0) +
          (previous :: before).countP (fun row => row.sender = sender) < 100 := by omega
      have room' : before.length < left := by simpa using room
      obtain ⟨n, m, first, walked, positive, total⟩ := ih few' room'
      exact ⟨n, m, first, walked, positive, by omega⟩

/-- Short of both caps the count is exact. -/
theorem counted_eq (few : rows.countP (fun row => row.sender = sender) < 100)
    (short : rows.length ≤ 1000) :
    counted sender rows = rows.countP (fun row => row.sender = sender) := by
  cases rows with
  | nil => rfl
  | cons last before =>
    have few' : 0 + (last :: before).countP (fun row => row.sender = sender) < 100 := by
      simpa using few
    have room : before.length < 1000 := Nat.lt_of_succ_le short
    obtain ⟨n, m, first, walked, positive, total⟩ := tally_eq few' room
    rw [counted, walked]
    simpa [positive] using total

end LocalChain.K2ultra
