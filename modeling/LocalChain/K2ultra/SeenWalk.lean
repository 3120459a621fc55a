import LocalChain.K2ultra.Messages
import LocalChain.Store.IndexOrder

namespace LocalChain.K2ultra

open LocalChain.Inery LocalChain.Inery.MultiIndex LocalChain.Store

variable {messages : MessagesTable} {rows front back rest : List Messages} {row itr old : Messages}
  {left n : Nat} {state : State} {scope : UInt64}

/-- A table whose rows are seen or not: `seen` holds 0 or 1. -/
def Binary (messages : MessagesTable) : Prop := ∀ row ∈ messages.rows, row.seen = 0 ∨ row.seen = 1

def unseen (rows : List Messages) : List Messages := rows.filter (fun row => row.seen = 0)

def seen (rows : List Messages) : List Messages := rows.filter (fun row => row.seen ≠ 0)

/-- Mark the first `n` unseen rows of a list. -/
def markFirst : Nat → List Messages → List Messages
  | 0, rows => rows
  | _ + 1, [] => []
  | n + 1, row :: rest =>
    if row.seen = 0 then row.setSeen :: markFirst n rest else row :: markFirst (n + 1) rest

@[simp] theorem markFirst_zero : markFirst 0 rows = rows := by
  cases rows <;> rfl

@[simp] theorem markFirst_nil : markFirst n [] = [] := by
  cases n <;> rfl

@[simp] theorem mem_unseen : row ∈ unseen rows ↔ row ∈ rows ∧ row.seen = 0 := by
  simp [unseen]

/-- The index by `seen` lists the unseen rows before the others, both in the order of their ids. -/
theorem listed_unseen (binary : Binary messages) :
    messages.Listed Messages.bySeen (unseen messages.rows ++ seen messages.rows) := by
  constructor
  · simpa [unseen, seen] using List.filter_append_perm (fun row => row.seen = 0) messages.rows
  · refine List.pairwise_append.mpr ⟨?_, ?_, ?_⟩
    · refine (messages.sorted.filter _).imp_of_mem fun first second less => ?_
      have zero := (mem_unseen.mp first).2
      have zero' := (mem_unseen.mp second).2
      simpa [Table.place, Prod.Lex.toLex_lt_toLex, Messages.bySeen, zero, zero'] using less
    · refine (messages.sorted.filter _).imp_of_mem fun first second less => ?_
      simp only [seen, List.mem_filter, decide_eq_true_eq] at first second
      have one := (binary _ first.1).resolve_left first.2
      have one' := (binary _ second.1).resolve_left second.2
      simpa [Table.place, Prod.Lex.toLex_lt_toLex, Messages.bySeen, one, one'] using less
    · intro first present second member
      have zero := (mem_unseen.mp present).2
      simp only [seen, List.mem_filter, decide_eq_true_eq] at member
      have one := (binary _ member.1).resolve_left member.2
      refine Prod.Lex.toLex_lt_toLex.mpr (.inl ?_)
      simp [Messages.bySeen, zero, one]

theorem indexLowerBound_eq_head? (binary : Binary messages) :
    messages.indexLowerBound Messages.bySeen 0 =
      (unseen messages.rows ++ seen messages.rows).head? := by
  rw [Table.indexLowerBound, (listed_unseen binary).leastWhere]
  cases unseen messages.rows ++ seen messages.rows with
  | nil => rfl
  | cons first rest => simp

/-- The first unseen row stands after seen ones only. -/
theorem split_of_unseen (first : unseen rows = itr :: rest) :
    ∃ front back, rows = front ++ itr :: back ∧ (∀ row ∈ front, row.seen ≠ 0) ∧ itr.seen = 0 ∧
      unseen back = rest := by
  simpa [unseen, List.filter_eq_cons_iff] using first

theorem unseen_split (skipped : ∀ row ∈ front, row.seen ≠ 0) (marked : row.seen ≠ 0) :
    unseen (front ++ row :: back) = unseen back := by
  have none : front.filter (fun row => row.seen = 0) = [] := by simpa using skipped
  simp [unseen, none, marked]

/-- Seen rows are passed over. -/
theorem markFirst_append (skipped : ∀ row ∈ front, row.seen ≠ 0) :
    markFirst n (front ++ back) = front ++ markFirst n back := by
  induction front with
  | nil => rfl
  | cons row rest ih =>
    have later := ih fun other member => skipped other (List.mem_cons_of_mem _ member)
    cases n with
    | zero => simp
    | succ n =>
      have apart := skipped row List.mem_cons_self
      simp [markFirst, apart, later]

theorem markFirst_of_seen (marked : unseen rows = []) : markFirst n rows = rows := by
  have skipped : ∀ row ∈ rows, row.seen ≠ 0 := by simpa [unseen] using marked
  have walked : markFirst n (rows ++ []) = rows ++ markFirst n [] := markFirst_append skipped
  simpa [markFirst] using walked

/-- Marking one more row. -/
theorem markFirst_succ (skipped : ∀ row ∈ front, row.seen ≠ 0) (first : itr.seen = 0) :
    markFirst (n + 1) (front ++ itr :: back) = markFirst n (front ++ itr.setSeen :: back) := by
  have marked : ∀ row ∈ [itr.setSeen], row.seen ≠ 0 := by simp
  rw [markFirst_append skipped, markFirst_append skipped,
    ← List.singleton_append (l := back), ← List.singleton_append (l := back), markFirst_append marked]
  simp [markFirst, first]

theorem unseen_markFirst : unseen (markFirst n rows) = (unseen rows).drop n := by
  induction rows generalizing n with
  | nil => simp [unseen]
  | cons row rest ih =>
    cases n with
    | zero => simp
    | succ n =>
      by_cases zero : row.seen = 0
      · have tail := @ih n
        simp only [unseen] at tail ⊢
        simp [markFirst, zero, tail]
      · have tail := @ih (n + 1)
        simp only [unseen] at tail ⊢
        simp [markFirst, zero, tail]

theorem setSeen_mem_markFirst (first : row ∈ (unseen rows).take n) :
    row.setSeen ∈ markFirst n rows := by
  induction rows generalizing n with
  | nil => simp [unseen] at first
  | cons other rest ih =>
    cases n with
    | zero => simp at first
    | succ n =>
      by_cases zero : other.seen = 0
      · rw [unseen, List.filter_cons_of_pos (by simpa using zero), List.take_succ_cons,
          List.mem_cons] at first
        rw [markFirst, if_pos zero, List.mem_cons]
        rcases first with rfl | later
        · exact .inl rfl
        · exact .inr (ih later)
      · rw [unseen, List.filter_cons_of_neg (by simpa using zero)] at first
        rw [markFirst, if_neg zero]
        exact List.mem_cons_of_mem _ (ih first)

/-- A row after marking is an old one or one of the first unseen ones, marked. -/
theorem mem_markFirst (member : row ∈ markFirst n rows) :
    row ∈ rows ∨ ∃ old ∈ (unseen rows).take n, row = old.setSeen := by
  induction rows generalizing n with
  | nil => simp at member
  | cons other rest ih =>
    cases n with
    | zero => exact .inl (by simpa using member)
    | succ n =>
      by_cases zero : other.seen = 0
      · rw [markFirst, if_pos zero, List.mem_cons] at member
        rw [unseen, List.filter_cons_of_pos (by simpa using zero), List.take_succ_cons]
        rcases member with rfl | later
        · exact .inr ⟨other, List.mem_cons_self, rfl⟩
        · rcases ih later with old | ⟨old, first, rfl⟩
          · exact .inl (List.mem_cons_of_mem _ old)
          · exact .inr ⟨old, List.mem_cons_of_mem _ first, rfl⟩
      · rw [markFirst, if_neg zero, List.mem_cons] at member
        rw [unseen, List.filter_cons_of_neg (by simpa using zero)]
        rcases member with rfl | later
        · exact .inl List.mem_cons_self
        · rcases ih later with old | first
          · exact .inl (List.mem_cons_of_mem _ old)
          · exact .inr first

/-- One round of the walk at a row of the table. -/
theorem seenmsgLoop_succ (present : itr ∈ messages.rows) :
    seenmsgLoop (left + 1) (some itr) messages =
      seenmsgLoop left (messages.indexNext Messages.bySeen itr) (messages.put itr.setSeen) := by
  have held : messages.find? itr.id = some itr := Table.find?_self present
  have modified : modify messages (some itr) Messages.setSeen = .ok (messages.put itr.setSeen) := by
    refine modify_some.mpr ⟨rfl, ?_, rfl⟩
    rw [Messages.primaryKey_eq, Messages.setSeen_id, held]
    rfl
  simp only [seenmsgLoop, held, modified]
  rfl

/-- Among seen rows the walk changes nothing. -/
private theorem seenmsgLoop_seen (left : Nat) (marked : ∀ row ∈ messages.rows, row.seen = 1) (itr : Option Messages)
    (present : ∀ row, itr = some row → row ∈ messages.rows) :
    ∃ rest, seenmsgLoop left itr messages = .ok (rest, messages) := by
  induction left generalizing itr with
  | zero => cases itr <;> exact ⟨_, rfl⟩
  | succ left ih =>
    cases itr with
    | none => exact ⟨_, rfl⟩
    | some row =>
      have member := present row rfl
      have same : row.setSeen = row := by
        have flag := marked row member
        cases row
        simpa [Messages.setSeen] using flag.symm
      rw [seenmsgLoop_succ member, same, Table.put_self member]
      exact ih _ fun next found => (Table.leastWhere_eq_some.mp found).1

/-- The walk from the first unseen row marks the unseen rows in the order of their ids, as far as the
rounds reach, and leaves the rest as it is. -/
theorem seenmsgLoop_mark (left : Nat) (binary : Binary messages)
    (first : unseen messages.rows = itr :: rest) :
    ∃ remaining result, seenmsgLoop left (some itr) messages = .ok (remaining, result) ∧
      result.rows = markFirst left messages.rows ∧
      (remaining ≠ 0 → (unseen messages.rows).length ≤ left) := by
  induction left generalizing messages itr rest with
  | zero => exact ⟨0, messages, rfl, markFirst_zero.symm, fun nonzero => absurd rfl nonzero⟩
  | succ left ih =>
    obtain ⟨front, back, split, skipped, zero, later⟩ := split_of_unseen first
    have member : itr ∈ messages.rows := by simp [split]
    have written : (messages.put itr.setSeen).rows = front ++ itr.setSeen :: back :=
      Table.put_rows split rfl
    have binary' : Binary (messages.put itr.setSeen) := by
      intro row present
      rcases Table.mem_put.mp present with rfl | ⟨old, _⟩
      · exact .inr rfl
      · exact binary row old
    have remaining : unseen (messages.put itr.setSeen).rows = rest := by
      rw [written, unseen_split skipped (by simp), later]
    have listed := listed_unseen binary
    rw [first, List.cons_append, ← List.nil_append (itr :: _)] at listed
    have next := listed.indexNext
    rw [seenmsgLoop_succ member, next, split, markFirst_succ skipped zero, ← written, ← split, first]
    cases rest with
    | nil =>
      -- the last unseen row: from here on the walk is among seen rows
      have marked : ∀ row ∈ (messages.put itr.setSeen).rows, row.seen = 1 := by
        intro row present
        refine (binary' row present).resolve_left fun unmarked => ?_
        have found : row ∈ unseen (messages.put itr.setSeen).rows := mem_unseen.mpr ⟨present, unmarked⟩
        rw [remaining] at found
        cases found
      have inside (row : Messages) (head : ([] ++ seen messages.rows).head? = some row) :
          row ∈ (messages.put itr.setSeen).rows := by
        have here : row ∈ seen messages.rows := List.mem_of_head? head
        simp only [seen, List.mem_filter, decide_eq_true_eq] at here
        refine Table.mem_put.mpr (.inr ⟨here.1, fun same => here.2 ?_⟩)
        rw [messages.key_injective here.1 member same, zero]
      obtain ⟨left', walked⟩ := seenmsgLoop_seen left marked _ inside
      exact ⟨left', _, walked, (markFirst_of_seen remaining).symm, fun _ => by simp⟩
    | cons second others =>
      obtain ⟨left', result, walked, rows, room⟩ := ih binary' remaining
      refine ⟨left', result, walked, rows, fun nonzero => ?_⟩
      have short := room nonzero
      rw [remaining] at short
      simpa using short

/-- Marking a scope as seen marks its first 1000 unseen rows. It prints 1 only if it has found an unseen
row, and always if it may have left one. -/
theorem seenmsg_eq (binary : Binary (state.messages scope)) :
    ∃ printed result, seenmsg scope state = .ok (state.setMessages scope result, printed) ∧
      result.rows = markFirst 1000 (state.messages scope).rows ∧
      (printed = [.int 1] → unseen (state.messages scope).rows ≠ []) ∧
      (printed ≠ [.int 1] → (unseen (state.messages scope).rows).length ≤ 1000) := by
  have unchanged : state.setMessages scope (state.messages scope) = state := by
    simp [State.setMessages]
  have lower := indexLowerBound_eq_head? binary
  cases first : unseen (state.messages scope).rows with
  | nil =>
    have same := (markFirst_of_seen (n := 1000) first).symm
    rw [first, List.nil_append] at lower
    cases head : (seen (state.messages scope).rows).head? with
    | none =>
      refine ⟨[.int 0], state.messages scope, ?_, same, by simp, by simp⟩
      simp only [seenmsg, lower, head, unchanged]
      rfl
    | some itr =>
      have member := List.mem_of_head? head
      simp only [seen, List.mem_filter, decide_eq_true_eq] at member
      have one := (binary itr member.1).resolve_left member.2
      refine ⟨[.int 0], state.messages scope, ?_, same, by simp, by simp⟩
      simp only [seenmsg, lower, head, one, unchanged]
      rfl
  | cons itr rest =>
    obtain ⟨remaining, result, walked, rows, room⟩ := seenmsgLoop_mark 1000 binary first
    have zero : itr.seen = 0 := (mem_unseen.mp (first ▸ List.mem_cons_self)).2
    have apart : itr.seen ≠ 1 := by simp [zero]
    rw [first] at lower room
    refine ⟨if remaining = 0 then [.int 1] else [], result, ?_, rows, by simp, fun quiet => ?_⟩
    · simp only [seenmsg, lower, List.cons_append, List.head?_cons, if_neg apart, walked]
      rfl
    · refine room fun none => quiet ?_
      rw [if_pos none]

end LocalChain.K2ultra
