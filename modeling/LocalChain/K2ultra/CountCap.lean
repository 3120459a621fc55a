import LocalChain.K2ultra.Reading

namespace LocalChain.K2ultra

open LocalChain.Inery LocalChain.Inery.MultiIndex LocalChain.Store

/-! How far `getunseen` counts. -/

/-- The unseen rows of largest id, 1000 of them or all there are, the largest first. -/
def latest (messages : MessagesTable) : List Messages := (unseen messages.rows).reverse.take 1000

def ownCount (sender : Name) (rows : List Messages) : Nat :=
  rows.countP (fun row => row.sender = sender)

/-- The hundredth message of the sender is followed at once by one more of his. -/
def Crowded (sender : Name) (rows : List Messages) : Prop :=
  ∃ front hundredth next back, rows = front ++ hundredth :: next :: back ∧
    ownCount sender front = 99 ∧ hundredth.sender = sender ∧ next.sender = sender

/-- The same for a walk that has counted `cnt` messages before it comes to these. -/
def Overshoots (sender : Name) (cnt : Nat) (rows : List Messages) : Prop :=
  cnt = 100 ∧ (∃ next back, rows = next :: back ∧ next.sender = sender) ∨
    ∃ front hundredth next back, rows = front ++ hundredth :: next :: back ∧
      cnt + ownCount sender front = 99 ∧ hundredth.sender = sender ∧ next.sender = sender

/-- What `getunseen` prints after the walk: the row that the walk has stopped at counts too, unless the
iterations are used up. -/
def stopped (sender : Name) (walk : Nat × Nat × Messages) : Nat :=
  if walk.2.2.sender = sender ∧ 0 < walk.1 then walk.2.1 + 1 else walk.2.1

variable {rows before : List Messages} {row itr : Messages} {left cnt : Nat} {state : State}
  {scope : UInt64} {sender : Name}

@[simp] theorem ownCount_nil : ownCount sender [] = 0 := rfl

theorem ownCount_cons :
    ownCount sender (row :: rows) = ownCount sender rows + if row.sender = sender then 1 else 0 := by
  simp [ownCount, List.countP_cons]

theorem overshoots_nil : ¬ Overshoots sender cnt [] := by
  rintro (⟨_, _, _, empty, _⟩ | ⟨_, _, _, _, empty, _⟩) <;> simp at empty

theorem overshoots_zero : Overshoots sender 0 rows ↔ Crowded sender rows := by
  simp [Overshoots, Crowded]

/-- Short of the cap the walk takes one more row. -/
theorem overshoots_cons (room : cnt < 100) :
    Overshoots sender cnt (row :: rows) ↔
      Overshoots sender (cnt + if row.sender = sender then 1 else 0) rows := by
  constructor
  · rintro (⟨full, _⟩ | ⟨front, hundredth, next, back, split, count, own, own'⟩)
    · omega
    · cases front with
      | nil =>
        obtain ⟨rfl, rfl⟩ := List.cons.inj split
        refine .inl ⟨?_, next, back, rfl, own'⟩
        rw [ownCount_nil] at count
        rw [if_pos own]
        omega
      | cons first front =>
        obtain ⟨rfl, rfl⟩ := List.cons.inj split
        refine .inr ⟨front, hundredth, next, back, rfl, ?_, own, own'⟩
        rw [ownCount_cons] at count
        omega
  · rintro (⟨full, next, back, rfl, own'⟩ | ⟨front, hundredth, next, back, rfl, count, own, own'⟩)
    · have own : row.sender = sender := by
        by_contra foreign
        rw [if_neg foreign] at full
        omega
      rw [if_pos own] at full
      exact .inr ⟨[], row, next, back, rfl, by simp; omega, own, own'⟩
    · refine .inr ⟨row :: front, hundredth, next, back, rfl, ?_, own, own'⟩
      rw [ownCount_cons]
      omega

/-- At the cap only the row at hand matters. -/
theorem overshoots_full : Overshoots sender 100 (row :: rows) ↔ row.sender = sender := by
  constructor
  · rintro (⟨_, next, back, split, own⟩ | ⟨_, _, _, _, _, count, _⟩)
    · obtain ⟨rfl, _⟩ := List.cons.inj split
      exact own
    · omega
  · intro own
    exact .inl ⟨rfl, row, rows, rfl, own⟩

/-- The walk prints the capped count unless it passes the cap. -/
theorem stopped_iff (cap : cnt ≤ 100) :
    stopped sender (tally sender left cnt itr before) =
        min 100 (cnt + ownCount sender ((itr :: before).take left)) ↔
      ¬ Overshoots sender cnt ((itr :: before).take left) := by
  induction before generalizing left cnt itr with
  | nil =>
    cases left with
    | zero => simp [tally, stopped, overshoots_nil, cap]
    | succ left =>
      have walked : tally sender (left + 1) cnt itr [] = (left + 1, cnt, itr) := rfl
      rw [walked, List.take_succ_cons, List.take_nil]
      by_cases room : cnt < 100
      · rw [overshoots_cons room, ownCount_cons]
        by_cases own : itr.sender = sender <;> simp [stopped, own, overshoots_nil] <;> omega
      · obtain rfl : cnt = 100 := by omega
        rw [overshoots_full]
        by_cases own : itr.sender = sender <;> simp [stopped, own]
  | cons previous before ih =>
    cases left with
    | zero => simp [tally, stopped, overshoots_nil, cap]
    | succ left =>
      by_cases room : cnt < 100
      · have next : (if itr.sender = sender then cnt + 1 else cnt) =
            cnt + if itr.sender = sender then 1 else 0 := by
          split <;> rfl
        have cap' : (cnt + if itr.sender = sender then 1 else 0) ≤ 100 := by
          split <;> omega
        rw [tally, if_pos room, next, List.take_succ_cons, overshoots_cons room, ownCount_cons,
          ← ih cap', Nat.add_assoc, Nat.add_comm (ownCount _ _)]
      · obtain rfl : cnt = 100 := by omega
        rw [tally, if_neg room, List.take_succ_cons, overshoots_full]
        by_cases own : itr.sender = sender <;> simp [stopped, own]

theorem counted_iff :
    counted sender rows = min 100 (ownCount sender (rows.take 1000)) ↔ ¬ Crowded sender (rows.take 1000) := by
  cases rows with
  | nil => simp [counted, Crowded]
  | cons last before =>
    have walked : counted sender (last :: before) = stopped sender (tally sender 1000 0 last before) := rfl
    rw [walked, ← overshoots_zero, ← stopped_iff (Nat.zero_le _), Nat.zero_add]

theorem printed_inj {m n : Nat} :
    (.ok (state, [.int m]) : Except Abort (State × List Printed)) = .ok (state, [.int n]) ↔ m = n := by
  simp only [Except.ok.injEq, Prod.mk.injEq, true_and, List.cons.injEq, and_true, Printed.int.injEq,
    Int.natCast_inj]

/-- Where every `seen` is 0 or 1, `getunseen` commits and changes nothing. It prints how many of the latest
unseen messages are the sender's, but 100 at most, exactly if his hundredth one among them is not followed
at once by one more of his. -/
theorem getunseen_capped_iff (binary : Binary (state.messages scope)) :
    (∃ printed, getunseen scope sender state = .ok (state, printed)) ∧
      (getunseen scope sender state =
          .ok (state, [.int (min 100 (ownCount sender (latest (state.messages scope))) : Nat)]) ↔
        ¬ Crowded sender (latest (state.messages scope))) := by
  have counts : getunseen scope sender state = .ok (state, [.int _]) := getunseen_eq binary
  refine ⟨⟨_, counts⟩, ?_⟩
  rw [latest, ← counted_iff, counts, printed_inj]

/-- Three of the four messages that nobody has seen are Bob's. -/
theorem resumed_capped :
    getunseen 0 bob (reached chain resumed) = .ok (reached chain resumed,
        [.int (min 100 (ownCount bob (latest ((reached chain resumed).messages 0))) : Nat)]) ∧
      ownCount bob (latest ((reached chain resumed).messages 0)) = 3 := by
  refine ⟨(getunseen_capped_iff (reached_binary chain resumed 0)).2.mpr ?_, by decide +kernel⟩
  rintro ⟨front, _, _, _, split, count, _⟩
  have few := congrArg List.length split
  have short : (latest ((reached chain resumed).messages 0)).length = 4 := by decide +kernel
  have own : ownCount bob front ≤ front.length := List.countP_le_length
  rw [short, List.length_append, List.length_cons, List.length_cons] at few
  omega

/-- Alice's message number `n + 1`, as yet unseen. -/
def note (n : Nat) : Messages := (Messages.fresh .zeroed).posted (.ofNat (n + 1)) ⟨0⟩ alice "" 0 0

/-- She has sent 101 messages in a row. -/
def flood : MessagesTable := ⟨(List.range 101).map note, by decide +kernel⟩

def flooded : State := State.initial.setMessages 0 flood

/-- They are counted as 101. -/
theorem flooded_not_capped :
    Binary (flooded.messages 0) ∧
      getunseen 0 alice flooded ≠
        .ok (flooded, [.int (min 100 (ownCount alice (latest (flooded.messages 0))) : Nat)]) := by
  have held : flooded.messages 0 = flood := by
    rw [flooded, State.setMessages_messages, if_pos rfl]
  have binary : Binary flood := by
    intro row present
    obtain ⟨_, _, rfl⟩ := List.mem_map.mp present
    exact .inl rfl
  refine ⟨held ▸ binary, ?_⟩
  have many : counted alice (unseen flood.rows).reverse = 101 := by decide +kernel
  rw [getunseen_eq (held.symm ▸ binary), held, many, ne_eq, printed_inj]
  omega

end LocalChain.K2ultra
