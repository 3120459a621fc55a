import LocalChain.K2ultra.Commits
import LocalChain.K2ultra.Conversation
import Mathlib.Logic.Equiv.Basic

namespace LocalChain.K2ultra

open LocalChain.Graph LocalChain.Inery LocalChain.Inery.MultiIndex LocalChain.Store

variable {host : Host} {txs : List Tx} {tx tx' : Tx} {context : Context} {state next : State}
  {a b c d x : Name} {key key' : ByteString} {s : UInt64}

/-- A row with its conversation id renamed. -/
def Requests.renamed (ids : Equiv.Perm UInt64) (row : Requests) : Requests :=
  { row with scope := ids row.scope }

/-- Two states that differ in the places of two ids alone, neither of which was in use before. -/
structure Exchanged (first second : UInt64) (state one other : State) : Prop where
  unused : ∀ x, state.book x first = none ∧ state.book x second = none
  book : ∀ x s, other.book x (Equiv.swap first second s) =
    (one.book x s).map (Requests.renamed (Equiv.swap first second))
  adresses : other.adresses = one.adresses
  messages : other.messages = one.messages
  profiles : other.profiles = one.profiles

/-- A request between other accounts does not change whether two accounts can be asked. -/
theorem Opened.holds_iff (effect : Opened context c d key s state next)
    (apart : ¬ Links.SamePair a b c d) : next.holds a b ↔ state.holds a b := by
  simp only [State.holds_iff, Book.links_eq_some, State.links]
  constructor
  · rintro ⟨t, row, held, names⟩
    refine ⟨t, row, ?_, names⟩
    rw [effect.book] at held
    rcases Book.put_eq_some.mp held with ⟨rfl, _, rfl⟩ | ⟨_, held⟩
    · exact absurd (.inl ⟨rfl, names.symm⟩) apart
    · rcases Book.put_eq_some.mp held with ⟨rfl, _, rfl⟩ | ⟨_, old⟩
      · exact absurd (.inr ⟨rfl, names.symm⟩) apart
      · exact old
  · rintro ⟨t, row, held, names⟩
    refine ⟨t, row, ?_, names⟩
    rw [effect.book]
    refine Book.put_old ?_ (Book.put_old effect.freeTo held)
    simp [Book.put, effect.distinct, effect.freeFrom]

theorem Opened.askable_iff {auth : List Name} (effect : Opened context c d key s state next)
    (apart : ¬ Links.SamePair a b c d) : Askable auth a b next ↔ Askable auth a b state := by
  have asked := effect.holds_iff apart
  have asking := effect.holds_iff fun same => apart same.flip
  constructor
  · rintro ⟨authorised, registered, known, distinct, unasked, unasking⟩
    rw [effect.profiles] at registered known
    exact ⟨authorised, registered, known, distinct, fun h => unasked (asking.mpr h),
      fun h => unasking (asked.mpr h)⟩
  · rintro ⟨authorised, registered, known, distinct, unasked, unasking⟩
    refine ⟨authorised, ?_, ?_, distinct, fun h => unasked (asking.mp h),
      fun h => unasking (asked.mp h)⟩
    · rwa [effect.profiles]
    · rwa [effect.profiles]

theorem opened_of_request (committed : step host state tx = some next)
    (called : tx.action = .sendrequest a b key) :
    ∃ s, Opened (tx.context host) a b key s state next :=
  (step_effect committed).book.opened_of called

/-- With two ids left there is one to give out, and after that one more. -/
private theorem room_granted
    (room : (nextPrimaryKey unsetNextPrimaryKey state.adresses).toNat + 2 ≤ noAvailablePrimaryKey.toNat) :
    availablePrimaryKey unsetNextPrimaryKey state.adresses =
        .ok (nextPrimaryKey unsetNextPrimaryKey state.adresses) ∧
      nextPrimaryKey unsetNextPrimaryKey state.adresses + 1 < noAvailablePrimaryKey := by
  have limit : noAvailablePrimaryKey.toNat = UInt64.size - 2 := rfl
  unfold UInt64.size at limit
  refine ⟨availablePrimaryKey_eq_ok.mpr ⟨rfl, ?_⟩, ?_⟩ <;> rw [UInt64.lt_iff_toNat_lt]
  · omega
  · rw [UInt64.toNat_add]
    simp only [UInt64.toNat_one]
    omega

theorem Opened.next_granted (effect : Opened context a b key s state next)
    (below : s + 1 < noAvailablePrimaryKey) :
    availablePrimaryKey unsetNextPrimaryKey next.adresses = .ok (s + 1) := by
  rw [effect.adresses]
  exact availablePrimaryKey_eq_ok.mpr ⟨nextPrimaryKey_put effect.granted, below⟩

/-- Whether a request commits does not depend on one between other accounts before it. -/
theorem request_isSome_after (exclusive : state.Exclusive)
    (room : (nextPrimaryKey unsetNextPrimaryKey state.adresses).toNat + 2 ≤ noAvailablePrimaryKey.toNat)
    (called : tx.action = .sendrequest a b key) (called' : tx'.action = .sendrequest c d key')
    (apart : ¬ Links.SamePair a b c d) :
    (step host (exec (step host) state tx') tx).isSome ↔ (step host state tx).isSome := by
  obtain ⟨granted, below⟩ := room_granted room
  cases outcome : step host state tx' with
  | none => rw [exec_of_aborted outcome]
  | some next =>
    obtain ⟨s, effect⟩ := opened_of_request outcome called'
    have exclusive' : next.Exclusive :=
      exclusive.step outcome (by simp [called', Action.name, reusing])
    rw [effect.next_key] at below
    rw [exec_of_committed outcome, sendrequest_isSome exclusive called,
      sendrequest_isSome exclusive' called, effect.askable_iff apart]
    exact and_congr_right fun _ => iff_of_true ⟨_, effect.next_granted below⟩ ⟨_, granted⟩

/-- Two requests made in either order leave the same rows with the ids exchanged. -/
theorem Opened.exchange {context' : Context} {middle middle' last last' : State} {t : UInt64}
    (first : Opened context a b key s state middle) (second : Opened context' c d key' t middle last)
    (first' : Opened context' c d key' s state middle') (second' : Opened context a b key t middle' last')
    (unused : ∀ x, state.book x s = none ∧ state.book x t = none) (distinct : s ≠ t) :
    Exchanged s t state last last' where
  unused := unused
  book x u := by
    by_cases one : u = s
    · subst one
      rw [Equiv.swap_apply_left, second'.book_new, second.book_old x distinct, first.book_new,
        first'.book_old x distinct.symm, (unused x).1, (unused x).2]
      split
      · simp [Requests.renamed, Requests.sent]
      · split <;> simp [Requests.renamed, Requests.received]
    · by_cases two : u = t
      · subst two
        rw [Equiv.swap_apply_right, second'.book_old x distinct, first'.book_new, second.book_new,
          first.book_old x distinct.symm, (unused x).1, (unused x).2]
        split
        · simp [Requests.renamed, Requests.sent]
        · split <;> simp [Requests.renamed, Requests.received]
      · rw [Equiv.swap_apply_of_ne_of_ne one two, second'.book_old x two, first'.book_old x one,
          second.book_old x two, first.book_old x one]
        cases held : state.book x u with
        | none => rfl
        | some row =>
          obtain rfl := State.book_scope held
          simp [Requests.renamed, Equiv.swap_apply_of_ne_of_ne one two]
  adresses := by rw [second'.adresses, first'.adresses, second.adresses, first.adresses]
  messages := by rw [second'.messages, first'.messages, second.messages, first.messages]
  profiles := by rw [second'.profiles, first'.profiles, second.profiles, first.profiles]

/-- Both rows of a conversation are stored under its id, each naming the other account. -/
structure Joined (state : State) (pair : Name × Name) (s : UInt64) : Prop where
  asking : state.links pair.1 s = some pair.2
  asked : state.links pair.2 s = some pair.1

theorem Opened.joined (effect : Opened context a b key s state next) : Joined next (a, b) s where
  asking := by
    have held : next.book a s = some ((Requests.fresh (context.heap 1)).sent s b) := by
      rw [effect.book_new, if_pos rfl]
    exact State.links_of_book held
  asked := by
    have held : next.book b s = some ((Requests.fresh (context.heap 0)).received s a key) := by
      rw [effect.book_new, if_neg effect.distinct.symm, if_pos rfl]
    exact State.links_of_book held

/-- A request under another id leaves them. -/
theorem Opened.still_joined {t : UInt64} {pair : Name × Name} (effect : Opened context c d key t state next)
    (joined : Joined state pair s) (apart : s ≠ t) : Joined next pair s := by
  have kept (x : Name) : next.links x s = state.links x s := by
    rw [State.links, State.links, Book.links, effect.book_old x apart, Book.links]
  exact ⟨(kept pair.1).trans joined.asking, (kept pair.2).trans joined.asked⟩

/-- The two orders in which two requests can be made. -/
structure Commute (host : Host) (state : State) (tx tx' : Tx) (pair pair' : Name × Name) : Prop where
  first : (step host (exec (step host) state tx') tx).isSome ↔ (step host state tx).isSome
  second : (step host (exec (step host) state tx) tx').isSome ↔ (step host state tx').isSome
  both : (step host state tx).isSome → (step host state tx').isSome → ∃ s t, s ≠ t ∧
    Exchanged s t state (run (step host) state [tx, tx']) (run (step host) state [tx', tx]) ∧
      Joined (run (step host) state [tx, tx']) pair s ∧ Joined (run (step host) state [tx, tx']) pair' t ∧
      Joined (run (step host) state [tx', tx]) pair' s ∧ Joined (run (step host) state [tx', tx]) pair t ∧
      (journal (step host) state [tx, tx']).filterMap opening? =
        [⟨pair.1, pair.2, s⟩, ⟨pair'.1, pair'.2, t⟩] ∧
      (journal (step host) state [tx', tx]).filterMap opening? =
        [⟨pair'.1, pair'.2, s⟩, ⟨pair.1, pair.2, t⟩]
  otherwise : ¬ ((step host state tx).isSome ∧ (step host state tx').isSome) →
    run (step host) state [tx', tx] = run (step host) state [tx, tx']

/-- A second request takes the id after that of the first. -/
private theorem second_opened {context' : Context} {middle last : State} {t : UInt64}
    (first : Opened context a b key s state middle)
    (below : nextPrimaryKey unsetNextPrimaryKey state.adresses + 1 < noAvailablePrimaryKey)
    (second : Opened context' c d key' t middle last) :
    s = nextPrimaryKey unsetNextPrimaryKey state.adresses ∧
      t = nextPrimaryKey unsetNextPrimaryKey state.adresses + 1 := by
  rw [first.next_key] at below ⊢
  exact ⟨rfl, Except.ok.inj (second.granted.symm.trans (first.next_granted below))⟩

/-- Both orders give out the same two ids. -/
private theorem requests_exchange {middle middle' last last' : State} (exclusive : state.Exclusive)
    (room : (nextPrimaryKey unsetNextPrimaryKey state.adresses).toNat + 2 ≤ noAvailablePrimaryKey.toNat)
    (called : tx.action = .sendrequest a b key) (called' : tx'.action = .sendrequest c d key')
    (committed : step host state tx = some middle) (ends : step host middle tx' = some last)
    (committed' : step host state tx' = some middle') (ends' : step host middle' tx = some last') :
    ∃ s t, s ≠ t ∧ Exchanged s t state last last' ∧
      Joined last (a, b) s ∧ Joined last (c, d) t ∧ Joined last' (c, d) s ∧ Joined last' (a, b) t ∧
      opening? ⟨state, tx, middle⟩ = some ⟨a, b, s⟩ ∧ opening? ⟨middle, tx', last⟩ = some ⟨c, d, t⟩ ∧
      opening? ⟨state, tx', middle'⟩ = some ⟨c, d, s⟩ ∧
      opening? ⟨middle', tx, last'⟩ = some ⟨a, b, t⟩ := by
  obtain ⟨_, below⟩ := room_granted room
  obtain ⟨_, first⟩ := opened_of_request committed called
  obtain ⟨_, second⟩ := opened_of_request ends called'
  obtain ⟨_, first'⟩ := opened_of_request committed' called'
  obtain ⟨_, second'⟩ := opened_of_request ends' called
  obtain ⟨rfl, rfl⟩ := second_opened first below second
  obtain ⟨rfl, rfl⟩ := second_opened first' below second'
  have distinct : nextPrimaryKey unsetNextPrimaryKey state.adresses ≠
      nextPrimaryKey unsetNextPrimaryKey state.adresses + 1 :=
    fun same => second.fresh (same ▸ first.given)
  have exclusive' : middle.Exclusive :=
    exclusive.step committed (by simp [called, Action.name, reusing])
  refine ⟨_, _, distinct, first.exchange second first' second' (fun x => ⟨exclusive.free first.granted x, ?_⟩)
    distinct, second.still_joined first.joined distinct, second.joined, second'.still_joined first'.joined distinct,
    second'.joined, opening_of_opened called first, opening_of_opened called' second,
    opening_of_opened called' first', opening_of_opened called second'⟩
  rw [← first.book_old x distinct.symm]
  exact exclusive'.free second.granted x

/-- Requests between different pairs of accounts do not depend on their order, but for the ids that
they get. -/
theorem requests_commute (without : Without reusing txs)
    (room : (nextPrimaryKey unsetNextPrimaryKey (reached host txs).adresses).toNat + 2 ≤
      noAvailablePrimaryKey.toNat)
    (called : tx.action = .sendrequest a b key) (called' : tx'.action = .sendrequest c d key')
    (apart : ¬ Links.SamePair a b c d) :
    Commute host (reached host txs) tx tx' (a, b) (c, d) := by
  have exclusive : (reached host txs).Exclusive := reached_exclusive without
  have first : (step host (exec (step host) (reached host txs) tx') tx).isSome ↔
      (step host (reached host txs) tx).isSome :=
    request_isSome_after exclusive room called called' apart
  have second : (step host (exec (step host) (reached host txs) tx) tx').isSome ↔
      (step host (reached host txs) tx').isSome :=
    request_isSome_after exclusive room called' called fun same => apart same.symm
  refine ⟨first, second, fun commits commits' => ?_, fun missing => ?_⟩
  · obtain ⟨middle, committed⟩ := Option.isSome_iff_exists.mp commits
    obtain ⟨middle', committed'⟩ := Option.isSome_iff_exists.mp commits'
    rw [exec_of_committed committed'] at first
    rw [exec_of_committed committed] at second
    obtain ⟨last, ends⟩ := Option.isSome_iff_exists.mp (second.mpr commits')
    obtain ⟨last', ends'⟩ := Option.isSome_iff_exists.mp (first.mpr commits)
    obtain ⟨s, t, distinct, exchanged, mine, theirs, theirs', mine', opens, opens', opens₁, opens₂⟩ :=
      requests_exchange exclusive room called called' committed ends committed' ends'
    have ran : run (step host) (reached host txs) [tx, tx'] = last := by
      rw [run_cons, exec_of_committed committed, run_cons, exec_of_committed ends, run_nil]
    have ran' : run (step host) (reached host txs) [tx', tx] = last' := by
      rw [run_cons, exec_of_committed committed', run_cons, exec_of_committed ends', run_nil]
    rw [ran, ran']
    refine ⟨s, t, distinct, exchanged, mine, theirs, theirs', mine', ?_, ?_⟩
    · simp [journal, committed, ends, opens, opens']
    · simp [journal, committed', ends', opens₁, opens₂]
  · cases outcome : step host (reached host txs) tx with
    | none =>
      rw [outcome] at first
      have aborted := Option.not_isSome_iff_eq_none.mp (first.not.mpr (by simp))
      simp [exec_of_aborted outcome, exec_of_aborted aborted]
    | some middle =>
      have outcome' : step host (reached host txs) tx' = none := by
        simpa [outcome] using missing
      rw [outcome'] at second
      have aborted := Option.not_isSome_iff_eq_none.mp (second.not.mpr (by simp))
      simp [exec_of_aborted outcome', exec_of_aborted aborted]

/-- Alice has asked Bob, and Carol has registered. -/
def joining : List Tx := requested ++ [.signed carol (.reguser carol "" "" "")]

/-- Alice asks Carol and Carol asks Bob: both requests commit, in either order. -/
theorem requested_commute :
    (step chain (reached chain joining) (.signed alice (.sendrequest alice carol "kc"))).isSome ∧
      (step chain (reached chain joining) (.signed carol (.sendrequest carol bob "kd"))).isSome ∧
      Commute chain (reached chain joining) (.signed alice (.sendrequest alice carol "kc"))
        (.signed carol (.sendrequest carol bob "kd")) (alice, carol) (carol, bob) :=
  ⟨by decide +kernel, by decide +kernel,
    requests_commute (by decide) (by decide +kernel) rfl rfl (by unfold Links.SamePair; decide)⟩

end LocalChain.K2ultra
