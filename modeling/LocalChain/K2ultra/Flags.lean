import LocalChain.K2ultra.Run

namespace LocalChain.K2ultra

open LocalChain.Inery LocalChain.Store

variable {host : Host} {txs : List Tx} {tx : Tx} {action : Action} {state next : State}
  {book : Book} {owner contact from' : Name} {row mine theirs : Requests} {key : ByteString}

/-- The combinations of flags that make sense: a pending request is no contact, and who is blocked is
neither a contact nor a favourite. -/
structure Requests.Legal (row : Requests) : Prop where
  pending : row.pending = true → row.cntct = false
  blocked : row.blocked = true → row.cntct = false ∧ row.favorite = false

def Book.Legal (book : Book) : Prop := ∀ x s row, book x s = some row → row.Legal

def State.Legal (state : State) : Prop := ∀ x : Name, ∀ row ∈ (state.requests x.value).rows, row.Legal

/-- The steps that keep the flags legal: no acceptance touches a blocked row, no pending row is
unblocked, and no blocked row becomes a favourite. -/
def FlagsKept (state : State) : Action → Bool
  | .resprequest owner from' _ true =>
    ((state.requests owner.value).indexFind Requests.byContact from'.value).all fun mine =>
      !mine.blocked && (state.book from' mine.scope).all fun theirs => !theirs.blocked
  | .blockcontact owner contact false =>
    ((state.requests owner.value).indexFind Requests.byContact contact.value).all fun mine =>
      !mine.pending
  | .favcontact owner contact true =>
    ((state.requests owner.value).indexFind Requests.byContact contact.value).all fun mine =>
      !mine.blocked
  | _ => true

theorem State.legal_iff : state.Legal ↔ state.book.Legal := by
  constructor
  · intro legal x s row held
    exact legal x row (Table.find?_eq_some.mp held).1
  · intro legal x row present
    exact legal x row.scope row (State.mem_rows.mp present)

theorem Book.Legal.sub {smaller : Book} (legal : book.Legal)
    (sub : ∀ x s row, smaller x s = some row → book x s = some row) : smaller.Legal :=
  fun x s row held => legal x s row (sub x s row held)

theorem Book.legal_put (legal : book.Legal) : (book.put owner row).Legal ↔ row.Legal := by
  constructor
  · intro after
    exact after owner row.scope row (by simp [Book.put])
  · intro fits x s other held
    rcases Book.put_eq_some.mp held with ⟨_, _, rfl⟩ | ⟨_, old⟩
    · exact fits
    · exact legal x s other old

theorem Requests.legal_def : row.Legal ↔ (row.pending = true → row.cntct = false) ∧
    (row.blocked = true → row.cntct = false ∧ row.favorite = false) :=
  ⟨fun legal => ⟨legal.pending, legal.blocked⟩, fun legal => ⟨legal.1, legal.2⟩⟩

theorem Requests.legal_answered : (row.answered key).Legal ↔ row.blocked = false := by
  simp [Requests.legal_def, Requests.answered]

theorem Requests.legal_confirmed : row.confirmed.Legal ↔ row.blocked = false := by
  simp [Requests.legal_def, Requests.confirmed]

theorem Requests.legal_received {s : UInt64} (x : Name) (key : ByteString) :
    ((Requests.fresh .zeroed).received s x key).Legal := by
  simp [Requests.legal_def, Requests.received, Requests.fresh, Memory.zeroed]

theorem Requests.legal_sent {s : UInt64} (x : Name) : ((Requests.fresh .zeroed).sent s x).Legal := by
  simp [Requests.legal_def, Requests.sent, Requests.fresh, Memory.zeroed]

theorem Requests.legal_forced {s : UInt64} (x : Name) (key : ByteString) :
    ((Requests.fresh .zeroed).forced s x key).Legal := by
  simp [Requests.legal_def, Requests.forced, Requests.fresh, Memory.zeroed]

/-- Unblocking makes a contact, so the row must not be pending. -/
theorem Requests.legal_setBlocked {status : Bool} :
    (row.setBlocked status).Legal ↔ (status = false → row.pending = false) := by
  cases status <;> simp [Requests.legal_def, Requests.setBlocked]

theorem Requests.legal_setFavorite {status : Bool} (legal : row.Legal) :
    (row.setFavorite status).Legal ↔ (status = true → row.blocked = false) := by
  obtain ⟨pending, blocked⟩ := legal
  cases status with
  | false => simpa [Requests.legal_def, Requests.setFavorite] using
      ⟨pending, fun held => (blocked held).1⟩
  | true => simpa [Requests.legal_def, Requests.setFavorite] using fun _ => pending

private theorem Accepted.legal_iff (legal : state.book.Legal)
    (effect : Accepted owner from' key mine theirs state next) :
    next.book.Legal ↔ mine.blocked = false ∧ theirs.blocked = false := by
  rw [effect.book]
  constructor
  · intro after
    have confirmed := after owner mine.scope mine.confirmed (by simp [Book.put])
    refine ⟨Requests.legal_confirmed.mp confirmed, ?_⟩
    by_cases here : from' = owner ∧ theirs.scope = mine.scope
    · obtain ⟨rfl, _⟩ := here
      obtain rfl := Option.some.inj ((State.book_of_lookup effect.found).1.symm.trans effect.counterpart)
      exact Requests.legal_confirmed.mp confirmed
    · exact Requests.legal_answered.mp (after from' theirs.scope (theirs.answered key)
        (by simp [Book.put, here]))
  · rintro ⟨mineFree, theirsFree⟩
    have answered : (state.book.put from' (theirs.answered key)).Legal :=
      (Book.legal_put legal).mpr (Requests.legal_answered.mpr theirsFree)
    exact (Book.legal_put answered).mpr (Requests.legal_confirmed.mpr mineFree)

private theorem Edited.legal_iff {updater : Requests → Requests} (legal : state.book.Legal)
    (called : action.edit? = some (owner, contact, updater))
    (effect : Edited owner contact updater mine state next) :
    next.book.Legal ↔ FlagsKept state action := by
  have old := legal owner mine.scope mine (State.book_of_lookup effect.found).1
  rw [effect.book, Book.legal_put legal]
  cases action <;> simp only [Action.edit?, reduceCtorEq, Option.some.injEq, Prod.mk.injEq] at called <;>
    obtain ⟨rfl, rfl, rfl⟩ := called
  case blockcontact status =>
    rw [Requests.legal_setBlocked]
    cases status <;> simp [FlagsKept, effect.found]
  case favcontact status =>
    rw [Requests.legal_setFavorite old]
    cases status <;> simp [FlagsKept, effect.found]
  case mutecontact status => cases status <;> exact iff_of_true ⟨old.pending, old.blocked⟩ rfl
  case changealias => exact iff_of_true ⟨old.pending, old.blocked⟩ rfl

/-- From legal flags a committed step leads to legal flags exactly if it keeps them. -/
theorem legal_step (zeroed : tx.heap = fun _ => .zeroed) (legal : state.Legal)
    (committed : step host state tx = some next) : next.Legal ↔ FlagsKept state tx.action := by
  rw [State.legal_iff] at legal ⊢
  cases (step_effect committed).book with
  | opened called effect =>
    have heap : (tx.context host).heap = fun _ => .zeroed := zeroed
    rw [effect.book, heap, called]
    refine iff_of_true ?_ rfl
    exact (Book.legal_put ((Book.legal_put legal).mpr (Requests.legal_received _ _))).mpr
      (Requests.legal_sent _)
  | forced called effect =>
    have heap : (tx.context host).heap = fun _ => .zeroed := zeroed
    rw [effect.book, heap, called]
    refine iff_of_true ?_ rfl
    exact (Book.legal_put ((Book.legal_put legal).mpr (Requests.legal_forced _ _))).mpr
      (Requests.legal_forced _ _)
  | accepted called _ effect =>
    rw [effect.legal_iff legal, called]
    simp [FlagsKept, effect.found, effect.counterpart]
  | edited called _ effect => exact effect.legal_iff legal called
  | dissolved called _ effect =>
    refine iff_of_true (legal.sub fun x s row held => ?_) ?_
    · rw [effect.book] at held
      exact Book.drop_sub (Book.drop_sub held)
    · cases action : tx.action with
      | resprequest owner from' key accept =>
        cases accept with
        | true => rw [action] at called; cases called
        | false => rfl
      | rmcontact => rfl
      | _ => rw [action] at called; cases called
  | deleted called _ book =>
    rw [called]
    exact iff_of_true (legal.sub fun x s row held => Book.clear_sub (book ▸ held)) rfl
  | cascaded called book =>
    rw [called]
    exact iff_of_true (legal.sub fun x s row held => Book.cascade_sub (book ▸ held)) rfl
  | dropped called _ book =>
    rw [called]
    exact iff_of_true (legal.sub fun x s row held => Book.drop_sub (book ▸ held)) rfl
  | untouched quiet book =>
    rw [book]
    refine iff_of_true legal ?_
    cases action : tx.action <;> rw [action] at quiet <;> first | rfl | cases quiet

/-- The runs in which the flags are legal in every state are exactly those of steps that keep them. -/
theorem flags_legal_iff (zeroed : ∀ tx ∈ txs, tx.heap = fun _ => .zeroed) :
    (∀ earlier, earlier <+: txs → (reached host earlier).Legal) ↔
      ∀ entry ∈ history host txs, FlagsKept entry.before entry.tx.action :=
  run_prefixes_iff (fun _ _ present => by cases present)
    fun _ tx member _ legal committed => legal_step (zeroed tx member) legal committed

/-- Bob accepts, marks Alice as a favourite and blocks her. -/
def flagged : List Tx :=
  accepted ++ [.signed bob (.favcontact bob alice true), .signed bob (.blockcontact bob alice true)]

theorem flagged_legal :
    (∃ row ∈ ((reached chain flagged).requests bob.value).rows, row.blocked) ∧
      ∀ earlier, earlier <+: flagged → (reached chain earlier).Legal := by
  refine ⟨by decide +kernel, (flags_legal_iff ?_).mpr (by decide +kernel)⟩
  simp [flagged, accepted, requested, registered, asking, Tx.signed]

/-- Alice unblocks Bob, who has not answered her: her pending row becomes a contact. -/
def unblocked : List Tx := requested ++ [.signed alice (.blockcontact alice bob false)]

theorem unblocked_not_legal :
    (∀ tx ∈ unblocked, tx.heap = fun _ => .zeroed) ∧ ¬ (reached chain unblocked).Legal := by
  constructor
  · simp [unblocked, requested, registered, asking, Tx.signed]
  · intro legal
    have present : ((Requests.fresh .zeroed).sent 0 bob).setBlocked false ∈
        ((reached chain unblocked).requests alice.value).rows := by decide +kernel
    cases (legal alice _ present).pending rfl

end LocalChain.K2ultra
