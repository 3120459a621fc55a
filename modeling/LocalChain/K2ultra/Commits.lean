import LocalChain.K2ultra.ContactGraph

namespace LocalChain.K2ultra

open LocalChain.Graph LocalChain.Inery LocalChain.Inery.MultiIndex LocalChain.Store

/-! When a request and a removal commit. -/

variable {host : Host} {tx : Tx} {context : Context} {state next : State} {a b owner contact : Name}
  {scope : UInt64} {key : ByteString}

/-- The table of an account holds a row for another one. -/
def State.holds (state : State) (owner contact : Name) : Prop :=
  ∃ row ∈ (state.requests owner.value).rows, row.contact = contact

/-- What a request asks of its two accounts. -/
structure Askable (auth : List Name) (a b : Name) (state : State) : Prop where
  authorised : a ∈ auth
  registered : (state.profiles.find? a.value).isSome
  known : (state.profiles.find? b.value).isSome
  distinct : a ≠ b
  unasked : ¬ state.holds b a
  unasking : ¬ state.holds a b

theorem State.holds_iff : state.holds owner contact ↔ ∃ s, state.links owner s = some contact := by
  constructor
  · rintro ⟨row, present, rfl⟩
    exact ⟨row.scope, State.links_of_book (State.mem_rows.mp present)⟩
  · rintro ⟨s, edge⟩
    obtain ⟨row, held, names⟩ := Book.links_eq_some.mp edge
    exact ⟨row, (Table.find?_eq_some.mp held).1, names⟩

theorem State.lookup_isNone :
    (state.requests owner.value).indexFind Requests.byContact contact.value = none ↔
      ¬ state.holds owner contact := by
  rw [Table.indexFind_eq_none, State.holds]
  constructor
  · rintro absent ⟨row, present, names⟩
    exact absent row present (congrArg Name.value names)
  · intro missing row present same
    exact missing ⟨row, present, Name.value_inj.mp same⟩

theorem State.lookup_of_holds (holds : state.holds owner contact) :
    ∃ mine, (state.requests owner.value).indexFind Requests.byContact contact.value = some mine := by
  cases found : (state.requests owner.value).indexFind Requests.byContact contact.value with
  | none => exact absurd holds (State.lookup_isNone.mp found)
  | some mine => exact ⟨mine, rfl⟩

private theorem validateAccounts_ok {done : Unit} :
    validateAccounts a b state = .ok done ↔
      (state.profiles.find? a.value).isSome ∧ (state.profiles.find? b.value).isSome := by
  simp [validateAccounts]

/-- A request commits if its accounts can be asked and the two tables have room under the next id. -/
theorem sendrequest_isOk :
    (∃ next, sendrequest context a b key state = .ok next) ↔
      Askable context.auth a b state ∧
        ∃ scope, availablePrimaryKey unsetNextPrimaryKey state.adresses = .ok scope ∧
          state.book b scope = none ∧ state.book a scope = none := by
  constructor
  · rintro ⟨next, committed⟩
    obtain ⟨scope, effect⟩ := sendrequest_opened committed
    simp only [sendrequest, bind_eq_ok, check_eq_ok, validateAccounts_ok, Option.isNone_iff_eq_none,
      State.lookup_isNone] at committed
    obtain ⟨_, _, _, registered, _, _, _, unasked, _, unasking, _⟩ := committed
    exact ⟨⟨effect.authorised, registered.1, registered.2, effect.distinct, unasked, unasking⟩,
      scope, effect.granted, effect.freeTo, effect.freeFrom⟩
  · rintro ⟨askable, scope, granted, freeTo, freeFrom⟩
    have apart : ¬ a.value = b.value := fun same => askable.distinct (Name.value_inj.mp same)
    simp only [sendrequest, bind_eq_ok, check_eq_ok, Context.requireAuth_eq_ok, validateAccounts_ok,
      emplace_eq_ok, pure_eq_ok, Option.isNone_iff_eq_none, State.lookup_isNone]
    refine ⟨_, (), askable.authorised, (), ⟨askable.registered, askable.known⟩, scope, granted, (),
      askable.unasked, (), askable.unasking, _, ⟨freeTo, rfl⟩, _, ⟨?_, rfl⟩, _, ⟨?_, rfl⟩, rfl⟩
    · rw [State.setRequests_requests, if_neg apart]
      exact freeFrom
    · exact find?_availablePrimaryKey granted

/-- A forced request commits if its accounts differ and neither holds a row under the id. -/
theorem forcerequest_isOk {cnt1 cnt2 : Name} {key1 key2 : ByteString} :
    (∃ next, forcerequest context scope cnt1 cnt2 key1 key2 state = .ok next) ↔
      cnt1 ≠ cnt2 ∧ state.book cnt1 scope = none ∧ state.book cnt2 scope = none := by
  constructor
  · rintro ⟨next, committed⟩
    have effect := forcerequest_forced committed
    exact ⟨effect.distinct, effect.freeFirst, effect.freeSecond⟩
  · rintro ⟨distinct, freeFirst, freeSecond⟩
    have apart : ¬ cnt2.value = cnt1.value := fun same => distinct (Name.value_inj.mp same).symm
    simp only [forcerequest, bind_eq_ok, emplace_eq_ok, pure_eq_ok]
    refine ⟨_, _, ⟨freeFirst, rfl⟩, _, ⟨?_, rfl⟩, rfl⟩
    rw [State.setRequests_requests, if_neg apart]
    exact freeSecond

/-- With a row on either side under one id, both erases find theirs. -/
private theorem erase_both_isOk {mine : Requests} (distinct : owner ≠ contact)
    (found : (state.requests owner.value).indexFind Requests.byContact contact.value = some mine)
    (present : (state.book contact mine.scope).isSome) :
    ∃ theirs itr owners itr' contacts,
      (state.requests owner.value).find? mine.scope = some mine ∧
        (state.requests contact.value).find? mine.scope = some theirs ∧
        erase (state.requests owner.value) (some mine) = .ok (itr, owners) ∧
        (state.setRequests owner.value owners).requests contact.value = state.requests contact.value ∧
        erase (state.requests contact.value) (some theirs) = .ok (itr', contacts) := by
  obtain ⟨theirs, counterpart⟩ := Option.isSome_iff_exists.mp present
  have held := (State.book_of_lookup found).1
  have apart : ¬ contact.value = owner.value := fun same => distinct (Name.value_inj.mp same).symm
  have stored {x : Name} {row : Requests} (found : state.book x mine.scope = some row) :
      ((state.requests x.value).find? row.primaryKey).isSome := by
    rw [Table.find?_self (Table.find?_eq_some.mp found).1]
    rfl
  refine ⟨theirs, _, _, _, _, held, counterpart, erase_some.mpr ⟨stored held, rfl⟩, ?_,
    erase_some.mpr ⟨stored counterpart, rfl⟩⟩
  rw [State.setRequests_requests, if_neg apart]

/-- A removal commits if the other account holds a row under the id of the caller's. -/
theorem rmcontact_isOk :
    (∃ next, rmcontact context owner contact state = .ok next) ↔
      owner ∈ context.auth ∧ owner ≠ contact ∧ ∃ mine,
        (state.requests owner.value).indexFind Requests.byContact contact.value = some mine ∧
          (state.book contact mine.scope).isSome := by
  constructor
  · rintro ⟨next, committed⟩
    obtain ⟨authorised, mine, theirs, effect⟩ := rmcontact_ok committed
    exact ⟨authorised, effect.distinct, mine, effect.found, by simp [effect.counterpart]⟩
  · rintro ⟨authorised, distinct, mine, found, present⟩
    obtain ⟨theirs, _, owners, _, contacts, held, counterpart, first, elsewhere, second⟩ :=
      erase_both_isOk distinct found present
    simp only [rmcontact, bind_eq_ok, Context.requireAuth_eq_ok, found, held, counterpart, pure_eq_ok]
    exact ⟨_, (), authorised, _, first, _, elsewhere ▸ second, rfl⟩

/-- A rejection commits under the conditions of a removal, between registered accounts. -/
theorem rejection_isOk :
    (∃ next, resprequest context owner contact key false state = .ok next) ↔
      owner ∈ context.auth ∧ (state.profiles.find? owner.value).isSome ∧
        (state.profiles.find? contact.value).isSome ∧ owner ≠ contact ∧ ∃ mine,
          (state.requests owner.value).indexFind Requests.byContact contact.value = some mine ∧
            (state.book contact mine.scope).isSome := by
  constructor
  · rintro ⟨next, committed⟩
    obtain ⟨authorised, mine, theirs, effect⟩ := resprequest_ok committed
    rw [if_neg Bool.false_ne_true] at effect
    simp only [resprequest, bind_eq_ok, check_eq_ok] at committed
    obtain ⟨_, _, _, registered, _, known, _⟩ := committed
    exact ⟨authorised, registered, known, effect.distinct, mine, effect.found,
      by simp [effect.counterpart]⟩
  · rintro ⟨authorised, registered, known, distinct, mine, found, present⟩
    obtain ⟨theirs, _, owners, _, contacts, held, counterpart, first, elsewhere, second⟩ :=
      erase_both_isOk distinct found present
    simp only [resprequest, bind_eq_ok, check_eq_ok, Context.requireAuth_eq_ok, found, held, pure_eq_ok,
      Bool.false_eq_true, if_false]
    rw [← counterpart, ← elsewhere] at second
    exact ⟨_, (), authorised, (), registered, (), known, _, first, _, second, rfl⟩

theorem step_isSome_of_silent {outcome : Except Abort State}
    (called : dispatch (tx.context host) state tx.action = silent outcome) :
    (step host state tx).isSome ↔ ∃ next, outcome = .ok next := by
  rw [step_isSome, called]
  simp

/-- Where every id in use has been given out, the next one is free. -/
theorem State.Exclusive.free (exclusive : state.Exclusive)
    (granted : availablePrimaryKey unsetNextPrimaryKey state.adresses = .ok scope) (x : Name) :
    state.book x scope = none := by
  cases held : state.book x scope with
  | none => rfl
  | some row =>
    have given := exclusive.within x scope row.contact (State.links_of_book held)
    simp [State.given, find?_availablePrimaryKey granted] at given

theorem sendrequest_isSome (exclusive : state.Exclusive) (called : tx.action = .sendrequest a b key) :
    (step host state tx).isSome ↔ Askable tx.auth a b state ∧
      ∃ scope, availablePrimaryKey unsetNextPrimaryKey state.adresses = .ok scope := by
  rw [step_isSome_of_silent (by rw [called, dispatch]), sendrequest_isOk]
  refine and_congr Iff.rfl (exists_congr fun scope => ⟨And.left, fun granted => ?_⟩)
  exact ⟨granted, exclusive.free granted b, exclusive.free granted a⟩

theorem rmcontact_isSome (called : tx.action = .rmcontact owner contact) :
    (step host state tx).isSome ↔ owner ∈ tx.auth ∧ owner ≠ contact ∧ ∃ mine,
      (state.requests owner.value).indexFind Requests.byContact contact.value = some mine ∧
        (state.book contact mine.scope).isSome := by
  rw [step_isSome_of_silent (by rw [called, dispatch]), rmcontact_isOk]
  rfl

end LocalChain.K2ultra
