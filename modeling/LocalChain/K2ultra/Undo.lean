import LocalChain.K2ultra.Commits

namespace LocalChain.K2ultra

open LocalChain.Inery LocalChain.Inery.MultiIndex LocalChain.Store

variable {context later : Context} {state middle undone : State} {a b owner contact : Name}
  {key answer : ByteString} {s : UInt64} {row : Requests}

/-- A row that is alone in naming its contact is the one the contact index finds. -/
theorem State.lookup_of_book (held : state.book owner s = some row) (names : row.contact = contact)
    (only : ∀ t other, t ≠ s → state.book owner t = some other → other.contact ≠ contact) :
    (state.requests owner.value).indexFind Requests.byContact contact.value = some row := by
  have place := State.book_scope held
  refine Table.indexFind_eq_some.mpr ⟨(Table.find?_eq_some.mp held).1, congrArg Name.value names, ?_⟩
  intro other present same
  have stored := State.mem_rows.mp present
  by_cases here : other.scope = s
  · rw [Requests.primaryKey_eq, Requests.primaryKey_eq, place, here]
  · exact absurd (Name.value_inj.mp same) (only other.scope other here stored)

/-- Either account of a new request finds its own row by the other account. -/
theorem Opened.lookups (effect : Opened context a b key s state middle) :
    (middle.requests a.value).indexFind Requests.byContact b.value =
        some ((Requests.fresh (context.heap 1)).sent s b) ∧
      (middle.requests b.value).indexFind Requests.byContact a.value =
        some ((Requests.fresh (context.heap 0)).received s a key) := by
  constructor
  · refine State.lookup_of_book (s := s) (by simp [effect.book_new]) rfl ?_
    intro t other apart held
    exact effect.unasking t other (effect.book_old a apart ▸ held)
  · refine State.lookup_of_book (s := s) (by simp [effect.book_new, effect.distinct.symm]) rfl ?_
    intro t other apart held
    exact effect.unasked t other (effect.book_old b apart ▸ held)

theorem Book.drop_comm (book : Book) (first second : Name) (gone : UInt64) :
    (book.drop first gone).drop second gone = (book.drop second gone).drop first gone := by
  funext holder t
  simp only [Book.drop]
  split <;> split <;> rfl

theorem Opened.drop_both (effect : Opened context a b key s state middle) :
    (middle.book.drop a s).drop b s = state.book := by
  funext holder t
  by_cases here : t = s
  · subst here
    simp only [Book.drop, effect.book_new, and_true]
    split
    · rename_i same
      rw [same, effect.freeTo]
    · split
      · rename_i same
        rw [same, effect.freeFrom]
      · rfl
  · simp [Book.drop, here, effect.book_old holder here]

/-- The requests tables are determined by the book. -/
theorem State.requests_of_book (same : undone.book = state.book) : undone.requests = state.requests := by
  funext scope
  exact Table.ext_find? fun k => congrFun (congrFun same ⟨scope⟩) k

/-- Once both rows of a request are gone, only its id is left. -/
theorem Opened.reverts (effect : Opened context a b key s state middle)
    (restored : undone.book = state.book) (only : OnlyRequests middle undone) :
    undone = { state with adresses := state.adresses.put ⟨s⟩ } := by
  have requests := State.requests_of_book restored
  have adresses := only.adresses.trans effect.adresses
  have messages := only.messages.trans effect.messages
  have profiles := only.profiles.trans effect.profiles
  cases undone
  cases state
  simp only at requests adresses messages profiles
  subst requests adresses messages profiles
  rfl

/-- One of the two accounts of a new request takes it back, by a removal or by a rejection. -/
private theorem Opened.takenBack {mine : Requests} (effect : Opened context a b key s state middle)
    (distinct : owner ≠ contact) (registered : (middle.profiles.find? owner.value).isSome)
    (known : (middle.profiles.find? contact.value).isSome)
    (found : (middle.requests owner.value).indexFind Requests.byContact contact.value = some mine)
    (place : mine.scope = s) (present : (middle.book contact s).isSome)
    (restored : (middle.book.drop owner s).drop contact s = state.book)
    (authorised : owner ∈ later.auth) :
    rmcontact later owner contact middle = .ok { state with adresses := state.adresses.put ⟨s⟩ } ∧
      resprequest later owner contact answer false middle =
        .ok { state with adresses := state.adresses.put ⟨s⟩ } := by
  subst place
  have dissolved {mine' theirs : Requests} {undone : State}
      (gone : Dissolved owner contact mine' theirs middle undone) :
      undone = { state with adresses := state.adresses.put ⟨mine.scope⟩ } := by
    obtain rfl := Option.some.inj (found.symm.trans gone.found)
    exact effect.reverts (gone.book.trans restored) gone.elsewhere
  constructor
  · obtain ⟨undone, committed⟩ := rmcontact_isOk.mpr ⟨authorised, distinct, mine, found, present⟩
    obtain ⟨_, _, _, gone⟩ := rmcontact_ok committed
    rw [committed, dissolved gone]
  · obtain ⟨undone, committed⟩ : ∃ undone, resprequest later owner contact answer false middle =
        .ok undone := rejection_isOk.mpr ⟨authorised, registered, known, distinct, mine, found, present⟩
    obtain ⟨_, _, _, gone⟩ := resprequest_ok committed
    rw [if_neg Bool.false_ne_true] at gone
    rw [committed, dissolved gone]

/-- A removal and a rejection by either account right after a request bring back the state before it,
but for the id that it has taken. -/
theorem request_undone (committed : sendrequest context a b key state = .ok middle) :
    ∃ s, state.adresses.find? s = none ∧
      (∀ (later : Context) (answer : ByteString), a ∈ later.auth →
        rmcontact later a b middle = .ok { state with adresses := state.adresses.put ⟨s⟩ } ∧
          resprequest later a b answer false middle =
            .ok { state with adresses := state.adresses.put ⟨s⟩ }) ∧
      ∀ (later : Context) (answer : ByteString), b ∈ later.auth →
        rmcontact later b a middle = .ok { state with adresses := state.adresses.put ⟨s⟩ } ∧
          resprequest later b a answer false middle =
            .ok { state with adresses := state.adresses.put ⟨s⟩ } := by
  obtain ⟨askable, _⟩ := sendrequest_isOk.mp ⟨middle, committed⟩
  obtain ⟨s, effect⟩ := sendrequest_opened committed
  obtain ⟨fromFound, toFound⟩ := effect.lookups
  have registered := askable.registered
  have known := askable.known
  rw [← effect.profiles] at registered known
  refine ⟨s, find?_availablePrimaryKey effect.granted, ?_, ?_⟩
  · intro later answer authorised
    exact effect.takenBack effect.distinct registered known fromFound rfl
      (by simp [effect.book_new, effect.distinct.symm]) effect.drop_both authorised
  · intro later answer authorised
    exact effect.takenBack effect.distinct.symm known registered toFound rfl
      (by simp [effect.book_new]) (Book.drop_comm _ _ _ _ ▸ effect.drop_both) authorised

/-- Alice takes back what she has asked, or Bob refuses it, in either way. -/
theorem requested_undone :
    ∃ middle, sendrequest (asking.context chain) alice bob "ka" (reached chain registered) = .ok middle ∧
      ∃ s undone, (reached chain registered).adresses.find? s = none ∧
        undone = { reached chain registered with adresses := (reached chain registered).adresses.put ⟨s⟩ } ∧
        rmcontact ((Tx.signed alice (.rmcontact alice bob)).context chain) alice bob middle = .ok undone ∧
        resprequest ((Tx.signed alice (.resprequest alice bob "" false)).context chain) alice bob "" false middle =
          .ok undone ∧
        rmcontact ((Tx.signed bob (.rmcontact bob alice)).context chain) bob alice middle = .ok undone ∧
        resprequest ((Tx.signed bob (.resprequest bob alice "" false)).context chain) bob alice "" false middle =
          .ok undone := by
  have called : dispatch (asking.context chain) (reached chain registered) asking.action =
      silent (sendrequest (asking.context chain) alice bob "ka" (reached chain registered)) := rfl
  obtain ⟨middle, committed⟩ := (step_isSome_of_silent called).mp (by decide +kernel)
  obtain ⟨s, free, hers, his⟩ := request_undone committed
  exact ⟨middle, committed, s, _, free, rfl, (hers _ "" (by decide)).1, (hers _ "" (by decide)).2,
    (his _ "" (by decide)).1, (his _ "" (by decide)).2⟩

end LocalChain.K2ultra
