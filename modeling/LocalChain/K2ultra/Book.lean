import LocalChain.K2ultra.ActionSpec

namespace LocalChain.K2ultra

open LocalChain.Inery LocalChain.Inery.MultiIndex LocalChain.Store

/-! The book of contacts: who holds a row under which conversation id. -/

abbrev Book := Name → UInt64 → Option Requests

def State.book (state : State) : Book := fun owner scope =>
  (state.requests owner.value).find? scope

namespace Book

def put (book : Book) (owner : Name) (row : Requests) : Book := fun holder scope =>
  if holder = owner ∧ scope = row.scope then some row else book holder scope

def drop (book : Book) (owner : Name) (gone : UInt64) : Book := fun holder scope =>
  if holder = owner ∧ scope = gone then none else book holder scope

def clear (book : Book) (owner : Name) : Book := fun holder scope =>
  if holder = owner then none else book holder scope

/-- Clear the rows of an account together with whatever its contacts hold under the same ids. -/
def cascade (book : Book) (owner : Name) : Book := fun holder scope =>
  if holder = owner ∨ ∃ row, book owner scope = some row ∧ row.contact = holder then none
  else book holder scope

end Book

variable {context : Context} {state next : State} {owner contact from' to' : Name}
  {scope : UInt64} {row : Requests}

theorem Book.put_eq_some {book : Book} {other : Requests} {holder : Name} {s : UInt64} :
    book.put owner row holder s = some other ↔
      holder = owner ∧ s = row.scope ∧ other = row ∨
        ¬ (holder = owner ∧ s = row.scope) ∧ book holder s = some other := by
  by_cases hit : holder = owner ∧ s = row.scope
  · simp [Book.put, hit, eq_comm]
  · simp only [Book.put, hit, not_false_eq_true, true_and]
    exact ⟨.inr, fun held => held.resolve_left fun same => hit ⟨same.1, same.2.1⟩⟩

/-- A put in a free place overwrites nothing. -/
theorem Book.put_old {book : Book} {other : Requests} {holder : Name} {s : UInt64}
    (free : book owner row.scope = none) (held : book holder s = some other) :
    book.put owner row holder s = some other := by
  refine Book.put_eq_some.mpr (.inr ⟨?_, held⟩)
  rintro ⟨rfl, rfl⟩
  rw [free] at held
  cases held

theorem Book.drop_sub {book : Book} {holder : Name} {gone s : UInt64}
    (held : book.drop owner gone holder s = some row) : book holder s = some row := by
  unfold Book.drop at held
  split at held
  · cases held
  · exact held

theorem Book.clear_sub {book : Book} {holder : Name} {s : UInt64}
    (held : book.clear owner holder s = some row) : book holder s = some row := by
  unfold Book.clear at held
  split at held
  · cases held
  · exact held

theorem Book.cascade_sub {book : Book} {holder : Name} {s : UInt64}
    (held : book.cascade owner holder s = some row) : book holder s = some row := by
  unfold Book.cascade at held
  split at held
  · cases held
  · exact held

theorem State.book_setRequests (table : RequestsTable) :
    (state.setRequests owner.value table).book =
      fun holder scope => if holder = owner then table.find? scope else state.book holder scope := by
  funext holder scope
  simp only [State.book, State.setRequests_requests, Name.value_inj]
  split <;> rfl

theorem State.book_put (row : Requests) :
    (state.setRequests owner.value ((state.requests owner.value).put row)).book =
      state.book.put owner row := by
  funext holder scope
  by_cases same : holder = owner
  · subst same
    by_cases hit : scope = row.scope <;>
      simp [State.setRequests_requests, Book.put, State.book, hit]
  · simp [State.book_setRequests, Book.put, same]

theorem State.book_erase (gone : UInt64) :
    (state.setRequests owner.value ((state.requests owner.value).erase gone)).book =
      state.book.drop owner gone := by
  funext holder scope
  by_cases same : holder = owner
  · subst same
    simp [State.setRequests_requests, Book.drop, State.book]
  · simp [State.book_setRequests, Book.drop, same]

theorem State.book_clear :
    (state.setRequests owner.value .empty).book = state.book.clear owner := by
  simp only [State.book_setRequests, Table.find?_empty]
  rfl

theorem State.book_scope (held : state.book owner scope = some row) : row.scope = scope :=
  Table.key_of_find? held

theorem State.mem_rows :
    row ∈ (state.requests owner.value).rows ↔ state.book owner row.scope = some row := by
  constructor
  · intro present
    exact Table.find?_self present
  · intro held
    exact (Table.find?_eq_some.mp held).1

/-- What a lookup in the contact index tells about the book. -/
theorem State.book_of_lookup
    (found : (state.requests owner.value).indexFind Requests.byContact contact.value = some row) :
    state.book owner row.scope = some row ∧ row.contact = contact := by
  obtain ⟨present, same, _⟩ := Table.indexFind_eq_some.mp found
  exact ⟨Table.find?_self present, Name.value_inj.mp same⟩

theorem State.lookup_eq_none :
    (state.requests owner.value).indexFind Requests.byContact contact.value = none ↔
      ∀ scope row, state.book owner scope = some row → row.contact ≠ contact := by
  rw [Table.indexFind_eq_none]
  constructor
  · intro absent scope row held same
    exact absent row (Table.find?_eq_some.mp held).1 (congrArg Name.value same)
  · intro absent row present same
    exact absent row.scope row (Table.find?_self present) (Name.value_inj.mp same)

/-- Two states agree on everything but the requests tables. -/
structure OnlyRequests (state next : State) : Prop where
  adresses : next.adresses = state.adresses
  messages : next.messages = state.messages
  profiles : next.profiles = state.profiles

theorem OnlyRequests.trans {middle : State} (first : OnlyRequests state middle)
    (second : OnlyRequests middle next) : OnlyRequests state next :=
  ⟨second.adresses.trans first.adresses, second.messages.trans first.messages,
    second.profiles.trans first.profiles⟩

theorem State.setRequests_only (scope : UInt64) (table : RequestsTable) :
    OnlyRequests state (state.setRequests scope table) := ⟨rfl, rfl, rfl⟩

/-! What a committed action does to the book. -/

structure Opened (context : Context) (from' to' : Name) (key : ByteString) (scope : UInt64)
    (state next : State) : Prop where
  authorised : from' ∈ context.auth
  granted : availablePrimaryKey unsetNextPrimaryKey state.adresses = .ok scope
  distinct : from' ≠ to'
  unasked : ∀ held row, state.book to' held = some row → row.contact ≠ from'
  unasking : ∀ held row, state.book from' held = some row → row.contact ≠ to'
  freeTo : state.book to' scope = none
  freeFrom : state.book from' scope = none
  book : next.book = (state.book.put to' ((Requests.fresh (context.heap 0)).received scope from' key)).put
    from' ((Requests.fresh (context.heap 1)).sent scope to')
  adresses : next.adresses = state.adresses.put ⟨scope⟩
  messages : next.messages = state.messages
  profiles : next.profiles = state.profiles

structure Accepted (owner from' : Name) (key : ByteString) (mine theirs : Requests) (state next : State) :
    Prop where
  found : (state.requests owner.value).indexFind Requests.byContact from'.value = some mine
  counterpart : state.book from' mine.scope = some theirs
  unanswered : theirs.cntct = false
  book : next.book = (state.book.put from' (theirs.answered key)).put owner mine.confirmed
  elsewhere : OnlyRequests state next

structure Dissolved (owner contact : Name) (mine theirs : Requests) (state next : State) : Prop where
  found : (state.requests owner.value).indexFind Requests.byContact contact.value = some mine
  counterpart : state.book contact mine.scope = some theirs
  distinct : owner ≠ contact
  book : next.book = (state.book.drop owner mine.scope).drop contact mine.scope
  elsewhere : OnlyRequests state next

structure Edited (owner contact : Name) (updater : Requests → Requests) (mine : Requests)
    (state next : State) : Prop where
  found : (state.requests owner.value).indexFind Requests.byContact contact.value = some mine
  book : next.book = state.book.put owner (updater mine)
  elsewhere : OnlyRequests state next

structure Forced (context : Context) (scope : UInt64) (cnt1 cnt2 : Name) (key1 key2 : ByteString)
    (state next : State) : Prop where
  distinct : cnt1 ≠ cnt2
  freeFirst : state.book cnt1 scope = none
  freeSecond : state.book cnt2 scope = none
  book : next.book = (state.book.put cnt1 ((Requests.fresh (context.heap 0)).forced scope cnt2 key2)).put
    cnt2 ((Requests.fresh (context.heap 1)).forced scope cnt1 key1)
  elsewhere : OnlyRequests state next

theorem sendrequest_opened {key : ByteString}
    (committed : sendrequest context from' to' key state = .ok next) :
    ∃ scope, Opened context from' to' key scope state next := by
  simp only [sendrequest, bind_eq_ok, check_eq_ok, Context.requireAuth_eq_ok, emplace_eq_ok, pure_eq_ok,
    Option.isNone_iff_eq_none, State.lookup_eq_none, Requests.primaryKey_eq, Requests.received_scope,
    Requests.sent_scope] at committed
  obtain ⟨_, authorised, _, _, scope, granted, _, unasked, _, unasking, _, ⟨freeTo, rfl⟩, _,
    ⟨freeFrom, rfl⟩, _, ⟨_, rfl⟩, rfl⟩ := committed
  change (state.setRequests to'.value _).book from' scope = none at freeFrom
  rw [State.book_put, Book.put] at freeFrom
  have distinct : from' ≠ to' := by
    intro same
    simp [same] at freeFrom
  rw [if_neg (by simp [distinct])] at freeFrom
  refine ⟨scope, authorised, granted, distinct, unasked, unasking, freeTo, freeFrom, ?_, rfl, rfl, rfl⟩
  exact (State.book_put _).trans (congrArg (Book.put · from' _) (State.book_put _))

/-- What a request leaves under its id. -/
theorem Opened.book_new {key : ByteString} (effect : Opened context from' to' key scope state next)
    (x : Name) :
    next.book x scope = if x = from' then some ((Requests.fresh (context.heap 1)).sent scope to')
      else if x = to' then some ((Requests.fresh (context.heap 0)).received scope from' key)
      else state.book x scope := by
  simp [effect.book, Book.put]

theorem Opened.book_old {key : ByteString} (effect : Opened context from' to' key scope state next)
    (x : Name) {s : UInt64} (apart : s ≠ scope) : next.book x s = state.book x s := by
  simp [effect.book, Book.put, apart]

theorem forcerequest_forced {cnt1 cnt2 : Name} {key1 key2 : ByteString}
    (committed : forcerequest context scope cnt1 cnt2 key1 key2 state = .ok next) :
    Forced context scope cnt1 cnt2 key1 key2 state next := by
  simp only [forcerequest, bind_eq_ok, emplace_eq_ok, pure_eq_ok, Requests.primaryKey_eq,
    Requests.forced_scope] at committed
  obtain ⟨_, ⟨freeFirst, rfl⟩, _, ⟨freeSecond, rfl⟩, rfl⟩ := committed
  change (state.setRequests cnt1.value _).book cnt2 scope = none at freeSecond
  rw [State.book_put, Book.put] at freeSecond
  have distinct : cnt1 ≠ cnt2 := by
    intro same
    simp [same] at freeSecond
  rw [if_neg (by simp [distinct.symm])] at freeSecond
  refine ⟨distinct, freeFirst, freeSecond, ?_, (State.setRequests_only _ _).trans (State.setRequests_only _ _)⟩
  exact (State.book_put _).trans (congrArg (Book.put · cnt2 _) (State.book_put _))

/-- Erase a row of the owner and then a row of the contact under the same id. The host refuses the
second erase if both are one row, so the accounts differ. -/
private theorem erase_both {scope : UInt64} {theirs : Requests} {itr : Option Requests}
    {contacts : RequestsTable} (same : theirs.scope = scope)
    (erased : erase ((state.setRequests owner.value ((state.requests owner.value).erase scope)).requests
      contact.value) (some theirs) = .ok (itr, contacts)) :
    owner ≠ contact ∧
      ((state.setRequests owner.value ((state.requests owner.value).erase scope)).setRequests
        contact.value contacts).book = (state.book.drop owner scope).drop contact scope := by
  obtain ⟨present, rest⟩ := erase_some.mp erased
  obtain ⟨_, rfl⟩ := Prod.mk.inj rest
  rw [Requests.primaryKey_eq, same] at present ⊢
  constructor
  · rintro rfl
    change ((state.setRequests owner.value _).book owner scope).isSome at present
    simp [State.book_erase, Book.drop] at present
  · exact (State.book_erase _).trans (congrArg (Book.drop · contact scope) (State.book_erase _))

theorem resprequest_ok {key : ByteString} {accept : Bool}
    (committed : resprequest context owner from' key accept state = .ok next) :
    owner ∈ context.auth ∧ ∃ mine theirs,
      if accept then Accepted owner from' key mine theirs state next
      else Dissolved owner from' mine theirs state next := by
  simp only [resprequest, bind_eq_ok, Context.requireAuth_eq_ok] at committed
  obtain ⟨_, authorised, _, _, _, _, committed⟩ := committed
  refine ⟨authorised, ?_⟩
  split at committed
  · simp at committed
  rename_i mine found
  have held : (state.requests owner.value).find? mine.scope = some mine := (State.book_of_lookup found).1
  cases accept with
  | true =>
    simp only [↓reduceIte] at committed
    split at committed
    · simp at committed
    rename_i theirs counterpart
    simp only [held, bind_eq_ok, check_eq_ok, modify_some, pure_eq_ok] at committed
    obtain ⟨_, unanswered, _, ⟨_, _, rfl⟩, _, ⟨_, _, rfl⟩, rfl⟩ := committed
    refine ⟨mine, theirs, found, counterpart, by simpa using unanswered, ?_,
      (State.setRequests_only _ _).trans (State.setRequests_only _ _)⟩
    exact (State.book_put _).trans (congrArg (Book.put · owner _) (State.book_put _))
  | false =>
    simp only [Bool.false_eq_true, ↓reduceIte, held, bind_eq_ok, erase_some, pure_eq_ok,
      Prod.exists, Prod.mk.injEq] at committed
    obtain ⟨_, _, ⟨_, _, rfl⟩, _, contacts, erased, rfl⟩ := committed
    cases counterpart : ((state.setRequests owner.value ((state.requests owner.value).erase
        mine.scope)).book from' mine.scope) with
    | none =>
      change Table.find? _ _ = none at counterpart
      simp [counterpart] at erased
    | some theirs =>
      have same := State.book_scope counterpart
      change Table.find? _ _ = some theirs at counterpart
      rw [Requests.primaryKey_eq, counterpart] at erased
      obtain ⟨distinct, book⟩ := erase_both same erased
      change (state.setRequests owner.value _).book from' mine.scope = some theirs at counterpart
      rw [State.book_erase, Book.drop, if_neg (by simp [distinct.symm])] at counterpart
      exact ⟨mine, theirs, found, counterpart, distinct, book,
        (State.setRequests_only _ _).trans (State.setRequests_only _ _)⟩

theorem rmcontact_ok (committed : rmcontact context owner contact state = .ok next) :
    owner ∈ context.auth ∧ ∃ mine theirs, Dissolved owner contact mine theirs state next := by
  simp only [rmcontact, bind_eq_ok, Context.requireAuth_eq_ok] at committed
  obtain ⟨_, authorised, committed⟩ := committed
  refine ⟨authorised, ?_⟩
  split at committed
  · simp at committed
  rename_i mine found
  have held : (state.requests owner.value).find? mine.scope = some mine := (State.book_of_lookup found).1
  simp only [held, bind_eq_ok, erase_some, pure_eq_ok, Prod.exists, Prod.mk.injEq] at committed
  obtain ⟨_, _, ⟨_, _, rfl⟩, _, contacts, erased, rfl⟩ := committed
  cases counterpart : (state.requests contact.value).find? mine.scope with
  | none => simp [counterpart] at erased
  | some theirs =>
    rw [Requests.primaryKey_eq, counterpart] at erased
    obtain ⟨distinct, book⟩ := erase_both (State.book_scope counterpart) erased
    exact ⟨mine, theirs, found, counterpart, distinct, book,
      (State.setRequests_only _ _).trans (State.setRequests_only _ _)⟩

theorem editContact_edited {missing : String} {updater : Requests → Requests}
    (committed : editContact owner contact missing updater state = .ok next) :
    ∃ mine, Edited owner contact updater mine state next := by
  obtain ⟨mine, found, rfl⟩ := editContact_ok committed
  exact ⟨mine, found, State.book_put _, State.setRequests_only _ _⟩

theorem Book.drop_of_none {book : Book} (absent : book owner scope = none) :
    book.drop owner scope = book := by
  funext holder held
  simp only [Book.drop]
  split
  · rename_i same
    rw [same.1, same.2, absent]
  · rfl

/-- One round of the loop erases the first row left and its counterpart, if there is one. -/
private theorem deletereqsLoop_round {rest : List Requests} {fuel : Nat}
    (sorted : (row :: rest).Pairwise fun earlier later => earlier.primaryKey < later.primaryKey)
    (rows : state.requests owner.value = ⟨row :: rest, sorted⟩)
    (committed : deletereqsLoop owner (fuel + 1) (some row) state = .ok next) :
    ∃ middle, deletereqsLoop owner fuel rest.head? middle = .ok next ∧
      middle.requests owner.value = ⟨rest, (List.pairwise_cons.mp sorted).2⟩ ∧
      middle.book = (state.book.drop owner row.scope).drop row.contact row.scope ∧
      OnlyRequests state middle := by
  have erased : (state.requests owner.value).erase row.scope =
      ⟨rest, (List.pairwise_cons.mp sorted).2⟩ := by
    rw [rows]
    exact (Prod.ext_iff.mp (erase_some.mp (erase_head sorted)).2).2
  simp only [deletereqsLoop, rows, erase_head sorted] at committed
  obtain ⟨_, stepped, committed⟩ := bind_eq_ok.mp committed
  obtain rfl := Except.ok.inj stepped
  simp only [← erased] at committed ⊢
  split at committed
  · rename_i present
    obtain ⟨theirs, counterpart⟩ := Option.isSome_iff_exists.mp present
    obtain ⟨⟨itr, contacts⟩, removed, committed⟩ := bind_eq_ok.mp committed
    rw [counterpart] at removed
    obtain ⟨distinct, book⟩ := erase_both (Table.key_of_find? counterpart) removed
    refine ⟨_, committed, ?_, book, (State.setRequests_only _ _).trans (State.setRequests_only _ _)⟩
    have apart : owner.value ≠ row.contact.value := fun same => distinct (Name.value_inj.mp same)
    rw [State.setRequests_requests, if_neg apart, State.setRequests_requests, if_pos rfl]
  · rename_i absent
    refine ⟨_, committed, ?_, ?_, State.setRequests_only _ _⟩
    · rw [State.setRequests_requests, if_pos rfl]
    · have missing : state.book row.contact row.scope = none :=
        Option.not_isSome_iff_eq_none.mp absent
      rw [State.book_erase]
      exact (Book.drop_of_none (by simp only [Book.drop, missing, ite_self])).symm

/-- The rows left after each round are a suffix of those the table had at the start. -/
private theorem deletereqsLoop_ok {rest : List Requests} {fuel : Nat}
    (sorted : rest.Pairwise fun earlier later => earlier.primaryKey < later.primaryKey)
    (rows : state.requests owner.value = ⟨rest, sorted⟩)
    (committed : deletereqsLoop owner fuel rest.head? state = .ok next) :
    OnlyRequests state next ∧ ∀ holder scope, next.book holder scope =
      if holder = owner ∨ ∃ row ∈ rest, row.scope = scope ∧ row.contact = holder then none
      else state.book holder scope := by
  induction rest generalizing state fuel with
  | nil =>
    obtain rfl : state = next := by simpa [deletereqsLoop] using committed
    refine ⟨⟨rfl, rfl, rfl⟩, fun holder scope => ?_⟩
    by_cases same : holder = owner
    · subst same
      simp [State.book, rows, Table.find?]
    · simp [same]
  | cons row rest ih =>
    cases fuel with
    | zero => simp [deletereqsLoop] at committed
    | succ fuel =>
      obtain ⟨middle, remaining, rows', book, only⟩ := deletereqsLoop_round sorted rows committed
      obtain ⟨later, result⟩ := ih _ rows' remaining
      refine ⟨only.trans later, fun holder scope => ?_⟩
      rw [result, book]
      by_cases same : holder = owner
      · simp [same]
      by_cases hit : row.scope = scope ∧ row.contact = holder
      · simp [same, hit, Book.drop]
      · have missed : ¬ (holder = row.contact ∧ scope = row.scope) :=
          fun both => hit ⟨both.2.symm, both.1.symm⟩
        simp [same, hit, missed, Book.drop]

theorem deletereqs_ok (committed : deletereqs owner state = .ok next) :
    OnlyRequests state next ∧ next.book = state.book.cascade owner := by
  obtain ⟨only, book⟩ := deletereqsLoop_ok (state.requests owner.value).sorted rfl committed
  refine ⟨only, ?_⟩
  funext holder scope
  have reach : (∃ row ∈ (state.requests owner.value).rows, row.scope = scope ∧ row.contact = holder) ↔
      ∃ row, state.book owner scope = some row ∧ row.contact = holder := by
    simp only [State.book, Table.find?_eq_some, Requests.primaryKey_eq, and_assoc]
  simp only [book, reach, Book.cascade]

end LocalChain.K2ultra
