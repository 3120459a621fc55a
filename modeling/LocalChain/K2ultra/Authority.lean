import LocalChain.K2ultra.Answer
import LocalChain.K2ultra.Messages

namespace LocalChain.K2ultra

open LocalChain.Graph LocalChain.Inery LocalChain.Inery.MultiIndex LocalChain.Store

variable {host : Host} {tx : Tx} {context : Context} {action : Action} {state next : State}
  {auth : List Name}

/-- What a committed action can do to the profiles. -/
inductive ProfileStep (context : Context) (action : Action) (state next : State) : Prop where
  | registered {row : Profiles} (quiet : action ≠ .rrprofiles)
      (absent : state.profiles.find? row.owner.value = none)
      (result : next.profiles = state.profiles.put row)
  | edited {row : Profiles} (quiet : action ≠ .rrprofiles) (authorised : row.owner ∈ context.auth)
      (result : next.profiles = state.profiles.put row)
  | deleted (authorised : context.self ∈ context.auth)
  | emptied (called : action = .rrprofiles) (result : next.profiles = .empty)
  | untouched (quiet : action ≠ .rrprofiles) (same : next.profiles = state.profiles)

theorem Effect.onProfiles (effect : Effect context action state next) :
    ProfileStep context action state next := by
  cases effect with
  | registered called _ absent named result =>
    refine .registered (by simp [called]) (by rw [named, absent]) (by rw [result])
  | profiled called authorised found named result =>
    have place : _ = _ := Table.key_of_find? found
    refine .edited ?_ ?_ (by rw [result])
    · rintro rfl
      cases called
    · rw [named, Name.value_inj.mp place]
      exact authorised
  | deleted _ authorised => exact .deleted authorised
  | unprofiled called result => exact .emptied called (by rw [result])
  | opened called effect => exact .untouched (by simp [called]) effect.profiles
  | accepted called _ effect => exact .untouched (by simp [called]) effect.elsewhere.profiles
  | dissolved called _ effect =>
    refine .untouched ?_ effect.elsewhere.profiles
    rintro rfl
    cases called
  | edited called _ effect =>
    refine .untouched ?_ effect.elsewhere.profiles
    rintro rfl
    cases called
  | cascaded called _ elsewhere => exact .untouched (by simp [called]) elsewhere.profiles
  | dropped called _ result => exact .untouched (by simp [called]) (by rw [result]; rfl)
  | forced called effect => exact .untouched (by simp [called]) effect.elsewhere.profiles
  | numbered called _ result =>
    rcases called with rfl | ⟨_, rfl⟩ <;> exact .untouched (by simp) (by rw [result])
  | unnumbered called result => exact .untouched (by simp [called]) (by rw [result])
  | posted called _ _ result =>
    refine .untouched ?_ (by rw [result]; rfl)
    rintro rfl
    cases called
  | marked called _ _ _ result => exact .untouched (by simp [called]) (by rw [result]; rfl)
  | unmarked called _ result => exact .untouched (by simp [called]) (by rw [result])
  | wiped called result => exact .untouched (by simp [called]) (by rw [result]; rfl)
  | idle called result =>
    refine .untouched ?_ (by rw [result])
    rintro rfl
    cases called

/-! What a set of accounts may authorise. -/

/-- A profile is changed or removed only by its owner. -/
def ProfilesAuthorised (auth : List Name) (state next : State) : Prop :=
  ∀ (x : Name) (row : Profiles), state.profiles.find? x.value = some row →
    next.profiles.find? x.value ≠ some row → x ∈ auth

/-- A row of a contact is added, changed or removed only by one of its two accounts. -/
structure RequestsAuthorised (auth : List Name) (state next : State) : Prop where
  before : ∀ x s row, state.book x s = some row → next.book x s ≠ some row →
    x ∈ auth ∨ row.contact ∈ auth
  after : ∀ x s row, next.book x s = some row → state.book x s ≠ some row →
    x ∈ auth ∨ row.contact ∈ auth

/-- A message is added only by its sender. -/
def PostsAuthorised (auth : List Name) (state next : State) : Prop :=
  ∀ s id row, (state.messages s).find? id = none → (next.messages s).find? id = some row →
    row.sender ∈ auth

/-- Some account holds a row under the id of the scope. -/
def Member (auth : List Name) (state : State) (scope : UInt64) : Prop :=
  ∃ a ∈ auth, (state.book a scope).isSome

/-- A message is removed or marked as seen only by a member of its scope. -/
def MarksAuthorised (auth : List Name) (state next : State) : Prop :=
  ∀ s id row, (state.messages s).find? id = some row → (next.messages s).find? id ≠ some row →
    Member auth state s

structure Authorised (auth : List Name) (state next : State) : Prop where
  profiles : ProfilesAuthorised auth state next
  requests : RequestsAuthorised auth state next
  posts : PostsAuthorised auth state next
  marks : MarksAuthorised auth state next

/-! What must hold before an action that does not ask for enough authority itself. -/

def ProfilesWarranted (auth : List Name) (state : State) : Action → Prop
  | .rrprofiles => ∀ row ∈ state.profiles.rows, row.owner ∈ auth
  | _ => True

/-- The row that the other account holds under the id of the owner's row is between authorised
accounts. -/
def CounterpartWarranted (auth : List Name) (state : State) (owner other : Name) : Prop :=
  ∀ mine theirs,
    (state.requests owner.value).indexFind Requests.byContact other.value = some mine →
      state.book other mine.scope = some theirs → other ∈ auth ∨ theirs.contact ∈ auth

def RequestsWarranted (auth : List Name) (state : State) : Action → Prop
  | .resprequest owner from' _ _ => CounterpartWarranted auth state owner from'
  | .rmcontact owner contact => CounterpartWarranted auth state owner contact
  | .deletereqs owner => ∀ row ∈ (state.requests owner.value).rows,
      (owner ∈ auth ∨ row.contact ∈ auth) ∧ ∀ back, state.book row.contact row.scope = some back →
        row.contact ∈ auth ∨ back.contact ∈ auth
  | .deletereqs2 owner contact => contact ∈ auth ∨ owner ∈ auth
  | .forcerequest _ cnt1 cnt2 _ _ => cnt1 ∈ auth ∨ cnt2 ∈ auth
  | _ => True

def PostsWarranted (auth : List Name) : Action → Prop
  | .pushmsg _ sender _ _ => sender ∈ auth
  | _ => True

def MarksWarranted (auth : List Name) (state : State) : Action → Prop
  | .deletemesgs scope => (state.messages scope).rows ≠ [] → Member auth state scope
  | .seenmsg scope _ => ∀ row, (state.messages scope).indexLowerBound Messages.bySeen 0 = some row →
      row.seen ≠ 1 → Member auth state scope
  | _ => True

structure Warranted (auth : List Name) (state : State) (action : Action) : Prop where
  profiles : ProfilesWarranted auth state action
  requests : RequestsWarranted auth state action
  posts : PostsWarranted auth action
  marks : MarksWarranted auth state action

theorem ProfileStep.authorised_iff (moved : ProfileStep context action state next)
    (outside : context.self ∉ context.auth) :
    ProfilesAuthorised context.auth state next ↔ ProfilesWarranted context.auth state action := by
  have unguarded (quiet : action ≠ .rrprofiles) : ProfilesWarranted context.auth state action := by
    cases action <;> trivial
  cases moved with
  | @registered row quiet absent result =>
    refine iff_of_true (fun x old held changed => ?_) (unguarded quiet)
    rw [Table.key_of_changed held (result ▸ changed)] at held
    cases absent.symm.trans held
  | @edited row quiet authorised result =>
    refine iff_of_true (fun x old held changed => ?_) (unguarded quiet)
    have same := Table.key_of_changed held (result ▸ changed)
    exact Name.value_inj.mp same ▸ authorised
  | deleted authorised => exact absurd authorised outside
  | emptied called result =>
    subst called
    constructor
    · intro authorised row present
      refine authorised row.owner row (Table.find?_self present) ?_
      simp [result]
    · intro warranted x row held _
      obtain ⟨present, place⟩ := Table.find?_eq_some.mp held
      exact Name.value_inj.mp place ▸ warranted row present
  | untouched quiet same =>
    refine iff_of_true (fun x old held changed => ?_) (unguarded quiet)
    rw [same] at changed
    exact absurd held changed

/-- Two rows put in free places need authority for the two alone. -/
private theorem RequestsAuthorised.of_puts {a b : Name} {first second : Requests}
    (book : next.book = (state.book.put a first).put b second)
    (freeFirst : state.book a first.scope = none)
    (freeSecond : state.book.put a first b second.scope = none)
    (warranted : a ∈ auth ∨ first.contact ∈ auth) (warranted' : b ∈ auth ∨ second.contact ∈ auth) :
    RequestsAuthorised auth state next := by
  constructor
  · intro x s row held changed
    rw [book] at changed
    exact absurd (Book.put_old freeSecond (Book.put_old freeFirst held)) changed
  · intro x s row held changed
    rw [book] at held
    rcases Book.put_eq_some.mp held with ⟨rfl, _, rfl⟩ | ⟨_, held⟩
    · exact warranted'
    · rcases Book.put_eq_some.mp held with ⟨rfl, _, rfl⟩ | ⟨_, old⟩
      · exact warranted
      · exact absurd old changed

/-- If no row is added or changed, the rows removed are all that matters. -/
private theorem RequestsAuthorised.of_sub
    (sub : ∀ x s row, next.book x s = some row → state.book x s = some row)
    (warranted : ∀ x s row, state.book x s = some row → next.book x s ≠ some row →
      x ∈ auth ∨ row.contact ∈ auth) : RequestsAuthorised auth state next :=
  ⟨warranted, fun x s row held changed => absurd (sub x s row held) changed⟩

theorem Answered.authorised_iff {owner other : Name} {mine theirs : Requests}
    (answered : Answered owner other mine theirs state next) (authorised : owner ∈ auth) :
    RequestsAuthorised auth state next ↔ CounterpartWarranted auth state owner other := by
  constructor
  · intro rows mine' theirs' found held
    cases answered.found.symm.trans found
    cases answered.counterpart.symm.trans held
    by_cases same : owner = other
    · exact .inl (same ▸ authorised)
    · exact rows.before other mine.scope theirs held (answered.changed same)
  · intro warranted
    have pair := warranted mine theirs answered.found answered.counterpart
    have place {x : Name} {s : UInt64} (differs : next.book x s ≠ state.book x s) :
        s = mine.scope ∧ (x = owner ∨ x = other) := by
      by_contra apart
      exact differs (answered.elsewhere x s apart)
    have either {x : Name} {row : Requests} (here : x = owner ∨ x = other)
        (link : state.links x mine.scope = some row.contact) : x ∈ auth ∨ row.contact ∈ auth := by
      rcases here with rfl | rfl
      · exact .inl authorised
      · have same := Option.some.inj (link.symm.trans (State.links_of_book answered.counterpart))
        rwa [same]
    constructor
    · intro x s row held changed
      obtain ⟨rfl, here⟩ := place fun same => changed (same.trans held)
      exact either here (State.links_of_book held)
    · intro x s row held changed
      obtain ⟨rfl, here⟩ := place fun same => changed (same.symm.trans held)
      exact either here (answered.sub _ _ _ (State.links_of_book held))

theorem RequestsAuthorised.of_edit {owner contact : Name} {updater : Requests → Requests}
    {mine : Requests} (effect : Edited owner contact updater mine state next)
    (authorised : owner ∈ auth) : RequestsAuthorised auth state next := by
  constructor
  · intro x s row held changed
    by_cases here : x = owner
    · exact .inl (here ▸ authorised)
    · simp [effect.book, Book.put, here, held] at changed
  · intro x s row held changed
    rw [effect.book] at held
    rcases Book.put_eq_some.mp held with ⟨rfl, _, _⟩ | ⟨_, old⟩
    · exact .inl authorised
    · exact absurd old changed

theorem cascade_authorised_iff {owner : Name} (book : next.book = state.book.cascade owner) :
    RequestsAuthorised auth state next ↔ RequestsWarranted auth state (.deletereqs owner) := by
  constructor
  · intro rows row present
    have held := State.mem_rows.mp present
    refine ⟨rows.before owner row.scope row held ?_, fun back counterpart => ?_⟩
    · simp [book, Book.cascade]
    · refine rows.before row.contact row.scope back counterpart ?_
      simp [book, Book.cascade, held]
  · intro warranted
    refine .of_sub (fun x s row held => Book.cascade_sub (book ▸ held)) fun x s row held changed => ?_
    by_cases reach : x = owner ∨ ∃ mine, state.book owner s = some mine ∧ mine.contact = x
    · rcases reach with rfl | ⟨mine, mineHeld, rfl⟩
      · have place := State.book_scope held
        exact (warranted row (State.mem_rows.mpr (place ▸ held))).1
      · have place := State.book_scope mineHeld
        exact (warranted mine (State.mem_rows.mpr (place ▸ mineHeld))).2 row (place ▸ held)
    · rw [book, Book.cascade, if_neg reach] at changed
      exact absurd held changed

theorem drop_authorised_iff {owner contact : Name} {row : Requests}
    (found : (state.requests contact.value).indexFind Requests.byContact owner.value = some row)
    (book : next.book = state.book.drop contact row.scope) :
    RequestsAuthorised auth state next ↔
      RequestsWarranted auth state (.deletereqs2 owner contact) := by
  obtain ⟨held, names⟩ := State.book_of_lookup found
  constructor
  · intro rows
    have gone := rows.before contact row.scope row held (by simp [book, Book.drop])
    rwa [names] at gone
  · intro warranted
    refine .of_sub (fun x s row held => Book.drop_sub (book ▸ held)) fun x s other old changed => ?_
    by_cases here : x = contact ∧ s = row.scope
    · obtain ⟨rfl, rfl⟩ := here
      cases held.symm.trans old
      rw [names]
      exact warranted
    · rw [book, Book.drop, if_neg here] at changed
      exact absurd old changed

theorem forced_authorised_iff {scope : UInt64} {cnt1 cnt2 : Name} {key1 key2 : ByteString}
    (effect : Forced context scope cnt1 cnt2 key1 key2 state next) :
    RequestsAuthorised auth state next ↔
      RequestsWarranted auth state (.forcerequest scope cnt1 cnt2 key1 key2) := by
  have free : state.book.put cnt1 ((Requests.fresh (context.heap 0)).forced scope cnt2 key2)
      cnt2 scope = none := by
    simp [Book.put, effect.distinct.symm, effect.freeSecond]
  constructor
  · intro rows
    have added := rows.after cnt2 scope _ (by rw [effect.book, Book.put]; exact if_pos ⟨rfl, rfl⟩)
      (by simp [effect.freeSecond])
    exact added.symm
  · intro warranted
    exact .of_puts effect.book effect.freeFirst free warranted warranted.symm

theorem requests_authorised_iff (committed : step host state tx = some next)
    (outside : host.self ∉ tx.auth) :
    RequestsAuthorised tx.auth state next ↔ RequestsWarranted tx.auth state tx.action := by
  cases answers : tx.action.answer? with
  | some pair =>
    obtain ⟨authorised, mine, theirs, answered⟩ := step_answered committed answers
    have guard : RequestsWarranted tx.auth state tx.action =
        CounterpartWarranted tx.auth state pair.1 pair.2 := by
      cases action : tx.action <;> rw [action] at answers <;> cases answers <;> rfl
    rw [guard]
    exact answered.authorised_iff authorised
  | none =>
    cases (step_effect committed).book with
    | opened called effect =>
      rw [called]
      refine iff_of_true (.of_puts effect.book effect.freeTo ?_ (.inr effect.authorised)
        (.inl effect.authorised)) trivial
      simp [Book.put, effect.distinct, effect.freeFrom]
    | edited called authorised effect =>
      refine iff_of_true (.of_edit effect authorised) ?_
      cases action : tx.action <;> rw [action] at called <;> trivial
    | deleted _ authorised => exact absurd authorised outside
    | cascaded called book =>
      rw [called]
      exact cascade_authorised_iff book
    | dropped called found book =>
      rw [called]
      exact drop_authorised_iff found book
    | forced called effect =>
      rw [called]
      exact forced_authorised_iff effect
    | untouched quiet book =>
      refine iff_of_true ⟨?_, ?_⟩ ?_
      · intro x s row held changed
        rw [book] at changed
        exact absurd held changed
      · intro x s row held changed
        rw [book] at held
        exact absurd held changed
      · cases action : tx.action <;> rw [action] at quiet <;> trivial
    | accepted called => simp [called, Action.answer?] at answers
    | dissolved called =>
      rw [Action.answer?_of_dissolve? called] at answers
      cases answers

theorem posts_authorised_iff (committed : step host state tx = some next) :
    PostsAuthorised tx.auth state next ↔ PostsWarranted tx.auth tx.action := by
  constructor
  · intro authorised
    cases action : tx.action with
    | pushmsg scope sender data replyTo =>
      have called : tx.action.post? = some (scope.value, sender, data, 1) := by rw [action]; rfl
      obtain ⟨newId, replyTo, chosen, result⟩ := step_posted committed called
      have added := congrArg (fun table => Table.find? table newId) result
      exact authorised scope.value newId _ (newMessageId_fresh chosen)
        (added.trans (Table.find?_put_self _ _))
    | _ => trivial
  · intro warranted s id row absent added
    cases step_messages committed s with
    | posted called authorised chosen result =>
      rw [result, Table.find?_put] at added
      split at added
      · cases added
        cases action : tx.action <;> rw [action] at called warranted <;> cases called
        · exact authorised rfl
        · exact warranted
      · cases absent.symm.trans added
    | marked _ _ _ marks =>
      rcases marks id with same | marked
      · cases (same.trans absent).symm.trans added
      · rw [marked, absent] at added
        cases added
    | unmarked _ _ same => rw [same, absent] at added; cases added
    | wiped _ result => rw [result] at added; cases added
    | untouched _ same => rw [same, absent] at added; cases added

theorem marks_authorised_iff (committed : step host state tx = some next) :
    MarksAuthorised tx.auth state next ↔ MarksWarranted tx.auth state tx.action := by
  constructor
  · intro authorised
    cases action : tx.action with
    | deletemesgs scope =>
      intro filled
      obtain ⟨row, present⟩ := List.exists_mem_of_ne_nil _ filled
      refine authorised scope row.id row (Table.find?_self present) ?_
      cases step_messages committed scope with
      | wiped _ result => simp [result]
      | posted called => rw [action] at called; cases called
      | marked called => rw [action] at called; cases called
      | unmarked called => rw [action] at called; cases called
      | untouched quiet => rw [action] at quiet; exact absurd rfl quiet
    | seenmsg scope receiver =>
      intro row first unseen
      have held := Table.find?_self (Table.leastWhere_eq_some.mp first).1
      refine authorised scope row.id row held fun kept => ?_
      cases step_messages committed scope with
      | marked _ first' _ _ start =>
        cases first.symm.trans first'
        have flag := congrArg Messages.seen (Option.some.inj (kept.symm.trans start))
        exact unseen flag
      | unmarked _ seen => exact unseen (seen row first)
      | posted called => rw [action] at called; cases called
      | wiped called => rw [action] at called; cases called
      | untouched quiet => rw [action] at quiet; exact absurd rfl quiet
    | _ => trivial
  · intro warranted s id row held changed
    cases step_messages committed s with
    | posted _ _ chosen result =>
      rw [Table.key_of_changed held (result ▸ changed)] at held
      cases (newMessageId_fresh chosen).symm.trans held
    | marked called first unseen =>
      rw [called] at warranted
      exact warranted _ first unseen
    | wiped called =>
      rw [called] at warranted
      exact warranted (List.ne_nil_of_mem (Table.find?_eq_some.mp held).1)
    | unmarked _ _ same => rw [same] at changed; exact absurd held changed
    | untouched _ same => rw [same] at changed; exact absurd held changed

/-- In every state, a committed action without the authority of the contract account keeps to what its
authorisers may do exactly if the actions that ask for too little are warranted. -/
theorem authority_iff (committed : step host state tx = some next) (outside : host.self ∉ tx.auth) :
    Authorised tx.auth state next ↔ Warranted tx.auth state tx.action := by
  have profiles : ProfilesAuthorised tx.auth state next ↔ _ :=
    (step_effect committed).onProfiles.authorised_iff outside
  have requests := requests_authorised_iff committed outside
  have posts := posts_authorised_iff committed
  have marks := marks_authorised_iff committed
  constructor
  · intro authorised
    exact ⟨profiles.mp authorised.profiles, requests.mp authorised.requests,
      posts.mp authorised.posts, marks.mp authorised.marks⟩
  · intro warranted
    exact ⟨profiles.mpr warranted.profiles, requests.mpr warranted.requests,
      posts.mpr warranted.posts, marks.mpr warranted.marks⟩

/-- Alice takes her request back. -/
theorem removal_authorised :
    Authorised [alice] (reached chain requested)
      (exec (step chain) (reached chain requested) (.signed alice (.rmcontact alice bob))) := by
  have committed : step chain (reached chain requested) (.signed alice (.rmcontact alice bob)) =
      some (exec (step chain) (reached chain requested) (.signed alice (.rmcontact alice bob))) :=
    committed_exec (by decide +kernel)
  refine (authority_iff committed (by decide)).mpr ⟨trivial, ?_, trivial, trivial⟩
  intro mine theirs found held
  have first : ((reached chain requested).requests alice.value).indexFind Requests.byContact bob.value =
      some (.sent 0 bob (.fresh .zeroed)) := by decide +kernel
  have second : (reached chain requested).book bob 0 =
      some (.received 0 alice "ka" (.fresh .zeroed)) := by decide +kernel
  cases first.symm.trans found
  cases second.symm.trans held
  exact .inr (by decide)

/-- Anyone can erase all that Alice and her contacts hold of one another. -/
theorem erasure_not_authorised :
    ∃ next, step chain (reached chain requested) (.unsigned (.deletereqs alice)) = some next ∧
      chain.self ∉ (Tx.unsigned (.deletereqs alice)).auth ∧
      ¬ Authorised (Tx.unsigned (.deletereqs alice)).auth (reached chain requested) next := by
  refine ⟨_, committed_exec (by decide +kernel), by decide, fun authorised => ?_⟩
  have held : (reached chain requested).book alice 0 = some (.sent 0 bob (.fresh .zeroed)) := by
    decide +kernel
  have gone : (exec (step chain) (reached chain requested) (.unsigned (.deletereqs alice))).book
      alice 0 ≠ some (.sent 0 bob (.fresh .zeroed)) := by decide +kernel
  have owned := authorised.requests.before alice 0 _ held gone
  revert owned
  decide

end LocalChain.K2ultra
