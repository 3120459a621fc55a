import LocalChain.K2ultra.Book

namespace LocalChain.K2ultra

open LocalChain.Inery LocalChain.Inery.MultiIndex LocalChain.Store

variable {host : Host} {context : Context} {action : Action} {state next : State}

/-- The actions that modify one row of the caller's own table, found by its contact. -/
def Action.edit? : Action → Option (Name × Name × (Requests → Requests))
  | .blockcontact owner contact status => some (owner, contact, Requests.setBlocked status)
  | .favcontact owner contact status => some (owner, contact, Requests.setFavorite status)
  | .mutecontact owner contact status => some (owner, contact, Requests.setMuted status)
  | .changealias owner contact newAlias => some (owner, contact, Requests.setAlias newAlias)
  | _ => none

/-- The actions that erase both sides of a contact. -/
def Action.dissolve? : Action → Option (Name × Name)
  | .resprequest owner from' _ false => some (owner, from')
  | .rmcontact owner contact => some (owner, contact)
  | _ => none

/-- The actions that modify the profile of their caller. -/
def Action.profile? : Action → Option Name
  | .changersa owner _ => some owner
  | .setoffname owner _ => some owner
  | .changepsw owner _ => some owner
  | _ => none

/-- The actions that add a message: its scope, sender, data and initial `seen` mark. -/
def Action.post? : Action → Option (UInt64 × Name × ByteString × UInt64)
  | .sendmsg scope sender data _ => some (scope, sender, data, 0)
  | .pushmsg scope sender data _ => some (scope.value, sender, data, 1)
  | _ => none

/-- The actions that only read. -/
def Action.reads : Action → Bool
  | .login .. | .getuserbyhash .. | .getunseen .. => true
  | _ => false

/-- The actions that can write a requests table. -/
def Action.writesRequests : Action → Bool
  | .sendrequest .. | .resprequest .. | .rmcontact .. | .forcerequest .. => true
  | .deleteuser .. | .deletereqs .. | .deletereqs2 .. => true
  | .blockcontact .. | .favcontact .. | .mutecontact .. | .changealias .. => true
  | _ => false

/-- Everything a committed action can do. -/
inductive Effect (context : Context) (action : Action) (state next : State) : Prop where
  | opened {from' to' : Name} {key : ByteString} {scope : UInt64}
      (called : action = .sendrequest from' to' key)
      (effect : Opened context from' to' key scope state next)
  | accepted {owner from' : Name} {key : ByteString} {mine theirs : Requests}
      (called : action = .resprequest owner from' key true) (authorised : owner ∈ context.auth)
      (effect : Accepted owner from' key mine theirs state next)
  | dissolved {owner contact : Name} {mine theirs : Requests}
      (called : action.dissolve? = some (owner, contact)) (authorised : owner ∈ context.auth)
      (effect : Dissolved owner contact mine theirs state next)
  | edited {owner contact : Name} {updater : Requests → Requests} {mine : Requests}
      (called : action.edit? = some (owner, contact, updater)) (authorised : owner ∈ context.auth)
      (effect : Edited owner contact updater mine state next)
  | deleted {owner : Name} (called : action = .deleteuser owner)
      (authorised : context.self ∈ context.auth)
      (result : next = { state with profiles := state.profiles.erase owner.value }.setRequests
        owner.value .empty)
  | cascaded {owner : Name} (called : action = .deletereqs owner)
      (book : next.book = state.book.cascade owner) (elsewhere : OnlyRequests state next)
  | dropped {owner contact : Name} {row : Requests} (called : action = .deletereqs2 owner contact)
      (found : (state.requests contact.value).indexFind Requests.byContact owner.value = some row)
      (result : next = state.setRequests contact.value ((state.requests contact.value).erase row.scope))
  | forced {scope : UInt64} {cnt1 cnt2 : Name} {key1 key2 : ByteString}
      (called : action = .forcerequest scope cnt1 cnt2 key1 key2)
      (effect : Forced context scope cnt1 cnt2 key1 key2 state next)
  | registered {owner : Name} {password twordhash rsaPub : ByteString} {row : Profiles}
      (called : action = .reguser owner password twordhash rsaPub) (authorised : owner ∈ context.auth)
      (absent : state.profiles.find? owner.value = none) (named : row.owner = owner)
      (result : next = { state with profiles := state.profiles.put row })
  | profiled {owner : Name} {row updated : Profiles} (called : action.profile? = some owner)
      (authorised : owner ∈ context.auth) (found : state.profiles.find? owner.value = some row)
      (named : updated.owner = row.owner)
      (result : next = { state with profiles := state.profiles.put updated })
  | unprofiled (called : action = .rrprofiles) (result : next = { state with profiles := .empty })
  | numbered {adrs : AdressesTable} (called : action = .addadr ∨ ∃ max, action = .pump max)
      (grown : ∀ k, (state.adresses.find? k).isSome → (adrs.find? k).isSome)
      (result : next = { state with adresses := adrs })
  | unnumbered (called : action = .rraddr) (result : next = { state with adresses := .empty })
  | posted {scope newId replyTo seen : UInt64} {sender : Name} {data : ByteString}
      (called : action.post? = some (scope, sender, data, seen))
      (authorised : seen = 0 → sender ∈ context.auth)
      (chosen : newMessageId (state.messages scope) = .ok newId)
      (result : next = state.setMessages scope ((state.messages scope).put
        ((Messages.fresh (context.heap 0)).posted newId context.now sender data replyTo seen)))
  | marked {scope : UInt64} {receiver : Name} {itr : Messages} {left : Nat} {messages : MessagesTable}
      (called : action = .seenmsg scope receiver)
      (first : (state.messages scope).indexLowerBound Messages.bySeen 0 = some itr)
      (unseen : itr.seen ≠ 1)
      (walked : seenmsgLoop 1000 (some itr) (state.messages scope) = .ok (left, messages))
      (result : next = state.setMessages scope messages)
  | unmarked {scope : UInt64} {receiver : Name} (called : action = .seenmsg scope receiver)
      (seen : ∀ row, (state.messages scope).indexLowerBound Messages.bySeen 0 = some row → row.seen = 1)
      (result : next = state)
  | wiped {scope : UInt64} (called : action = .deletemesgs scope)
      (result : next = state.setMessages scope .empty)
  | idle (called : action.reads) (result : next = state)

theorem Requests.annotates_of_edit {owner contact : Name} {updater : Requests → Requests}
    (called : action.edit? = some (owner, contact, updater)) : Requests.Annotates updater := by
  cases action <;> simp only [Action.edit?, reduceCtorEq, Option.some.injEq, Prod.mk.injEq] at called <;>
    obtain ⟨_, _, rfl⟩ := called
  · exact Requests.annotates_setBlocked _
  · exact Requests.annotates_setFavorite _
  · exact Requests.annotates_setMuted _
  · exact Requests.annotates_setAlias _

private theorem flag_effect {owner contact : Name} {updater : Requests → Requests}
    (called : action.edit? = some (owner, contact, updater))
    (committed : flagContact context owner contact updater state = .ok next) :
    Effect context action state next := by
  obtain ⟨authorised, edited⟩ := flagContact_ok committed
  obtain ⟨_, effect⟩ := editContact_edited edited
  exact .edited called authorised effect

private theorem profile_effect {owner : Name} {missing : String} {updater : Profiles → Profiles}
    (called : action.profile? = some owner)
    (committed : editProfile context owner missing updater state = .ok next)
    (named : ∀ row, (updater row).owner = row.owner) :
    Effect context action state next := by
  obtain ⟨authorised, row, found, _, rfl⟩ := editProfile_ok committed
  exact .profiled called authorised found (named row) rfl

@[simp] theorem silent_eq_ok {outcome : Except Abort State} {printed : List Printed} :
    silent outcome = .ok (next, printed) ↔ outcome = .ok next ∧ printed = [] := by
  cases outcome <;> simp [silent, eq_comm]

theorem dispatch_effect {printed : List Printed}
    (committed : dispatch context state action = .ok (next, printed)) :
    Effect context action state next := by
  cases action <;> simp only [dispatch, silent_eq_ok] at committed
  case sendrequest from' to' key =>
    obtain ⟨scope, effect⟩ := sendrequest_opened committed.1
    exact .opened rfl effect
  case resprequest owner from' key accept =>
    obtain ⟨authorised, mine, theirs, effect⟩ := resprequest_ok committed.1
    cases accept with
    | true => exact .accepted rfl authorised effect
    | false => exact .dissolved rfl authorised effect
  case rmcontact owner contact =>
    obtain ⟨authorised, mine, theirs, effect⟩ := rmcontact_ok committed.1
    exact .dissolved rfl authorised effect
  case blockcontact => exact flag_effect rfl committed.1
  case favcontact => exact flag_effect rfl committed.1
  case mutecontact => exact flag_effect rfl committed.1
  case changealias =>
    obtain ⟨authorised, edited⟩ := changealias_ok committed.1
    obtain ⟨_, effect⟩ := editContact_edited edited
    exact .edited rfl authorised effect
  case deleteuser =>
    obtain ⟨authorised, _, result⟩ := deleteuser_ok committed.1
    exact .deleted rfl authorised result
  case deletereqs =>
    obtain ⟨elsewhere, book⟩ := deletereqs_ok committed.1
    exact .cascaded rfl book elsewhere
  case deletereqs2 =>
    obtain ⟨row, found, result⟩ := deletereqs2_ok committed.1
    exact .dropped rfl found result
  case forcerequest => exact .forced rfl (forcerequest_forced committed.1)
  case reguser =>
    obtain ⟨authorised, absent, result⟩ := reguser_ok committed.1
    exact .registered rfl authorised absent rfl result
  case changersa => exact profile_effect rfl committed.1 fun _ => rfl
  case changepsw => exact profile_effect rfl committed.1 fun _ => rfl
  case setoffname => exact profile_effect rfl committed.1 fun _ => rfl
  case rrprofiles => exact .unprofiled rfl (rrprofiles_ok committed.1)
  case addadr =>
    obtain ⟨scope, _, result⟩ := addadr_ok committed.1
    exact .numbered (.inl rfl) (fun _ => Table.find?_put_isSome _) result
  case pump =>
    obtain ⟨_, pumped, result⟩ := pump_ok committed.1
    exact .numbered (.inr ⟨_, rfl⟩) (fun _ => pumpLoop_keeps pumped) result
  case rraddr => exact .unnumbered rfl (rraddr_ok committed.1)
  case sendmsg =>
    obtain ⟨authorised, newId, posted⟩ := sendmsg_ok committed
    obtain ⟨chosen, result⟩ := post_ok posted
    exact .posted rfl (fun _ => authorised) chosen result
  case pushmsg =>
    obtain ⟨newId, posted⟩ := pushmsg_ok committed.1
    obtain ⟨chosen, result⟩ := post_ok posted
    exact .posted rfl (fun zero => absurd zero (by decide)) chosen result
  case seenmsg =>
    rcases seenmsg_ok committed with ⟨result, seen⟩ | ⟨itr, left, messages, first, unseen, walked, result⟩
    · exact .unmarked rfl seen result
    · exact .marked rfl first unseen walked result
  case deletemesgs => exact .wiped rfl (deletemesgs_ok committed.1)
  case login => exact .idle rfl (login_ok committed.1)
  case getuserbyhash => exact .idle rfl (getuserbyhash_ok committed)
  case getunseen => exact .idle rfl (getunseen_ok committed)

theorem step_isSome {tx : Tx} :
    (step host state tx).isSome ↔ ∃ result, dispatch (tx.context host) state tx.action = .ok result := by
  unfold step
  cases dispatch (tx.context host) state tx.action <;> simp

theorem step_eq_some {tx : Tx} :
    step host state tx = some next ↔
      ∃ printed, dispatch (tx.context host) state tx.action = .ok (next, printed) := by
  unfold step
  cases dispatch (tx.context host) state tx.action <;> simp [Prod.ext_iff]

theorem step_effect {tx : Tx} (committed : step host state tx = some next) :
    Effect (tx.context host) tx.action state next := by
  obtain ⟨_, done⟩ := step_eq_some.mp committed
  exact dispatch_effect done

/-- A conversation id, once given out, stays in the id table until `rraddr` empties it. -/
theorem Effect.adresses (effect : Effect context action state next) (kept : action ≠ .rraddr)
    {k : UInt64} (present : (state.adresses.find? k).isSome) : (next.adresses.find? k).isSome := by
  cases effect with
  | opened _ effect =>
    rw [effect.adresses]
    exact Table.find?_put_isSome _ present
  | accepted _ _ effect => exact effect.elsewhere.adresses ▸ present
  | dissolved _ _ effect => exact effect.elsewhere.adresses ▸ present
  | edited _ _ effect => exact effect.elsewhere.adresses ▸ present
  | cascaded _ _ elsewhere => exact elsewhere.adresses ▸ present
  | forced _ effect => exact effect.elsewhere.adresses ▸ present
  | numbered _ grown result => exact result ▸ grown k present
  | unnumbered called _ => exact absurd called kept
  | _ => subst next; exact present

/-- What a committed action can do to the book. -/
inductive BookStep (context : Context) (action : Action) (state next : State) : Prop where
  | opened {from' to' : Name} {key : ByteString} {scope : UInt64}
      (called : action = .sendrequest from' to' key)
      (effect : Opened context from' to' key scope state next)
  | accepted {owner from' : Name} {key : ByteString} {mine theirs : Requests}
      (called : action = .resprequest owner from' key true) (authorised : owner ∈ context.auth)
      (effect : Accepted owner from' key mine theirs state next)
  | dissolved {owner contact : Name} {mine theirs : Requests}
      (called : action.dissolve? = some (owner, contact)) (authorised : owner ∈ context.auth)
      (effect : Dissolved owner contact mine theirs state next)
  | edited {owner contact : Name} {updater : Requests → Requests} {mine : Requests}
      (called : action.edit? = some (owner, contact, updater)) (authorised : owner ∈ context.auth)
      (effect : Edited owner contact updater mine state next)
  | deleted {owner : Name} (called : action = .deleteuser owner)
      (authorised : context.self ∈ context.auth) (book : next.book = state.book.clear owner)
  | cascaded {owner : Name} (called : action = .deletereqs owner)
      (book : next.book = state.book.cascade owner)
  | dropped {owner contact : Name} {row : Requests} (called : action = .deletereqs2 owner contact)
      (found : (state.requests contact.value).indexFind Requests.byContact owner.value = some row)
      (book : next.book = state.book.drop contact row.scope)
  | forced {scope : UInt64} {cnt1 cnt2 : Name} {key1 key2 : ByteString}
      (called : action = .forcerequest scope cnt1 cnt2 key1 key2)
      (effect : Forced context scope cnt1 cnt2 key1 key2 state next)
  | untouched (quiet : action.writesRequests = false) (book : next.book = state.book)

theorem Effect.book (effect : Effect context action state next) :
    BookStep context action state next := by
  cases effect with
  | opened called effect => exact .opened called effect
  | accepted called authorised effect => exact .accepted called authorised effect
  | dissolved called authorised effect => exact .dissolved called authorised effect
  | edited called authorised effect => exact .edited called authorised effect
  | deleted called authorised result =>
    exact .deleted called authorised (result ▸ State.book_clear)
  | cascaded called book => exact .cascaded called book
  | dropped called found result => exact .dropped called found (result ▸ State.book_erase _)
  | forced called effect => exact .forced called effect
  | numbered called _ result =>
    rcases called with rfl | ⟨_, rfl⟩ <;> exact .untouched rfl (by rw [result]; rfl)
  | profiled called _ _ _ result =>
    refine .untouched ?_ (by rw [result]; rfl)
    cases action <;> first | rfl | cases called
  | posted called _ _ result =>
    refine .untouched ?_ (by rw [result]; rfl)
    cases action <;> first | rfl | cases called
  | idle called result =>
    refine .untouched ?_ (by rw [result])
    cases action <;> first | rfl | cases called
  | registered called _ _ _ result => exact .untouched (called ▸ rfl) (by rw [result]; rfl)
  | unprofiled called result => exact .untouched (called ▸ rfl) (by rw [result]; rfl)
  | unnumbered called result => exact .untouched (called ▸ rfl) (by rw [result]; rfl)
  | marked called _ _ _ result => exact .untouched (called ▸ rfl) (by rw [result]; rfl)
  | unmarked called _ result => exact .untouched (called ▸ rfl) (by rw [result])
  | wiped called result => exact .untouched (called ▸ rfl) (by rw [result]; rfl)

theorem BookStep.opened_of {from' to' : Name} {key : ByteString}
    (moved : BookStep context action state next) (called : action = .sendrequest from' to' key) :
    ∃ scope, Opened context from' to' key scope state next := by
  subst called
  cases moved with
  | opened called effect =>
    cases called
    exact ⟨_, effect⟩
  | _ => contradiction

theorem BookStep.accepted_of {owner from' : Name} {key : ByteString}
    (moved : BookStep context action state next) (called : action = .resprequest owner from' key true) :
    owner ∈ context.auth ∧ ∃ mine theirs, Accepted owner from' key mine theirs state next := by
  subst called
  cases moved with
  | accepted called authorised effect =>
    cases called
    exact ⟨authorised, _, _, effect⟩
  | _ => contradiction

theorem BookStep.edited_of {owner contact : Name} {updater : Requests → Requests}
    (moved : BookStep context action state next) (called : action.edit? = some (owner, contact, updater)) :
    ∃ mine, Edited owner contact updater mine state next := by
  cases moved with
  | edited edits _ effect =>
    cases called.symm.trans edits
    exact ⟨_, effect⟩
  | _ => cases action <;> contradiction

/-- Where a row that is there after a committed action comes from. -/
inductive Origin (context : Context) (action : Action) (state next : State) (x : Name) (s : UInt64)
    (row : Requests) : Prop where
  | kept (held : state.book x s = some row)
  | received {from' : Name} {key : ByteString} (called : action = .sendrequest from' x key)
      (effect : Opened context from' x key s state next)
      (result : row = (Requests.fresh (context.heap 0)).received s from' key)
  | sent {to' : Name} {key : ByteString} (called : action = .sendrequest x to' key)
      (effect : Opened context x to' key s state next)
      (result : row = (Requests.fresh (context.heap 1)).sent s to')
  | forced (called : action.name = .forcerequest)
  | answered {owner : Name} {key : ByteString} {mine theirs : Requests}
      (called : action = .resprequest owner x key true) (place : mine.scope = s)
      (effect : Accepted owner x key mine theirs state next) (result : row = theirs.answered key)
  | confirmed {from' : Name} {key : ByteString} {mine theirs : Requests}
      (called : action = .resprequest x from' key true) (place : mine.scope = s)
      (effect : Accepted x from' key mine theirs state next) (result : row = mine.confirmed)
  | edited {contact : Name} {updater : Requests → Requests} {mine : Requests}
      (called : action.edit? = some (x, contact, updater)) (place : mine.scope = s)
      (effect : Edited x contact updater mine state next) (result : row = updater mine)

private theorem Opened.origin {from' to' x : Name} {key : ByteString} {scope s : UInt64} {row : Requests}
    (effect : Opened context from' to' key scope state next)
    (called : action = .sendrequest from' to' key) (held : next.book x s = some row) :
    Origin context action state next x s row := by
  rw [effect.book] at held
  rcases Book.put_eq_some.mp held with ⟨rfl, rfl, result⟩ | ⟨_, held⟩
  · exact .sent called effect result
  · rcases Book.put_eq_some.mp held with ⟨rfl, rfl, result⟩ | ⟨_, held⟩
    · exact .received called effect result
    · exact .kept held

private theorem Accepted.origin {owner from' x : Name} {key : ByteString} {mine theirs row : Requests}
    {s : UInt64} (effect : Accepted owner from' key mine theirs state next)
    (called : action = .resprequest owner from' key true) (held : next.book x s = some row) :
    Origin context action state next x s row := by
  rw [effect.book] at held
  rcases Book.put_eq_some.mp held with ⟨rfl, place, result⟩ | ⟨_, held⟩
  · have same : mine.scope = s := place.symm
    exact .confirmed called same effect result
  · rcases Book.put_eq_some.mp held with ⟨rfl, place, result⟩ | ⟨_, held⟩
    · have same := State.book_scope effect.counterpart
      exact .answered called (same.symm.trans place.symm) effect result
    · exact .kept held

theorem BookStep.origin {x : Name} {s : UInt64} {row : Requests}
    (moved : BookStep context action state next) (held : next.book x s = some row) :
    Origin context action state next x s row := by
  cases moved with
  | opened called effect => exact effect.origin called held
  | accepted called _ effect => exact effect.origin called held
  | dissolved _ _ effect =>
    rw [effect.book] at held
    exact .kept (Book.drop_sub (Book.drop_sub held))
  | @edited _ _ updater mine called _ effect =>
    have annotates := Requests.annotates_of_edit called
    rw [effect.book] at held
    rcases Book.put_eq_some.mp held with ⟨rfl, place, result⟩ | ⟨_, held⟩
    · exact .edited called ((annotates.scope mine).symm.trans place.symm) effect result
    · exact .kept held
  | deleted _ _ book => exact .kept (Book.clear_sub (book ▸ held))
  | cascaded _ book => exact .kept (Book.cascade_sub (book ▸ held))
  | dropped _ _ book => exact .kept (Book.drop_sub (book ▸ held))
  | forced called _ => exact .forced (called ▸ rfl)
  | untouched _ book => exact .kept (book ▸ held)

end LocalChain.K2ultra
