import LocalChain.K2ultra.State

namespace LocalChain.K2ultra

open LocalChain.Inery LocalChain.Inery.MultiIndex LocalChain.Store

/-! Account actions. -/

def validateAccounts (owner from' : Name) (state : State) : Except Abort Unit := do
  check (state.profiles.find? owner.value).isSome "Owner account is not registered"
  check (state.profiles.find? from'.value).isSome "From account is not registered"

/-- The constructor lambda of `reguser`. -/
def Profiles.registered (owner : Name) (password : ByteString) (twordhash : UInt64) (rsaPub : ByteString)
    (row : Profiles) : Profiles :=
  { row with owner := owner, password := password, twordhash := twordhash, rsaPub := rsaPub }

def reguser (context : Context) (owner : Name) (password twordhash rsaPub : ByteString)
    (state : State) : Except Abort State := do
  context.requireAuth owner
  check (state.profiles.find? owner.value).isNone "Account with that name is already registered!"
  let stivalue := context.stringToUInt64 twordhash
  let profiles ← emplace state.profiles (Profiles.fresh (context.heap 0))
    (Profiles.registered owner password stivalue rsaPub)
  return { state with profiles := profiles }

def login (context : Context) (owner : Name) (state : State) : Except Abort State := do
  context.requireAuth owner
  check (state.profiles.find? owner.value).isSome "Account is not registered"
  return state

def getuserbyhash (context : Context) (s : ByteString) (state : State) :
    Except Abort (State × List Printed) := do
  context.requireAuth context.self
  let stivalue := context.stringToUInt64 s
  match state.profiles.indexFind Profiles.byTwords stivalue with
  | none => throw (.check "User not found")
  | some itr =>
    match state.profiles.find? itr.owner.value with
    | none => throw (.check "unable to find key")
    | some foundUser => return (state, [.name foundUser.owner])

def deleteuser (context : Context) (owner : Name) (state : State) : Except Abort State := do
  context.requireAuth context.self
  let itr := state.profiles.find? owner.value
  check itr.isSome "User doesn't exist"
  let (_, profiles) ← erase state.profiles itr
  let requests ← eraseAll (state.requests owner.value)
  return { state with profiles := profiles }.setRequests owner.value requests

/-- The part that `changersa`, `setoffname` and `changepsw` share. -/
def editProfile (context : Context) (owner : Name) (missing : String) (updater : Profiles → Profiles)
    (state : State) : Except Abort State := do
  context.requireAuth owner
  let itr := state.profiles.find? owner.value
  check itr.isSome missing
  let profiles ← modify state.profiles itr updater
  return { state with profiles := profiles }

def changersa (context : Context) (owner : Name) (rsaPub : ByteString) : State → Except Abort State :=
  editProfile context owner "Account with that name is already registered!"
    fun row => { row with rsaPub := rsaPub }

def setoffname (context : Context) (owner : Name) (officialName : ByteString) :
    State → Except Abort State :=
  editProfile context owner "Owner account is not registered"
    fun row => { row with officialName := officialName }

def changepsw (context : Context) (owner : Name) (password : ByteString) : State → Except Abort State :=
  editProfile context owner "Owner account is not registered"
    fun row => { row with password := password }

def rrprofiles (state : State) : Except Abort State := do
  let profiles ← eraseAll state.profiles
  return { state with profiles := profiles }

/-! Requests and contacts. -/

/-- `_requests2` is a second table object: where the contact is the owner itself, it finds the row
before the first object erases it, and its own `erase` is then refused. -/
def deletereqsLoop (owner : Name) : Nat → Option Requests → State → Except Abort State
  | _, none, state => return state
  | 0, some _, _ => throw .deadline
  | fuel + 1, some reqIt, state => do
    let contactName := reqIt.contact
    let scope := reqIt.scope
    let reqIt2 := (state.requests contactName.value).find? scope
    let (next, requests) ← erase (state.requests owner.value) (some reqIt)
    let erased := state.setRequests owner.value requests
    if reqIt2.isSome then
      let (_, requests2) ← erase (erased.requests contactName.value) reqIt2
      deletereqsLoop owner fuel next (erased.setRequests contactName.value requests2)
    else
      deletereqsLoop owner fuel next erased

def deletereqs (owner : Name) (state : State) : Except Abort State :=
  let requests := state.requests owner.value
  deletereqsLoop owner requests.rows.length requests.first? state

def deletereqs2 (owner contact : Name) (state : State) : Except Abort State := do
  let requests := state.requests contact.value
  let reqIt := requests.indexFind Requests.byContact owner.value
  check reqIt.isSome "Contact does not have owner as request"
  let (_, result) ← erase requests reqIt
  return state.setRequests contact.value result

/-- The row that the addressee of a request gets. -/
def Requests.received (scope : UInt64) (from' : Name) (key : ByteString) (row : Requests) : Requests :=
  { row with scope := scope, contact := from', «alias» := "", key := key }

/-- The row that the sender of a request gets. -/
def Requests.sent (scope : UInt64) (to' : Name) (row : Requests) : Requests :=
  { row with scope := scope, contact := to', «alias» := "", pending := true }

def sendrequest (context : Context) (from' to' : Name) (key : ByteString) (state : State) :
    Except Abort State := do
  context.requireAuth from'
  validateAccounts from' to' state
  let scope ← availablePrimaryKey unsetNextPrimaryKey state.adresses
  let reqIt := (state.requests to'.value).indexFind Requests.byContact from'.value
  check reqIt.isNone "Request already sent to this user"
  let reqIt2 := (state.requests from'.value).indexFind Requests.byContact to'.value
  check reqIt2.isNone "You have pending request from this user"
  let requests ← emplace (state.requests to'.value) (Requests.fresh (context.heap 0))
    (Requests.received scope from' key)
  let received := state.setRequests to'.value requests
  let requests2 ← emplace (received.requests from'.value) (Requests.fresh (context.heap 1))
    (Requests.sent scope to')
  let sent := received.setRequests from'.value requests2
  let adrs ← emplace sent.adresses (Adresses.fresh (context.heap 2)) fun row =>
    { row with scope := scope }
  return { sent with adresses := adrs }

/-- What an acceptance does to the row of the account that is answered. -/
def Requests.answered (key : ByteString) (row : Requests) : Requests :=
  { row with key := key, pending := false, cntct := true }

/-- What an acceptance does to the row of the account that answers. -/
def Requests.confirmed (row : Requests) : Requests :=
  { row with pending := false, cntct := true }

/-- Rows are read through the table objects made at the start, which keep what they once loaded,
and written to the tables as they are by then. -/
def resprequest (context : Context) (owner from' : Name) (key : ByteString) (accept : Bool)
    (state : State) : Except Abort State := do
  context.requireAuth owner
  check (state.profiles.find? owner.value).isSome "Owner account is not reqistered"
  check (state.profiles.find? from'.value).isSome "From account is not reqistered"
  let ownersRequests := state.requests owner.value
  let respondersRequests := state.requests from'.value
  match ownersRequests.indexFind Requests.byContact from'.value with
  | none => throw (.check "Request not found for this combination of owner and from")
  | some reqIt =>
    let scope := reqIt.scope
    if accept then
      match respondersRequests.find? scope with
      | none => throw (.check "Request dont exists")
      | some newReqIt =>
        check (!newReqIt.cntct) "You are already contacts"
        let responders ← modify respondersRequests (some newReqIt) (Requests.answered key)
        let answered := state.setRequests from'.value responders
        let owners ← modify (answered.requests owner.value) (ownersRequests.find? scope)
          Requests.confirmed
        return answered.setRequests owner.value owners
    else
      let (_, owners) ← erase ownersRequests (ownersRequests.find? scope)
      let erased := state.setRequests owner.value owners
      let responders := erased.requests from'.value
      let (_, responders) ← erase responders (responders.find? scope)
      return erased.setRequests from'.value responders

def rmcontact (context : Context) (owner contact : Name) (state : State) : Except Abort State := do
  context.requireAuth owner
  let req1 := state.requests owner.value
  let req2 := state.requests contact.value
  match req1.indexFind Requests.byContact contact.value with
  | none => throw (.check "Request not found for this combination of owner and from")
  | some nameItr =>
    let scope := nameItr.scope
    let (_, owners) ← erase req1 (req1.find? scope)
    let erased := state.setRequests owner.value owners
    let (_, contacts) ← erase (erased.requests contact.value) (req2.find? scope)
    return erased.setRequests contact.value contacts

/-- Find the owner's row by the contact index, then again by its primary key, and modify it. -/
def editContact (owner contact : Name) (missing : String) (updater : Requests → Requests)
    (state : State) : Except Abort State := do
  let req1 := state.requests owner.value
  match req1.indexFind Requests.byContact contact.value with
  | none => throw (.check missing)
  | some nameItr =>
    let requests ← modify req1 (req1.find? nameItr.scope) updater
    return state.setRequests owner.value requests

/-- The part that `blockcontact`, `favcontact` and `mutecontact` share. -/
def flagContact (context : Context) (owner contact : Name) (updater : Requests → Requests)
    (state : State) : Except Abort State := do
  validateAccounts owner contact state
  context.requireAuth owner
  editContact owner contact "Contact not found" updater state

def Requests.setBlocked (status : Bool) (row : Requests) : Requests :=
  if status then { row with blocked := true, cntct := false, favorite := false }
  else { row with blocked := false, cntct := true }

def blockcontact (context : Context) (owner contact : Name) (status : Bool) :
    State → Except Abort State :=
  flagContact context owner contact (Requests.setBlocked status)

def Requests.setFavorite (status : Bool) (row : Requests) : Requests :=
  if status then { row with favorite := true } else { row with favorite := false }

def favcontact (context : Context) (owner contact : Name) (status : Bool) :
    State → Except Abort State :=
  flagContact context owner contact (Requests.setFavorite status)

def Requests.setMuted (status : Bool) (row : Requests) : Requests :=
  if status then { row with muted := true } else { row with muted := false }

def mutecontact (context : Context) (owner contact : Name) (status : Bool) :
    State → Except Abort State :=
  flagContact context owner contact (Requests.setMuted status)

def Requests.setAlias (newAlias : ByteString) (row : Requests) : Requests :=
  { row with «alias» := newAlias }

def changealias (context : Context) (owner contact : Name) (newAlias : ByteString) (state : State) :
    Except Abort State := do
  context.requireAuth owner
  editContact owner contact "Owner and Contact are not connected" (Requests.setAlias newAlias) state

/-- The constructor lambda of both rows of `forcerequest`. -/
def Requests.forced (scope : UInt64) (contact : Name) (key : ByteString) (row : Requests) : Requests :=
  { row with scope := scope, contact := contact, «alias» := "", key := key, cntct := true }

def forcerequest (context : Context) (scope : UInt64) (cnt1 cnt2 : Name) (key1 key2 : ByteString)
    (state : State) : Except Abort State := do
  let requests ← emplace (state.requests cnt1.value) (Requests.fresh (context.heap 0))
    (Requests.forced scope cnt2 key2)
  let forced := state.setRequests cnt1.value requests
  let requests2 ← emplace (forced.requests cnt2.value) (Requests.fresh (context.heap 1))
    (Requests.forced scope cnt1 key1)
  return forced.setRequests cnt2.value requests2

/-! The table of conversation ids. -/

def addadr (context : Context) (state : State) : Except Abort State := do
  let available ← availablePrimaryKey unsetNextPrimaryKey state.adresses
  let adrs ← emplace state.adresses (Adresses.fresh (context.heap 0)) fun row =>
    { row with scope := available }
  return { state with adresses := adrs }

/-- `for (uint64_t i = 0; i < max; i++)`, with the number of rounds left. -/
def pumpLoop (context : Context) : Nat → UInt64 → AdressesTable → Except Abort AdressesTable
  | 0, _, adrs => return adrs
  | rounds + 1, i, adrs => do
    let result ← emplace adrs (Adresses.fresh (context.heap i.toNat)) fun row => { row with scope := i }
    pumpLoop context rounds (i + 1) result

def pump (context : Context) (max : UInt64) (state : State) : Except Abort State := do
  let adrs ← pumpLoop context max.toNat 0 state.adresses
  return { state with adresses := adrs }

def rraddr (state : State) : Except Abort State := do
  let adrs ← eraseAll state.adresses
  return { state with adresses := adrs }

/-! Messages. -/

/-- The constructor lambda of `sendmsg` and `pushmsg`, which assigns `reply_to` only if it is set. -/
def Messages.posted (id : UInt64) (time : TimePoint) (sender : Name) (data : ByteString)
    (replyTo seen : UInt64) (row : Messages) : Messages :=
  { row with
    id := id, time := time, sender := sender, data := data, seen := seen
    replyTo := if replyTo ≠ 0 then replyTo else row.replyTo }

/-- `new_id` asks the table object twice: id 0 stands for no reply and is skipped. -/
def newMessageId (messages : MessagesTable) : Except Abort UInt64 := do
  let next ← availablePrimaryKey unsetNextPrimaryKey messages
  if next = 0 then return 1 else availablePrimaryKey next messages

/-- The part that `sendmsg` and `pushmsg` share. -/
def post (context : Context) (scope : UInt64) (sender : Name) (data : ByteString) (replyTo seen : UInt64)
    (state : State) : Except Abort (State × UInt64) := do
  let messages := state.messages scope
  let newId ← newMessageId messages
  let result ← emplace messages (Messages.fresh (context.heap 0))
    (Messages.posted newId context.now sender data replyTo seen)
  return (state.setMessages scope result, newId)

def sendmsg (context : Context) (scope : UInt64) (sender : Name) (data : ByteString) (replyTo : UInt64)
    (state : State) : Except Abort (State × List Printed) := do
  context.requireAuth sender
  let (sent, newId) ← post context scope sender data replyTo 0 state
  let timeStr := toString context.now.secSinceEpoch
  return (sent, [.string ("\x7b\"time\": \"" ++ timeStr ++ "\", \"id\":" ++ toString newId ++ "\x7d")])

def pushmsg (context : Context) (scope sender : Name) (data : ByteString) (replyTo : UInt64)
    (state : State) : Except Abort State := do
  let (sent, _) ← post context scope.value sender data replyTo 1 state
  return sent

/-- The backwards walk of `getunseen`, with the number of iterations left. -/
def getunseenLoop (sender : Name) (messages : MessagesTable) :
    Nat → Nat → Messages → Except Abort (Nat × Nat × Messages)
  | 0, cnt, itr => return (0, cnt, itr)
  | left + 1, cnt, itr => do
    if messages.indexLowerBound Messages.bySeen 0 ≠ some itr ∧ itr.seen = 0 ∧ cnt < 100 then
      let previous ← decrement messages Messages.bySeen (some itr)
      getunseenLoop sender messages left (if itr.sender = sender then cnt + 1 else cnt) previous
    else
      return (left + 1, cnt, itr)

def getunseen (scope : UInt64) (sender : Name) (state : State) :
    Except Abort (State × List Printed) := do
  let messages := state.messages scope
  let upper := messages.indexUpperBound Messages.bySeen 0
  if upper ≠ messages.indexLowerBound Messages.bySeen 0 then
    let last ← decrement messages Messages.bySeen upper
    let (left, cnt, itr) ← getunseenLoop sender messages 1000 0 last
    let total := if itr.seen = 0 ∧ itr.sender = sender ∧ 0 < left then cnt + 1 else cnt
    return (state, [.int total])
  else
    return (state, [.int 0])

def Messages.setSeen (row : Messages) : Messages := { row with seen := 1 }

/-- The forward walk of `seenmsg`, with the number of iterations left. `modify` moves the row it
marks to another place of the index, so the successor is taken first. -/
def seenmsgLoop : Nat → Option Messages → MessagesTable → Except Abort (Nat × MessagesTable)
  | left, none, messages => return (left, messages)
  | 0, some _, messages => return (0, messages)
  | left + 1, some itr, messages => do
    let nextItr := messages.indexNext Messages.bySeen itr
    match messages.find? itr.id with
    | some itrModify =>
      let result ← modify messages (some itrModify) Messages.setSeen
      seenmsgLoop left nextItr result
    | none => seenmsgLoop left nextItr messages

def seenmsg (scope : UInt64) (state : State) : Except Abort (State × List Printed) := do
  let messages := state.messages scope
  match messages.indexLowerBound Messages.bySeen 0 with
  | none => return (state, [.int 0])
  | some itr =>
    if itr.seen = 1 then
      return (state, [.int 0])
    else
      let (left, result) ← seenmsgLoop 1000 (some itr) messages
      return (state.setMessages scope result, if left = 0 then [.int 1] else [])

def deletemesgs (scope : UInt64) (state : State) : Except Abort State := do
  let messages ← eraseAll (state.messages scope)
  return state.setMessages scope messages

/-! The dispatcher. -/

inductive Action where
  | reguser (owner : Name) (password twordhash rsaPub : ByteString)
  | login (owner : Name)
  | getuserbyhash (s : ByteString)
  | deleteuser (owner : Name)
  | deletereqs (owner : Name)
  | deletereqs2 (owner contact : Name)
  | changersa (owner : Name) (rsaPub : ByteString)
  | sendrequest (from' to' : Name) (key : ByteString)
  | resprequest (owner from' : Name) (key : ByteString) (accept : Bool)
  | rmcontact (owner contact : Name)
  | blockcontact (owner contact : Name) (status : Bool)
  | favcontact (owner contact : Name) (status : Bool)
  | mutecontact (owner contact : Name) (status : Bool)
  | sendmsg (scope : UInt64) (sender : Name) (data : ByteString) (replyTo : UInt64)
  | deletemesgs (scope : UInt64)
  | rraddr
  | changealias (owner contact : Name) (newAlias : ByteString)
  | changepsw (owner : Name) (password : ByteString)
  | setoffname (owner : Name) (officialName : ByteString)
  | getunseen (scope : UInt64) (sender : Name)
  | seenmsg (scope : UInt64) (receiver : Name)
  | addadr
  | rrprofiles
  | pump (max : UInt64)
  | forcerequest (scope : UInt64) (cnt1 cnt2 : Name) (key1 key2 : ByteString)
  | pushmsg (scope sender : Name) (data : ByteString) (replyTo : UInt64)
deriving DecidableEq

/-- The names under which the dispatcher knows the actions. -/
inductive ActionName where
  | reguser | login | getuserbyhash | deleteuser | deletereqs | deletereqs2 | changersa
  | sendrequest | resprequest | rmcontact | blockcontact | favcontact | mutecontact
  | sendmsg | deletemesgs | rraddr | changealias | changepsw | setoffname | getunseen
  | seenmsg | addadr | rrprofiles | pump | forcerequest | pushmsg
deriving DecidableEq

def Action.name : Action → ActionName
  | .reguser .. => .reguser
  | .login .. => .login
  | .getuserbyhash .. => .getuserbyhash
  | .deleteuser .. => .deleteuser
  | .deletereqs .. => .deletereqs
  | .deletereqs2 .. => .deletereqs2
  | .changersa .. => .changersa
  | .sendrequest .. => .sendrequest
  | .resprequest .. => .resprequest
  | .rmcontact .. => .rmcontact
  | .blockcontact .. => .blockcontact
  | .favcontact .. => .favcontact
  | .mutecontact .. => .mutecontact
  | .sendmsg .. => .sendmsg
  | .deletemesgs .. => .deletemesgs
  | .rraddr => .rraddr
  | .changealias .. => .changealias
  | .changepsw .. => .changepsw
  | .setoffname .. => .setoffname
  | .getunseen .. => .getunseen
  | .seenmsg .. => .seenmsg
  | .addadr => .addadr
  | .rrprofiles => .rrprofiles
  | .pump .. => .pump
  | .forcerequest .. => .forcerequest
  | .pushmsg .. => .pushmsg

def silent (outcome : Except Abort State) : Except Abort (State × List Printed) :=
  (fun state => (state, [])) <$> outcome

/-- Run one action of the interface: the tables it leaves and what it prints. -/
def dispatch (context : Context) (state : State) : Action → Except Abort (State × List Printed)
  | .reguser owner password twordhash rsaPub =>
    silent (reguser context owner password twordhash rsaPub state)
  | .login owner => silent (login context owner state)
  | .getuserbyhash s => getuserbyhash context s state
  | .deleteuser owner => silent (deleteuser context owner state)
  | .deletereqs owner => silent (deletereqs owner state)
  | .deletereqs2 owner contact => silent (deletereqs2 owner contact state)
  | .changersa owner rsaPub => silent (changersa context owner rsaPub state)
  | .sendrequest from' to' key => silent (sendrequest context from' to' key state)
  | .resprequest owner from' key accept => silent (resprequest context owner from' key accept state)
  | .rmcontact owner contact => silent (rmcontact context owner contact state)
  | .blockcontact owner contact status => silent (blockcontact context owner contact status state)
  | .favcontact owner contact status => silent (favcontact context owner contact status state)
  | .mutecontact owner contact status => silent (mutecontact context owner contact status state)
  | .sendmsg scope sender data replyTo => sendmsg context scope sender data replyTo state
  | .deletemesgs scope => silent (deletemesgs scope state)
  | .rraddr => silent (rraddr state)
  | .changealias owner contact newAlias => silent (changealias context owner contact newAlias state)
  | .changepsw owner password => silent (changepsw context owner password state)
  | .setoffname owner officialName => silent (setoffname context owner officialName state)
  | .getunseen scope sender => getunseen scope sender state
  | .seenmsg scope _ => seenmsg scope state
  | .addadr => silent (addadr context state)
  | .rrprofiles => silent (rrprofiles state)
  | .pump max => silent (pump context max state)
  | .forcerequest scope cnt1 cnt2 key1 key2 =>
    silent (forcerequest context scope cnt1 cnt2 key1 key2 state)
  | .pushmsg scope sender data replyTo => silent (pushmsg context scope sender data replyTo state)

/-- An action with its authorising accounts, the block time and the memory it allocates from. -/
structure Tx where
  auth : List Name
  now : TimePoint
  heap : Nat → Memory
  action : Action

def Tx.context (host : Host) (tx : Tx) : Context :=
  { host with auth := tx.auth, now := tx.now, heap := tx.heap }

/-- The tables after a transaction, or nothing when it aborts. -/
def step (host : Host) (state : State) (tx : Tx) : Option State :=
  match dispatch (tx.context host) state tx.action with
  | .ok (next, _) => some next
  | .error _ => none

end LocalChain.K2ultra
