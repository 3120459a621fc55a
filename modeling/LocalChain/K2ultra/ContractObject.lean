import LocalChain.Inery.ObjectProgram
import LocalChain.K2ultra.MessagesObject
import LocalChain.K2ultra.ProfilesObject

/-! The whole contract, as calls on the objects that its actions construct. -/
namespace LocalChain.K2ultra

open LocalChain.Inery LocalChain.Store LocalChain.Refine
open TableProgram (call itr notEnd lookup addRow changeRow removeRow eraseAll)

/-- The tables by name and scope. The first two have the account of the contract as their scope. -/
inductive TableName where
  | adresses
  | profiles
  | requests (scope : UInt64)
  | messages (scope : UInt64)
deriving DecidableEq

/-- `adresses_t` -/
abbrev adressesSchema : Schema := .unindexed Adresses Adresses.primaryKey

/-- `requests_t`, indexed by contact. -/
abbrev requestsSchema : Schema where
  Row := Requests
  primaryKey := Requests.primaryKey
  indices := 1
  Secondary _ := UInt64
  extractSecondaryKey _ := Requests.byContact

/-- `get_index<name("contact")>()` -/
def contactIndex : Fin requestsSchema.indices := ⟨0, Nat.one_pos⟩

abbrev TableName.schema : TableName → Schema
  | adresses => adressesSchema
  | profiles => profilesSchema
  | requests _ => requestsSchema
  | messages _ => messagesSchema

/-! The part of an action that works on a table of requests or of ids. -/

/-- `req_idx.find(contact.value)`, and whether it is not `end()` -/
def seekContact (contact : Name) : TableProgram requestsSchema Bool := do
  call (.find itr (.index contactIndex contact.value))
  notEnd itr

/-- The scope of the row that names a contact, which must be there. -/
def contactScope (contact : Name) (missing : String) : TableProgram requestsSchema UInt64 := do
  let there ← seekContact contact
  check there missing
  let row ← call (.read itr)
  return row.scope

/-- The iterator to a row that was looked for by its primary key. -/
def byKey : Nat := 2

def findByKey (scope : UInt64) : TableProgram requestsSchema Unit := call (.find byKey (.primary scope))

def modifyByKey (scope : UInt64) (updater : Requests → Requests) : TableProgram requestsSchema Unit := do
  findByKey scope
  call (.modify byKey updater)

def eraseByKey : TableProgram requestsSchema Unit := call (.erase byKey .primary)

def dropByKey (scope : UInt64) : TableProgram requestsSchema Unit := do
  findByKey scope
  eraseByKey

def changeContact (contact : Name) (missing : String) (updater : Requests → Requests) :
    TableProgram requestsSchema Unit := do
  let scope ← contactScope contact missing
  modifyByKey scope updater

/-- What `deletereqs2` does to the table. -/
def dropContact (owner : Name) : TableProgram requestsSchema Unit := do
  let there ← seekContact owner
  check there "Contact does not have owner as request"
  call (.erase itr (.index contactIndex))

def storeAdress (fresh : Adresses) (scope : UInt64) : TableProgram adressesSchema Unit :=
  call (.emplace newRow fresh fun row : Adresses => { row with scope := scope })

/-- What `addadr` does to the table. The lambda of the source asks for the key. -/
def storeAvailable (context : Context) : TableProgram adressesSchema Unit := do
  let available ← call .availablePrimaryKey
  storeAdress (Adresses.fresh (context.heap 0)) available

/-- What `pump` does to the table, with the number of rounds left. -/
def pumpRows (context : Context) : Nat → UInt64 → TableProgram adressesSchema Unit
  | 0, _ => return
  | rounds + 1, i => do
    storeAdress (Adresses.fresh (context.heap i.toNat)) i
    pumpRows context rounds (i + 1)

/-! The actions. Two objects for tables of requests may be objects for one table. -/

abbrev ContractProgram := ObjectProgram TableName.schema

namespace ContractProgram

variable {α : Type}

def first : Nat := 0

def second : Nat := 1

def onAdresses (program : TableProgram adressesSchema α) : ContractProgram α := ObjectProgram.on .adresses first program

def onProfiles (program : TableProgram profilesSchema α) : ContractProgram α := ObjectProgram.on .profiles first program

def onRequests (object : Nat) (scope : Name) (program : TableProgram requestsSchema α) : ContractProgram α :=
  ObjectProgram.on (.requests scope.value) object program

def onMessages (scope : UInt64) (program : TableProgram messagesSchema α) : ContractProgram α :=
  ObjectProgram.on (.messages scope) first program

variable (context : Context)

def validateAccounts (owner from' : Name) : ContractProgram Unit := do
  onProfiles (requireProfile owner "Owner account is not registered")
  onProfiles (requireProfile from' "From account is not registered")

def reguser (owner : Name) (password twordhash rsaPub : ByteString) : ContractProgram Unit := do
  context.requireAuth owner
  let stivalue := context.stringToUInt64 twordhash
  onProfiles (addRow newProfile owner.value "Account with that name is already registered!"
    (Profiles.fresh (context.heap 0)) (Profiles.registered owner password stivalue rsaPub))

def login (owner : Name) : ContractProgram Unit := do
  context.requireAuth owner
  onProfiles (requireProfile owner "Account is not registered")

def getuserbyhash (s : ByteString) : ContractProgram (List Printed) := do
  context.requireAuth context.self
  let owner ← onProfiles (ownerByHash (context.stringToUInt64 s))
  return [.name owner]

def editProfile (owner : Name) (missing : String) (updater : Profiles → Profiles) : ContractProgram Unit := do
  context.requireAuth owner
  onProfiles (changeRow owner.value missing updater)

/-- The loop gets as much fuel as the table has rows. -/
def deleteuser (rows : TableName → Nat) (owner : Name) : ContractProgram Unit := do
  context.requireAuth context.self
  onProfiles (removeRow owner.value "User doesn't exist")
  onRequests first owner (eraseAll (rows (.requests owner.value)))

/-- A round of the loop of `deletereqs`, which constructs the second object. -/
def deleteRequest (owner : Name) : ContractProgram Unit := do
  let row ← onRequests first owner (call (.read itr))
  onRequests second row.contact (do
    call .construct
    call (.find itr (.primary row.scope)))
  onRequests first owner (call (.erase itr .primary))
  if ← onRequests second row.contact (notEnd itr) then
    onRequests second row.contact (call (.erase itr .primary))

def deletereqs (rows : TableName → Nat) (owner : Name) : ContractProgram Unit := do
  onRequests first owner TableProgram.begin
  Program.loop .deadline (onRequests first owner (notEnd itr)) (deleteRequest owner) (rows (.requests owner.value))

def deletereqs2 (owner contact : Name) : ContractProgram Unit := onRequests first contact (dropContact owner)

def sendrequest (from' to' : Name) (key : ByteString) : ContractProgram Unit := do
  context.requireAuth from'
  validateAccounts from' to'
  let scope ← onAdresses (call .availablePrimaryKey)
  let there ← onRequests first to' (seekContact from')
  check (!there) "Request already sent to this user"
  let pending ← onRequests second from' (seekContact to')
  check (!pending) "You have pending request from this user"
  onRequests first to' (call (.emplace newRow (Requests.fresh (context.heap 0)) (Requests.received scope from' key)))
  onRequests second from' (call (.emplace newRow (Requests.fresh (context.heap 1)) (Requests.sent scope to')))
  onAdresses (storeAdress (Adresses.fresh (context.heap 2)) scope)

def resprequest (owner from' : Name) (key : ByteString) (accept : Bool) : ContractProgram Unit := do
  context.requireAuth owner
  onProfiles (requireProfile owner "Owner account is not reqistered")
  onProfiles (requireProfile from' "From account is not reqistered")
  let scope ← onRequests first owner (contactScope from' "Request not found for this combination of owner and from")
  if accept then
    let there ← onRequests second from' (lookup scope)
    check there "Request dont exists"
    let row ← onRequests second from' (call (.read itr))
    check (!row.cntct) "You are already contacts"
    onRequests second from' (call (.modify itr (Requests.answered key)))
    onRequests first owner (modifyByKey scope Requests.confirmed)
  else
    onRequests first owner (dropByKey scope)
    onRequests second from' (dropByKey scope)

def rmcontact (owner contact : Name) : ContractProgram Unit := do
  context.requireAuth owner
  let scope ← onRequests first owner (contactScope contact "Request not found for this combination of owner and from")
  onRequests first owner (findByKey scope)
  onRequests second contact (findByKey scope)
  onRequests first owner eraseByKey
  onRequests second contact eraseByKey

def flagContact (owner contact : Name) (updater : Requests → Requests) : ContractProgram Unit := do
  validateAccounts owner contact
  context.requireAuth owner
  onRequests first owner (changeContact contact "Contact not found" updater)

def changealias (owner contact : Name) (newAlias : ByteString) : ContractProgram Unit := do
  context.requireAuth owner
  onRequests first owner (changeContact contact "Owner and Contact are not connected" (Requests.setAlias newAlias))

def forcerequest (scope : UInt64) (cnt1 cnt2 : Name) (key1 key2 : ByteString) : ContractProgram Unit := do
  onRequests first cnt1 (call (.emplace newRow (Requests.fresh (context.heap 0)) (Requests.forced scope cnt2 key2)))
  onRequests second cnt2 (call (.emplace newRow (Requests.fresh (context.heap 1)) (Requests.forced scope cnt1 key1)))

def addadr : ContractProgram Unit := onAdresses (storeAvailable context)

def sendmsg (scope : UInt64) (sender : Name) (data : ByteString) (replyTo : UInt64) : ContractProgram (List Printed) := do
  context.requireAuth sender
  let newId ← onMessages scope (postMessage context sender data replyTo 0)
  let timeStr := toString context.now.secSinceEpoch
  return [.string ("\x7b\"time\": \"" ++ timeStr ++ "\", \"id\":" ++ toString newId ++ "\x7d")]

def pushmsg (scope sender : Name) (data : ByteString) (replyTo : UInt64) : ContractProgram Unit := do
  let _ ← onMessages scope.value (postMessage context sender data replyTo 1)

def getunseen (scope : UInt64) (sender : Name) : ContractProgram (List Printed) := do
  let total ← onMessages scope (countUnseen sender)
  return [.int total]

def silently (program : ContractProgram Unit) : ContractProgram (List Printed) := do
  program
  return []

/-- Every action. The loops over a table get as much fuel as it has rows. -/
def dispatch (rows : TableName → Nat) : Action → ContractProgram (List Printed)
  | .reguser owner password twordhash rsaPub => silently (reguser context owner password twordhash rsaPub)
  | .login owner => silently (login context owner)
  | .getuserbyhash s => getuserbyhash context s
  | .deleteuser owner => silently (deleteuser context rows owner)
  | .deletereqs owner => silently (deletereqs rows owner)
  | .deletereqs2 owner contact => silently (deletereqs2 owner contact)
  | .changersa owner rsaPub =>
    silently (editProfile context owner "Account with that name is already registered!" fun row => { row with rsaPub })
  | .sendrequest from' to' key => silently (sendrequest context from' to' key)
  | .resprequest owner from' key accept => silently (resprequest context owner from' key accept)
  | .rmcontact owner contact => silently (rmcontact context owner contact)
  | .blockcontact owner contact status => silently (flagContact context owner contact (Requests.setBlocked status))
  | .favcontact owner contact status => silently (flagContact context owner contact (Requests.setFavorite status))
  | .mutecontact owner contact status => silently (flagContact context owner contact (Requests.setMuted status))
  | .sendmsg scope sender data replyTo => sendmsg context scope sender data replyTo
  | .deletemesgs scope => silently (onMessages scope (eraseAll (rows (.messages scope))))
  | .rraddr => silently (onAdresses (eraseAll (rows .adresses)))
  | .changealias owner contact newAlias => silently (changealias context owner contact newAlias)
  | .changepsw owner password =>
    silently (editProfile context owner "Owner account is not registered" fun row => { row with password })
  | .setoffname owner officialName =>
    silently (editProfile context owner "Owner account is not registered" fun row => { row with officialName })
  | .getunseen scope sender => getunseen scope sender
  | .seenmsg scope _ => onMessages scope markSeen
  | .addadr => silently (addadr context)
  | .rrprofiles => silently (onProfiles (eraseAll (rows .profiles)))
  | .pump max => silently (onAdresses (pumpRows context max.toNat 0))
  | .forcerequest scope cnt1 cnt2 key1 key2 => silently (forcerequest context scope cnt1 cnt2 key1 key2)
  | .pushmsg scope sender data replyTo => silently (pushmsg context scope sender data replyTo)

end ContractProgram

/-! The tables of the contract on the host. -/

abbrev ContractTables (labelling : Labelling UInt64) := (name : TableName) → Db name.schema labelling

namespace ContractTables

variable {labelling : Labelling UInt64}

def dispatch (tables : ContractTables labelling) (context : Context) (action : Action) :
    Except Fault (List Printed × ContractTables labelling) :=
  (ContractProgram.dispatch context (fun name => (tables name).primary.rows.rows.length) action).onObjects context.self tables

def initial (numbers : labelling.State) : ContractTables labelling := fun _ => .empty numbers

def step (host : Host) (tables : ContractTables labelling) (tx : Tx) : Option (ContractTables labelling) :=
  match tables.dispatch (tx.context host) tx.action with
  | .ok (_, next) => some next
  | .error _ => none

/-- The tables that the host has after a list of transactions from empty ones. -/
def reached (host : Host) (numbers : labelling.State) (txs : List Tx) : ContractTables labelling :=
  run (step host) (initial numbers) txs

end ContractTables

end LocalChain.K2ultra
