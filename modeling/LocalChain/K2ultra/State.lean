import LocalChain.Inery.MultiIndex
import Mathlib.Logic.Function.Basic

namespace LocalChain.K2ultra

open LocalChain.Inery LocalChain.Store

/-- What the scalar members of a newly allocated row object hold before the constructor lambda of
`emplace` runs: a row class without member initialisers leaves them as the allocator found them. -/
structure Memory where
  scope : UInt64
  cntct : Bool
  favorite : Bool
  blocked : Bool
  muted : Bool
  pending : Bool
  id : UInt64
  replyTo : UInt64
  seen : UInt64
  twordhash : UInt64
deriving DecidableEq

def Memory.zeroed : Memory := ⟨0, false, false, false, false, false, 0, 0, 0, 0⟩

structure Adresses where
  scope : UInt64
deriving DecidableEq, Repr

def Adresses.primaryKey (row : Adresses) : UInt64 := row.scope

def Adresses.fresh (memory : Memory) : Adresses := ⟨memory.scope⟩

/-- One side of a contact: the row lives in the table of its owner and names the other account. -/
structure Requests where
  scope : UInt64
  contact : Name
  «alias» : ByteString
  key : ByteString
  cntct : Bool
  favorite : Bool
  blocked : Bool
  muted : Bool
  pending : Bool
deriving DecidableEq, Repr

def Requests.primaryKey (row : Requests) : UInt64 := row.scope

def Requests.byContact (row : Requests) : UInt64 := row.contact.value

def Requests.fresh (memory : Memory) : Requests where
  scope := memory.scope
  contact := ⟨0⟩
  «alias» := ""
  key := ""
  cntct := memory.cntct
  favorite := memory.favorite
  blocked := memory.blocked
  muted := memory.muted
  pending := memory.pending

structure Messages where
  id : UInt64
  time : TimePoint
  sender : Name
  replyTo : UInt64
  seen : UInt64
  data : ByteString
deriving DecidableEq, Repr

def Messages.primaryKey (row : Messages) : UInt64 := row.id

def Messages.bySeen (row : Messages) : UInt64 := row.seen

def Messages.fresh (memory : Memory) : Messages where
  id := memory.id
  time := ⟨0⟩
  sender := ⟨0⟩
  replyTo := memory.replyTo
  seen := memory.seen
  data := ""

structure Profiles where
  owner : Name
  officialName : ByteString
  password : ByteString
  twordhash : UInt64
  rsaPub : ByteString
  requests : List Name
  contacts : List Name
  favorites : List Name
  blocked : List Name
  pending : List Name
deriving DecidableEq, Repr

def Profiles.primaryKey (row : Profiles) : UInt64 := row.owner.value

def Profiles.byTwords (row : Profiles) : UInt64 := row.twordhash

def Profiles.fresh (memory : Memory) : Profiles where
  owner := ⟨0⟩
  officialName := ""
  password := ""
  twordhash := memory.twordhash
  rsaPub := ""
  requests := []
  contacts := []
  favorites := []
  blocked := []
  pending := []

abbrev AdressesTable := Table Adresses.primaryKey

abbrev RequestsTable := Table Requests.primaryKey

abbrev MessagesTable := Table Messages.primaryKey

abbrev ProfilesTable := Table Profiles.primaryKey

/-- The tables of the contract. Those of requests and of messages exist once per scope. -/
structure State where
  adresses : AdressesTable
  requests : UInt64 → RequestsTable
  messages : UInt64 → MessagesTable
  profiles : ProfilesTable

def State.initial : State := ⟨.empty, fun _ => .empty, fun _ => .empty, .empty⟩

def State.setRequests (state : State) (scope : UInt64) (table : RequestsTable) : State :=
  { state with requests := Function.update state.requests scope table }

def State.setMessages (state : State) (scope : UInt64) (table : MessagesTable) : State :=
  { state with messages := Function.update state.messages scope table }

/-- What the chain fixes for the contract: the account it runs under and its hash function. -/
structure Host where
  self : Name
  sha256 : ByteString → Vector UInt8 32

/-- What one action runs in. -/
structure Context extends Host where
  auth : List Name
  now : TimePoint
  heap : Nat → Memory

def Context.requireAuth (context : Context) (account : Name) : Except Abort Unit :=
  if account ∈ context.auth then return () else throw (.missingAuthority account)

/-- The first eight bytes of the hash, read in the byte order of the machine. -/
def Host.stringToUInt64 (host : Host) (s : ByteString) : UInt64 :=
  ((host.sha256 s).toList.take 8).foldr (fun byte value => value <<< 8 ||| byte.toUInt64) 0

@[simp] theorem Context.requireAuth_eq_ok {context : Context} {account : Name} {done : Unit} :
    context.requireAuth account = .ok done ↔ account ∈ context.auth := by
  simp only [Context.requireAuth]
  split <;> simp_all

end LocalChain.K2ultra
