import LocalChain.K2ultra.State
import LocalChain.Inery.Pack

namespace LocalChain.Inerygui

open LocalChain.Inery LocalChain.Store
open LocalChain.K2ultra (Host)

abbrev Checksum256 := Vector UInt8 32

structure Tmplt where
  id : UInt64
  categoryName : ByteString
  templateName : ByteString
  templateDesc : ByteString
  code : Name
  rateScore : UInt64
  dateCreated : TimePoint
deriving DecidableEq, Repr

structure Plugin where
  id : UInt64
  required : Bool
  pluginName : ByteString
  pluginDesc : ByteString
deriving DecidableEq, Repr

structure UserPlugin where
  id : UInt64
  active : Bool
  lastTimeUsed : TimePoint
deriving DecidableEq, Repr

structure HistoryObject where
  blockNum : UInt64
  transactionId : ByteString
  timeExecuted : TimePoint
deriving DecidableEq, Repr

structure GlobalInfo where
  version : ByteString := "V-1.0.0"
  templates : List Tmplt := []
  plugins : List Plugin := []
deriving DecidableEq, Repr

/-- What the scalar members of a newly allocated row object hold before the constructor lambda of
`emplace` runs. Names and hashes have constructors that clear them. -/
structure Memory where
  id : UInt64
deriving DecidableEq

structure User where
  id : UInt64
  guiname : ByteString
  password : Checksum256
  twords : List Checksum256
  accounts : List Name
  servers : List ByteString
  templates : List UInt64
  plugins : List UserPlugin
  version : ByteString
deriving DecidableEq

def User.primaryKey (row : User) : UInt64 := row.id

def User.fresh (memory : Memory) : User where
  id := memory.id
  guiname := ""
  password := .replicate 32 0
  twords := []
  accounts := []
  servers := []
  templates := []
  plugins := []
  version := ""

structure History where
  composition : Name
  guiname : ByteString
  createhistory : List HistoryObject
  updatehistory : List HistoryObject
  deletehistory : List HistoryObject
deriving DecidableEq, Repr

def History.primaryKey (row : History) : UInt64 := row.composition.value

def History.fresh : History := ⟨⟨0⟩, "", [], [], []⟩

structure Permissions where
  composition : Name
  permName : Name
deriving DecidableEq, Repr

def Permissions.primaryKey (row : Permissions) : UInt64 := row.composition.value

def Permissions.fresh : Permissions := ⟨⟨0⟩, ⟨0⟩⟩

/-! Packed sizes of the rows that an account other than the contract pays for. -/

def HistoryObject.packSize (object : HistoryObject) : Nat := 8 + packSizeString object.transactionId + 8

def History.packSize (row : History) : Nat :=
  8 + packSizeString row.guiname + packSizeVector HistoryObject.packSize row.createhistory +
    packSizeVector HistoryObject.packSize row.updatehistory +
      packSizeVector HistoryObject.packSize row.deletehistory

def Permissions.packSize (_ : Permissions) : Nat := 8 + 8

abbrev UserTable := Table User.primaryKey

abbrev HistoryTable := Table History.primaryKey

abbrev PermissionsTable := Table Permissions.primaryKey

/-- The tables of rows. Those of history and of permissions exist once per scope, which is the account
that pays for their rows. -/
structure Tables where
  user : UserTable
  history : UInt64 → HistoryTable
  permissions : UInt64 → PermissionsTable

structure State extends Tables where
  global : Option GlobalInfo

def State.initial : State where
  user := .empty
  history _ := .empty
  permissions _ := .empty
  global := none

/-- The contract object of one action, which holds the global row as `_gstate`. -/
structure Contract extends Tables where
  gstate : GlobalInfo

/-- The constructor loads the global row, or takes the default one. -/
def Contract.construct (state : State) : Contract where
  toTables := state.toTables
  gstate := state.global.getD {}

/-- The destructor stores it, at the contract's own cost: see `Context.bill`. -/
def Contract.destruct (contract : Contract) : State where
  toTables := contract.toTables
  global := some contract.gstate

def Contract.setHistory (contract : Contract) (scope : UInt64) (table : HistoryTable) : Contract :=
  { contract with history := Function.update contract.history scope table }

def Contract.setPermissions (contract : Contract) (scope : UInt64) (table : PermissionsTable) :
    Contract :=
  { contract with permissions := Function.update contract.permissions scope table }

/-- What one action runs in. -/
structure Context extends Host where
  auth : List Name
  now : TimePoint
  memory : Memory

def Context.requireAuth (context : Context) (account : Name) : Except Abort Unit :=
  if account ∈ context.auth then return () else throw (.missingAuthority account)

/-- The host bills a row to its payer and lets the bill grow only by the payer's authority. The global row is
the one exception: the destructor stores it after every action, and the contract that pays for it is not asked. -/
def Context.bill (context : Context) (payer : Name) (before after : Nat) : Except Abort Unit :=
  if before < after then context.requireAuth payer else return ()

@[simp] theorem Context.requireAuth_eq_ok {context : Context} {account : Name} {done : Unit} :
    context.requireAuth account = .ok done ↔ account ∈ context.auth := by
  simp only [Context.requireAuth]
  split <;> simp_all

@[simp] theorem Context.bill_eq_ok {context : Context} {payer : Name} {before after : Nat}
    {done : Unit} :
    context.bill payer before after = .ok done ↔ (before < after → payer ∈ context.auth) := by
  simp only [Context.bill]
  split <;> simp_all

end LocalChain.Inerygui
