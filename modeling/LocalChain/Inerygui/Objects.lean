import LocalChain.Inery.Singleton
import LocalChain.Inery.TableProgram
import LocalChain.Inerygui.Wire

/-! The contract on its table objects, and the tables of the host behind them. -/
namespace LocalChain.Inerygui

open LocalChain.Inery LocalChain.Store LocalChain.Refine
open LocalChain.K2ultra (Host)
open TableObject (Represents)
open TableProgram (call itr notEnd begin lookup editRow eraseAll)

abbrev userSchema : Schema := .unindexed User User.primaryKey

abbrev historySchema : Schema := .unindexed History History.primaryKey

abbrev permissionsSchema : Schema := .unindexed Permissions Permissions.primaryKey

/-- `"global"_n` -/
def globalName : UInt64 := 0x6468734400000000

abbrev globalSchema : Schema := Singleton.schema GlobalInfo globalName

variable {labelling : Labelling UInt64}

/-! What the actions do with a table object. -/

def newRow : Nat := 2

/-- The loop of `waversion`. -/
def upgradeLoop (version : ByteString) (fuel : Nat) : TableProgram userSchema Unit :=
  Program.loop .deadline (notEnd itr) (do
    call (.modify itr (User.setVersion version))
    call (.increment itr .primary)) fuel

def addRow (id : UInt64) (fresh : User) (constructor : User → User) : TableProgram userSchema Unit :=
  TableProgram.addRow newRow id "User with that id already exists!" fresh constructor

/-- The host bills the row to `payer`, by the bytes it takes before and after. -/
def upsert {schema : Schema} (context : Context) (payer composition : Name) (fresh : schema.Row)
    (constructor updater : schema.Row → schema.Row) : TableProgram schema Unit := do
  let there ← lookup composition.value
  if there then
    let row ← call (.read itr)
    context.bill payer (packSize row) (packSize (updater row))
    call (.modify itr updater)
  else
    context.bill payer 0 (packSize (constructor fresh))
    call (.emplace newRow fresh constructor)

/-! The contract object over the tables of the host. Loops get as much fuel as the host has rows. -/

structure HostTables (labelling : Labelling UInt64) where
  user : Db userSchema labelling
  history : UInt64 → Db historySchema labelling
  permissions : UInt64 → Db permissionsSchema labelling

structure HostContract (labelling : Labelling UInt64) extends HostTables labelling where
  gstate : GlobalInfo

namespace HostContract

variable (context : Context) (contract : HostContract labelling)

/-- Work on the object `_user`. -/
def onUser (printed : List Printed) (program : TableProgram userSchema Unit) :
    Except Fault (List Printed × HostContract labelling) := do
  View.lift (context.requireAuth context.self)
  Prod.map (fun _ => printed) (fun user => { contract with user }) <$> program.onObject context.self contract.user

def rowCount {schema : Schema} (db : Db schema labelling) : Nat := db.primary.rows.rows.length

def waversion : Except Fault (List Printed × HostContract labelling) :=
  contract.onUser context [] (do
    begin
    upgradeLoop contract.gstate.version (rowCount contract.user))

def adduser (guiname : ByteString) (password : Checksum256) (version : ByteString) :
    Except Fault (List Printed × HostContract labelling) :=
  let id := context.stringToUInt64 guiname
  contract.onUser context [.hash (context.sha256 guiname)]
    (addRow id (User.fresh context.memory) (User.registered id guiname password version))

def rmusers : Except Fault (List Printed × HostContract labelling) :=
  contract.onUser context [.text "All users deleted."] (eraseAll (rowCount contract.user))

def editUser (guiname : ByteString) (missing : String) (updater : User → Except Abort User) :
    Except Fault (List Printed × HostContract labelling) :=
  contract.onUser context [.hash (context.sha256 guiname)] (editRow (context.stringToUInt64 guiname) missing updater)

def addhistory (owner composition : Name) (object : HistoryObject) (type : ByteString) :
    Except Fault (List Printed × HostContract labelling) :=
  let histories := upsert context owner composition History.fresh (History.opened composition object type)
    (History.record object type)
  Prod.map (fun _ => []) (fun db => { contract with history := Function.update contract.history owner.value db }) <$>
    TableProgram.onObject histories context.self (contract.history owner.value)

def linkperm (owner composition permName : Name) : Except Fault (List Printed × HostContract labelling) :=
  let permissions := upsert context owner composition Permissions.fresh (Permissions.linked composition permName)
    (Permissions.setPermName permName)
  Prod.map (fun _ => [])
      (fun db => { contract with permissions := Function.update contract.permissions owner.value db }) <$>
    TableProgram.onObject permissions context.self (contract.permissions owner.value)

/-- An action that uses no table. -/
def alone (action : Action) : Except Fault (List Printed × HostContract labelling) :=
  Prod.map id (fun result => { contract with gstate := result.gstate }) <$> Prod.swap <$>
    View.lift (Inerygui.dispatch context ⟨⟨.empty, fun _ => .empty, fun _ => .empty⟩, contract.gstate⟩ action)

def dispatch (action : Action) : Except Fault (List Printed × HostContract labelling) :=
  match action with
  | .waversion => contract.waversion context
  | .adduser guiname password version => contract.adduser context guiname password version
  | .rmusers => contract.rmusers context
  | .addtwords guiname twords =>
    contract.editUser context guiname "GUI with that name don't exists!" (User.addtwords twords)
  | .upversionu guiname =>
    contract.editUser context guiname "GUI with that name don't exists!" (User.upversionu contract.gstate.version)
  | .recoverpsw guiname twords newpassword =>
    contract.editUser context guiname "GUI account with that name don't exists!" (User.recoverpsw twords newpassword)
  | .addaccount guiname account =>
    contract.editUser context guiname "GUI with that name don't exists!" (User.addaccount account)
  | .rmaccount guiname account =>
    contract.editUser context guiname "GUI with that name don't exists!" (User.rmaccount account)
  | .addserver guiname server =>
    contract.editUser context guiname "GUI with that name don't exists!" (User.addserver server)
  | .rmserver guiname server =>
    contract.editUser context guiname "GUI with that name don't exists!" (User.rmserver server)
  | .addtemplateu guiname templateId =>
    contract.editUser context guiname "GUI with that name don't exists!" (User.addtemplateu templateId)
  | .rmtemplateu guiname templateId =>
    contract.editUser context guiname "GUI with that name don't exists!" (User.rmtemplateu templateId)
  | .addpluginu guiname pluginId =>
    contract.editUser context guiname "GUI with that name don't exists!" (User.addpluginu context.now pluginId)
  | .rmpluginu guiname pluginId =>
    contract.editUser context guiname "GUI with that name don't exists!" (User.rmpluginu pluginId)
  | .turnonplugin guiname pluginId =>
    contract.editUser context guiname "GUI with that name don't exists!" (User.turnonplugin pluginId)
  | .turnofplugin guiname pluginId =>
    contract.editUser context guiname "GUI with that name don't exists!" (User.turnofplugin pluginId)
  | .addhistory owner composition object type => contract.addhistory context owner composition object type
  | .linkperm owner composition permName => contract.linkperm context owner composition permName
  | .addtemplateg .. | .addpluging .. | .upversiong .. | .rmpluging | .sti .. | .checkoff .. =>
    contract.alone context action

end HostContract

/-! Transactions on the host. -/

structure HostState (labelling : Labelling UInt64) extends HostTables labelling where
  global : Db globalSchema labelling

def HostState.initial (numbers : labelling.State) : HostState labelling where
  user := .empty numbers
  history _ := .empty numbers
  permissions _ := .empty numbers
  global := .empty numbers

/-- What the constructor of the contract loads. -/
def loadGlobal : Code globalSchema labelling GlobalInfo := do
  if ← Singleton.exists' then Singleton.get else return {}

def HostState.execute (host : Host) (state : HostState labelling) (tx : Tx) :
    Except Fault (List Printed × HostState labelling) := do
  let (gstate, singleton) ← loadGlobal.run (state.global.object host.self host.self)
  let (printed, contract) ← HostContract.dispatch (tx.context host) ⟨state.toHostTables, gstate⟩ tx.action
  let ((), singleton) ← (Singleton.set contract.gstate).run singleton
  return (printed, ⟨contract.toHostTables, singleton.db⟩)

def HostState.step (host : Host) (state : HostState labelling) (tx : Tx) : Option (HostState labelling) :=
  match state.execute host tx with
  | .ok (_, next) => some next
  | .error _ => none

end LocalChain.Inerygui
