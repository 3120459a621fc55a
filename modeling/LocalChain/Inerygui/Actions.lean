import LocalChain.Inerygui.State

namespace LocalChain.Inerygui

open LocalChain.Inery LocalChain.Inery.MultiIndex LocalChain.Store
open LocalChain.K2ultra (Host)

/-- What an action writes to the console. -/
inductive Printed where
  | hash (bytes : Checksum256)
  | number (value : UInt64)
  | text (s : String)
deriving DecidableEq

def sti (context : Context) (s : ByteString) (contract : Contract) :
    Except Abort (Contract × List Printed) :=
  return (contract, [.number (context.stringToUInt64 s)])

/-! Global actions. -/

def addtemplateg (context : Context) (id : UInt64) (categoryName name desc : ByteString) (code : Name)
    (rateScore : UInt64) (contract : Contract) : Except Abort Contract := do
  context.requireAuth context.self
  let time := context.now
  let t : Tmplt := ⟨id, categoryName, name, desc, code, rateScore, time⟩
  return { contract with gstate.templates := contract.gstate.templates ++ [t] }

def addpluging (context : Context) (id : UInt64) (pluginName pluginDesc : ByteString) (required : Bool)
    (contract : Contract) : Except Abort Contract := do
  context.requireAuth context.self
  let p : Plugin := ⟨id, required, pluginName, pluginDesc⟩
  return { contract with gstate.plugins := contract.gstate.plugins ++ [p] }

def upversiong (context : Context) (version : ByteString) (contract : Contract) : Except Abort Contract := do
  context.requireAuth context.self
  return { contract with gstate.version := version }

def rmpluging (context : Context) (contract : Contract) : Except Abort Contract := do
  context.requireAuth context.self
  return { contract with gstate.plugins := [] }

def User.setVersion (version : ByteString) (row : User) : User := { row with version := version }

/-- `while (itr != end()) { modify(itr); itr++; }`, cut off after `fuel` rounds. -/
def waversionLoop (version : ByteString) : Nat → Option User → UserTable → Except Abort UserTable
  | _, none, user => return user
  | 0, some _, _ => throw .deadline
  | fuel + 1, some itr, user => do
    let result ← modify user (some itr) (User.setVersion version)
    waversionLoop version fuel (result.next? itr.id) result

def waversion (context : Context) (contract : Contract) : Except Abort Contract := do
  context.requireAuth context.self
  let user ← waversionLoop contract.gstate.version contract.user.rows.length contract.user.first?
    contract.user
  return { contract with user := user }

/-! User actions. -/

/-- The constructor lambda of `adduser`. -/
def User.registered (id : UInt64) (guiname : ByteString) (password : Checksum256) (version : ByteString)
    (row : User) : User :=
  { row with id := id, guiname := guiname, password := password, version := version }

def adduser (context : Context) (guiname : ByteString) (password : Checksum256) (version : ByteString)
    (contract : Contract) : Except Abort (Contract × List Printed) := do
  context.requireAuth context.self
  let id := context.stringToUInt64 guiname
  check (contract.user.find? id).isNone "User with that id already exists!"
  let user ← emplace contract.user (User.fresh context.memory)
    (User.registered id guiname password version)
  return ({ contract with user := user }, [.hash (context.sha256 guiname)])

def rmusers (context : Context) (contract : Contract) : Except Abort (Contract × List Printed) := do
  context.requireAuth context.self
  let user ← eraseAll contract.user
  return ({ contract with user := user }, [.text "All users deleted."])

/-- The part that all actions on one user share. What an action checks of the row, before it calls
`modify` or inside the lambda, belongs to the updater. -/
def editUser (context : Context) (guiname : ByteString) (missing : String)
    (updater : User → Except Abort User) (contract : Contract) :
    Except Abort (Contract × List Printed) := do
  context.requireAuth context.self
  let id := context.stringToUInt64 guiname
  match contract.user.find? id with
  | none => throw (.check missing)
  | some itr =>
    let row ← updater itr
    let user ← modify contract.user (some itr) fun _ => row
    return ({ contract with user := user }, [.hash (context.sha256 guiname)])

def User.addtwords (twords : List Checksum256) (row : User) : Except Abort User := do
  check row.twords.isEmpty "User already set 12 words"
  return { row with twords := row.twords ++ twords }

def addtwords (context : Context) (guiname : ByteString) (twords : List Checksum256) :
    Contract → Except Abort (Contract × List Printed) :=
  editUser context guiname "GUI with that name don't exists!" (User.addtwords twords)

def User.upversionu (version : ByteString) (row : User) : Except Abort User := do
  check (row.version ≠ version) "User version is up to date"
  return row.setVersion version

def upversionu (context : Context) (guiname : ByteString) (contract : Contract) :
    Except Abort (Contract × List Printed) :=
  editUser context guiname "GUI with that name don't exists!"
    (User.upversionu contract.gstate.version) contract

def User.recoverpsw (twords : List Checksum256) (newpassword : Checksum256) (row : User) :
    Except Abort User := do
  check (twords = row.twords) "Wrong!"
  return { row with password := newpassword }

def recoverpsw (context : Context) (guiname : ByteString) (twords : List Checksum256)
    (newpassword : Checksum256) : Contract → Except Abort (Contract × List Printed) :=
  editUser context guiname "GUI account with that name don't exists!"
    (User.recoverpsw twords newpassword)

def User.addaccount (account : Name) (row : User) : Except Abort User := do
  check (account ∉ row.accounts) "Account already exist"
  return { row with accounts := row.accounts ++ [account] }

def addaccount (context : Context) (guiname : ByteString) (account : Name) :
    Contract → Except Abort (Contract × List Printed) :=
  editUser context guiname "GUI with that name don't exists!" (User.addaccount account)

def User.rmaccount (account : Name) (row : User) : Except Abort User := do
  check (account ∈ row.accounts) "Account does not exist"
  return { row with accounts := row.accounts.filter (· ≠ account) }

def rmaccount (context : Context) (guiname : ByteString) (account : Name) :
    Contract → Except Abort (Contract × List Printed) :=
  editUser context guiname "GUI with that name don't exists!" (User.rmaccount account)

def User.addserver (server : ByteString) (row : User) : Except Abort User :=
  return { row with servers := row.servers ++ [server] }

def addserver (context : Context) (guiname server : ByteString) :
    Contract → Except Abort (Contract × List Printed) :=
  editUser context guiname "GUI with that name don't exists!" (User.addserver server)

def User.rmserver (server : ByteString) (row : User) : Except Abort User := do
  check (server ∈ row.servers) "Account does not exist"
  return { row with servers := row.servers.filter (· ≠ server) }

def rmserver (context : Context) (guiname server : ByteString) :
    Contract → Except Abort (Contract × List Printed) :=
  editUser context guiname "GUI with that name don't exists!" (User.rmserver server)

def User.addtemplateu (templateId : UInt64) (row : User) : Except Abort User := do
  check (templateId ∉ row.templates) "User already has template"
  return { row with templates := row.templates ++ [templateId] }

def addtemplateu (context : Context) (guiname : ByteString) (templateId : UInt64) :
    Contract → Except Abort (Contract × List Printed) :=
  editUser context guiname "GUI with that name don't exists!" (User.addtemplateu templateId)

def User.rmtemplateu (templateId : UInt64) (row : User) : Except Abort User := do
  check (templateId ∈ row.templates) "User does not have that template"
  return { row with templates := row.templates.filter (· ≠ templateId) }

def rmtemplateu (context : Context) (guiname : ByteString) (templateId : UInt64) :
    Contract → Except Abort (Contract × List Printed) :=
  editUser context guiname "GUI with that name don't exists!" (User.rmtemplateu templateId)

/-- The first plugin of the list with the id. -/
def User.plugin? (row : User) (pluginId : UInt64) : Option UserPlugin :=
  row.plugins.find? (fun plugin => plugin.id = pluginId)

def User.addpluginu (time : TimePoint) (pluginId : UInt64) (row : User) : Except Abort User := do
  check (row.plugin? pluginId).isNone "User already has plugin"
  let plgo : UserPlugin := ⟨pluginId, false, time⟩
  return { row with plugins := row.plugins ++ [plgo] }

def addpluginu (context : Context) (guiname : ByteString) (pluginId : UInt64) :
    Contract → Except Abort (Contract × List Printed) :=
  editUser context guiname "GUI with that name don't exists!" (User.addpluginu context.now pluginId)

/-- The loop of `rmpluginu`: `row.plugins` is a buffer whose first `size` cells are in use. -/
structure Removal where
  temp : List UserPlugin
  cells : List UserPlugin
  size : Nat
deriving DecidableEq

def Removal.start (plugins : List UserPlugin) : Removal := ⟨[], plugins, plugins.length⟩

/-- One round of the loop, at the `i`-th cell of the buffer as it was at the start. `row.plugins = temp`
fills the front of that buffer and leaves the cells behind it as they are. -/
def Removal.round (pluginId : UInt64) (loop : Removal) (i : Nat) : Removal :=
  match loop.cells[i]? with
  | none => loop
  | some plg =>
    let temp := if plg.id ≠ pluginId then loop.temp ++ [plg] else loop.temp
    ⟨temp, temp ++ loop.cells.drop temp.length, temp.length⟩

/-- The loop after its first `rounds` rounds. -/
def Removal.after (pluginId : UInt64) (plugins : List UserPlugin) (rounds : Nat) : Removal :=
  (List.range rounds).foldl (Removal.round pluginId) (Removal.start plugins)

def User.rmpluginu (pluginId : UInt64) (row : User) : Except Abort User :=
  let loop := Removal.after pluginId row.plugins row.plugins.length
  return { row with plugins := loop.cells.take loop.size }

def rmpluginu (context : Context) (guiname : ByteString) (pluginId : UInt64) :
    Contract → Except Abort (Contract × List Printed) :=
  editUser context guiname "GUI with that name don't exists!" (User.rmpluginu pluginId)

/-- Set the mark of every plugin of the list with the id. -/
def User.setActive (active : Bool) (pluginId : UInt64) (row : User) : User :=
  { row with plugins := row.plugins.map fun plugin =>
      if plugin.id = pluginId then { plugin with active := active } else plugin }

def User.turnonplugin (pluginId : UInt64) (row : User) : Except Abort User :=
  match row.plugin? pluginId with
  | none => throw (.check "User does not have plugin!")
  | some it => do
    check (!it.active) "Plugin is already activated"
    return row.setActive true pluginId

def turnonplugin (context : Context) (guiname : ByteString) (pluginId : UInt64) :
    Contract → Except Abort (Contract × List Printed) :=
  editUser context guiname "GUI with that name don't exists!" (User.turnonplugin pluginId)

def User.turnofplugin (pluginId : UInt64) (row : User) : Except Abort User :=
  match row.plugin? pluginId with
  | none => throw (.check "User does not have plugin!")
  | some it => do
    check it.active "Plugin is not active"
    return row.setActive false pluginId

def turnofplugin (context : Context) (guiname : ByteString) (pluginId : UInt64) :
    Contract → Except Abort (Contract × List Printed) :=
  editUser context guiname "GUI with that name don't exists!" (User.turnofplugin pluginId)

/-! History and permissions. -/

/-- Append an event to the list that its type names. -/
def History.record (object : HistoryObject) (type : ByteString) (row : History) : History :=
  if type = "cr" then { row with createhistory := row.createhistory ++ [object] }
  else if type = "up" then { row with updatehistory := row.updatehistory ++ [object] }
  else if type = "dl" then { row with deletehistory := row.deletehistory ++ [object] }
  else row

/-- The constructor lambda of `addhistory`. -/
def History.opened (composition : Name) (object : HistoryObject) (type : ByteString) (row : History) :
    History :=
  History.record object type { row with composition := composition }

def addhistory (context : Context) (owner composition : Name) (object : HistoryObject) (type : ByteString)
    (contract : Contract) : Except Abort Contract := do
  let histories := contract.history owner.value
  match histories.find? composition.value with
  | none =>
    let row := History.fresh.opened composition object type
    context.bill owner 0 row.packSize
    let result ← emplace histories History.fresh (History.opened composition object type)
    return contract.setHistory owner.value result
  | some itr =>
    context.bill owner itr.packSize (itr.record object type).packSize
    let result ← modify histories (some itr) (History.record object type)
    return contract.setHistory owner.value result

def Permissions.linked (composition permName : Name) (row : Permissions) : Permissions :=
  { row with composition := composition, permName := permName }

def Permissions.setPermName (permName : Name) (row : Permissions) : Permissions :=
  { row with permName := permName }

def linkperm (context : Context) (owner composition permName : Name) (contract : Contract) :
    Except Abort Contract := do
  let permissions := contract.permissions owner.value
  match permissions.find? composition.value with
  | none =>
    let row := Permissions.fresh.linked composition permName
    context.bill owner 0 row.packSize
    let result ← emplace permissions Permissions.fresh (Permissions.linked composition permName)
    return contract.setPermissions owner.value result
  | some itr =>
    context.bill owner itr.packSize (itr.setPermName permName).packSize
    let result ← modify permissions (some itr) (Permissions.setPermName permName)
    return contract.setPermissions owner.value result

def checkoff (context : Context) (accountName : Name) (contract : Contract) :
    Except Abort Contract := do
  context.requireAuth accountName
  return contract

/-! The dispatcher. -/

inductive Action where
  | addtemplateg (id : UInt64) (categoryName name desc : ByteString) (code : Name) (rateScore : UInt64)
  | addpluging (id : UInt64) (pluginName pluginDesc : ByteString) (required : Bool)
  | upversiong (version : ByteString)
  | rmpluging
  | rmusers
  | waversion
  | adduser (guiname : ByteString) (password : Checksum256) (version : ByteString)
  | addtwords (guiname : ByteString) (twords : List Checksum256)
  | recoverpsw (guiname : ByteString) (twords : List Checksum256) (newpassword : Checksum256)
  | upversionu (guiname : ByteString)
  | addaccount (guiname : ByteString) (account : Name)
  | rmaccount (guiname : ByteString) (account : Name)
  | addserver (guiname server : ByteString)
  | rmserver (guiname server : ByteString)
  | addtemplateu (guiname : ByteString) (templateId : UInt64)
  | rmtemplateu (guiname : ByteString) (templateId : UInt64)
  | addpluginu (guiname : ByteString) (pluginId : UInt64)
  | rmpluginu (guiname : ByteString) (pluginId : UInt64)
  | turnonplugin (guiname : ByteString) (pluginId : UInt64)
  | turnofplugin (guiname : ByteString) (pluginId : UInt64)
  | addhistory (owner composition : Name) (object : HistoryObject) (type : ByteString)
  | linkperm (owner composition permName : Name)
  | sti (s : ByteString)
  | checkoff (accountName : Name)
deriving DecidableEq

def silent (outcome : Except Abort Contract) : Except Abort (Contract × List Printed) :=
  (fun contract => (contract, [])) <$> outcome

/-- Run one action of the interface: the contract object it leaves and what it prints. -/
def dispatch (context : Context) (contract : Contract) :
    Action → Except Abort (Contract × List Printed)
  | .addtemplateg id categoryName name desc code rateScore =>
    silent (addtemplateg context id categoryName name desc code rateScore contract)
  | .addpluging id pluginName pluginDesc required =>
    silent (addpluging context id pluginName pluginDesc required contract)
  | .upversiong version => silent (upversiong context version contract)
  | .rmpluging => silent (rmpluging context contract)
  | .rmusers => rmusers context contract
  | .waversion => silent (waversion context contract)
  | .adduser guiname password version => adduser context guiname password version contract
  | .addtwords guiname twords => addtwords context guiname twords contract
  | .recoverpsw guiname twords newpassword => recoverpsw context guiname twords newpassword contract
  | .upversionu guiname => upversionu context guiname contract
  | .addaccount guiname account => addaccount context guiname account contract
  | .rmaccount guiname account => rmaccount context guiname account contract
  | .addserver guiname server => addserver context guiname server contract
  | .rmserver guiname server => rmserver context guiname server contract
  | .addtemplateu guiname templateId => addtemplateu context guiname templateId contract
  | .rmtemplateu guiname templateId => rmtemplateu context guiname templateId contract
  | .addpluginu guiname pluginId => addpluginu context guiname pluginId contract
  | .rmpluginu guiname pluginId => rmpluginu context guiname pluginId contract
  | .turnonplugin guiname pluginId => turnonplugin context guiname pluginId contract
  | .turnofplugin guiname pluginId => turnofplugin context guiname pluginId contract
  | .addhistory owner composition object type =>
    silent (addhistory context owner composition object type contract)
  | .linkperm owner composition permName =>
    silent (linkperm context owner composition permName contract)
  | .sti s => sti context s contract
  | .checkoff accountName => silent (checkoff context accountName contract)

/-- An action with its authorising accounts, the block time and the memory it allocates from. -/
structure Tx where
  auth : List Name
  now : TimePoint
  memory : Memory
  action : Action

def Tx.context (host : Host) (tx : Tx) : Context :=
  { host with auth := tx.auth, now := tx.now, memory := tx.memory }

/-- The tables after a transaction, or nothing when it aborts. Each action runs in a contract object of
its own. -/
def step (host : Host) (state : State) (tx : Tx) : Option State :=
  match dispatch (tx.context host) (Contract.construct state) tx.action with
  | .ok (contract, _) => some contract.destruct
  | .error _ => none

end LocalChain.Inerygui
