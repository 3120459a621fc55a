import LocalChain.Inery.Dispatcher
import LocalChain.Inerygui.Run

namespace LocalChain.Inerygui

open LocalChain.Inery LocalChain.Store LocalChain.Wire
open LocalChain.Refine (run_map_ok)
open LocalChain.K2ultra (Host)

/-! Rows as the database keeps them. -/

instance : Serialize Tmplt where
  format := format.via
    (fun row => (row.id, row.categoryName, row.templateName, row.templateDesc, row.code, row.rateScore,
      row.dateCreated))
    (fun (id, categoryName, templateName, templateDesc, code, rateScore, dateCreated) =>
      ⟨id, categoryName, templateName, templateDesc, code, rateScore, dateCreated⟩)

instance : Serialize Plugin where
  format := format.via (fun row => (row.id, row.required, row.pluginName, row.pluginDesc))
    (fun (id, required, pluginName, pluginDesc) => ⟨id, required, pluginName, pluginDesc⟩)

instance : Serialize UserPlugin where
  format := format.via (fun row => (row.id, row.active, row.lastTimeUsed))
    (fun (id, active, lastTimeUsed) => ⟨id, active, lastTimeUsed⟩)

instance : Serialize HistoryObject where
  format := format.via (fun object => (object.blockNum, object.transactionId, object.timeExecuted))
    (fun (blockNum, transactionId, timeExecuted) => ⟨blockNum, transactionId, timeExecuted⟩)

instance : LawfulSerialize Tmplt where
  faithful := LawfulSerialize.faithful.via fun _ => rfl

instance : LawfulSerialize Plugin where
  faithful := LawfulSerialize.faithful.via fun _ => rfl

instance : LawfulSerialize UserPlugin where
  faithful := LawfulSerialize.faithful.via fun _ => rfl

instance : LawfulSerialize HistoryObject where
  faithful := LawfulSerialize.faithful.via fun _ => rfl

instance : Serialize GlobalInfo where
  format := format.via (fun row => (row.version, row.templates, row.plugins))
    (fun (version, templates, plugins) => ⟨version, templates, plugins⟩)

instance : Serialize User where
  format := format.via
    (fun row => (row.id, row.guiname, row.password, row.twords, row.accounts, row.servers, row.templates,
      row.plugins, row.version))
    (fun (id, guiname, password, twords, accounts, servers, templates, plugins, version) =>
      ⟨id, guiname, password, twords, accounts, servers, templates, plugins, version⟩)

instance : Serialize History where
  format := format.via
    (fun row => (row.composition, row.guiname, row.createhistory, row.updatehistory, row.deletehistory))
    (fun (composition, guiname, createhistory, updatehistory, deletehistory) =>
      ⟨composition, guiname, createhistory, updatehistory, deletehistory⟩)

instance : Serialize Permissions where
  format := format.via (fun row => (row.composition, row.permName)) (fun (composition, permName) =>
    ⟨composition, permName⟩)

instance : LawfulSerialize GlobalInfo where
  faithful := LawfulSerialize.faithful.via fun _ => rfl

instance : LawfulSerialize User where
  faithful := LawfulSerialize.faithful.via fun _ => rfl

instance : LawfulSerialize History where
  faithful := LawfulSerialize.faithful.via fun _ => rfl

instance : LawfulSerialize Permissions where
  faithful := LawfulSerialize.faithful.via fun _ => rfl

/-! The sizes that accounts are billed for are those of the packed rows. -/

theorem HistoryObject.packSize_packed (object : HistoryObject) : Inery.packSize object = object.packSize := by
  have members : Inery.packSize object =
    Inery.packSize (object.blockNum, object.transactionId, object.timeExecuted) := rfl
  simp [members, HistoryObject.packSize, Nat.add_assoc]

theorem History.packSize_packed (row : History) : Inery.packSize row = row.packSize := by
  have members : Inery.packSize row = Inery.packSize
    (row.composition, row.guiname, row.createhistory, row.updatehistory, row.deletehistory) := rfl
  have objects : (Inery.packSize : HistoryObject → Nat) = HistoryObject.packSize :=
    funext HistoryObject.packSize_packed
  simp [members, History.packSize, objects, Nat.add_assoc]

theorem Permissions.packSize_packed (row : Permissions) : Inery.packSize row = row.packSize := by
  have members : Inery.packSize row = Inery.packSize (row.composition, row.permName) := rfl
  simp [members, Permissions.packSize]

/-- Every row is loaded from the database as it was stored, and billed for as many bytes as it takes. -/
theorem gui_rows_reloaded (global : GlobalInfo) (user : User) (history : History) (permissions : Permissions) :
    Reloads global ∧ Reloads user ∧ Reloads history ∧ Inery.packSize history = history.packSize ∧
      Reloads permissions ∧ Inery.packSize permissions = permissions.packSize :=
  ⟨reloads global, reloads user, reloads history, history.packSize_packed, reloads permissions,
    permissions.packSize_packed⟩

/-! Methods that `execute_action` calls. -/

/-- The names under which the dispatcher knows the actions. -/
inductive ActionName where
  | addtemplateg | addpluging | upversiong | rmpluging | rmusers | waversion | adduser | addtwords
  | recoverpsw | upversionu | addaccount | rmaccount | addserver | rmserver | addtemplateu
  | rmtemplateu | addpluginu | rmpluginu | turnonplugin | turnofplugin | addhistory | linkperm | sti
  | checkoff
deriving DecidableEq

def Action.name : Action → ActionName
  | .addtemplateg .. => .addtemplateg
  | .addpluging .. => .addpluging
  | .upversiong .. => .upversiong
  | .rmpluging => .rmpluging
  | .rmusers => .rmusers
  | .waversion => .waversion
  | .adduser .. => .adduser
  | .addtwords .. => .addtwords
  | .recoverpsw .. => .recoverpsw
  | .upversionu .. => .upversionu
  | .addaccount .. => .addaccount
  | .rmaccount .. => .rmaccount
  | .addserver .. => .addserver
  | .rmserver .. => .rmserver
  | .addtemplateu .. => .addtemplateu
  | .rmtemplateu .. => .rmtemplateu
  | .addpluginu .. => .addpluginu
  | .rmpluginu .. => .rmpluginu
  | .turnonplugin .. => .turnonplugin
  | .turnofplugin .. => .turnofplugin
  | .addhistory .. => .addhistory
  | .linkperm .. => .linkperm
  | .sti .. => .sti
  | .checkoff .. => .checkoff

/-- The arguments of an action, packed as a tuple by the caller. -/
def Action.pack : Action → Except StreamError (List UInt8)
  | .addtemplateg id categoryName name desc code rateScore =>
    Inery.pack (id, categoryName, name, desc, code, rateScore)
  | .addpluging id pluginName pluginDesc required => Inery.pack (id, pluginName, pluginDesc, required)
  | .upversiong version => Inery.pack version
  | .rmpluging => .ok []
  | .rmusers => .ok []
  | .waversion => .ok []
  | .adduser guiname password version => Inery.pack (guiname, password, version)
  | .addtwords guiname twords => Inery.pack (guiname, twords)
  | .recoverpsw guiname twords newpassword => Inery.pack (guiname, twords, newpassword)
  | .upversionu guiname => Inery.pack guiname
  | .addaccount guiname account => Inery.pack (guiname, account)
  | .rmaccount guiname account => Inery.pack (guiname, account)
  | .addserver guiname server => Inery.pack (guiname, server)
  | .rmserver guiname server => Inery.pack (guiname, server)
  | .addtemplateu guiname templateId => Inery.pack (guiname, templateId)
  | .rmtemplateu guiname templateId => Inery.pack (guiname, templateId)
  | .addpluginu guiname pluginId => Inery.pack (guiname, pluginId)
  | .rmpluginu guiname pluginId => Inery.pack (guiname, pluginId)
  | .turnonplugin guiname pluginId => Inery.pack (guiname, pluginId)
  | .turnofplugin guiname pluginId => Inery.pack (guiname, pluginId)
  | .addhistory owner composition object type => Inery.pack (owner, composition, object, type)
  | .linkperm owner composition permName => Inery.pack (owner, composition, permName)
  | .sti s => Inery.pack s
  | .checkoff accountName => Inery.pack accountName

/-- The tuple that `execute_action` reads for the method. -/
def ActionName.args : ActionName → Reading StreamError Action
  | .addtemplateg =>
    (fun (id, categoryName, name, desc, code, rateScore) =>
      .addtemplateg id categoryName name desc code rateScore) <$> format.read
  | .addpluging =>
    (fun (id, pluginName, pluginDesc, required) => .addpluging id pluginName pluginDesc required) <$> format.read
  | .upversiong => .upversiong <$> format.read
  | .rmpluging => pure .rmpluging
  | .rmusers => pure .rmusers
  | .waversion => pure .waversion
  | .adduser => (fun (guiname, password, version) => .adduser guiname password version) <$> format.read
  | .addtwords => (fun (guiname, twords) => .addtwords guiname twords) <$> format.read
  | .recoverpsw =>
    (fun (guiname, twords, newpassword) => .recoverpsw guiname twords newpassword) <$> format.read
  | .upversionu => .upversionu <$> format.read
  | .addaccount => (fun (guiname, account) => .addaccount guiname account) <$> format.read
  | .rmaccount => (fun (guiname, account) => .rmaccount guiname account) <$> format.read
  | .addserver => (fun (guiname, server) => .addserver guiname server) <$> format.read
  | .rmserver => (fun (guiname, server) => .rmserver guiname server) <$> format.read
  | .addtemplateu => (fun (guiname, templateId) => .addtemplateu guiname templateId) <$> format.read
  | .rmtemplateu => (fun (guiname, templateId) => .rmtemplateu guiname templateId) <$> format.read
  | .addpluginu => (fun (guiname, pluginId) => .addpluginu guiname pluginId) <$> format.read
  | .rmpluginu => (fun (guiname, pluginId) => .rmpluginu guiname pluginId) <$> format.read
  | .turnonplugin => (fun (guiname, pluginId) => .turnonplugin guiname pluginId) <$> format.read
  | .turnofplugin => (fun (guiname, pluginId) => .turnofplugin guiname pluginId) <$> format.read
  | .addhistory =>
    (fun (owner, composition, object, type) => .addhistory owner composition object type) <$> format.read
  | .linkperm => (fun (owner, composition, permName) => .linkperm owner composition permName) <$> format.read
  | .sti => .sti <$> format.read
  | .checkoff => .checkoff <$> format.read

/-- A transaction in which `execute_action` gets the method `func` of the contract, and `data` is the action
data. What leads from the name of an action to the method is generated with the contract. -/
structure Call where
  auth : List Name
  now : TimePoint
  memory : Memory
  func : ActionName
  data : List UInt8

def Call.execute (host : Host) (state : State) (call : Call) : Except Stop (Contract × List Printed) :=
  executeAction call.func.args
    (dispatch { host with auth := call.auth, now := call.now, memory := call.memory } (.construct state))
    call.data

def Call.step (host : Host) (state : State) (call : Call) : Option State :=
  match call.execute host state with
  | .ok (contract, _) => some contract.destruct
  | .error _ => none

/-- The method with the arguments that the action data starts with. -/
def Call.tx? (call : Call) : Option Tx :=
  match call.func.args.run call.data with
  | .ok (action, _) => some ⟨call.auth, call.now, call.memory, action⟩
  | .error _ => none

/-- The caller packs the arguments of the transaction. More bytes may follow them. -/
structure Tx.SentAs (tx : Tx) (call : Call) : Prop where
  auth : call.auth = tx.auth
  now : call.now = tx.now
  memory : call.memory = tx.memory
  func : call.func = tx.action.name
  packed : ∃ data, tx.action.pack = .ok data ∧ data.length < 2 ^ 31 ∧ data <+: call.data

variable {host : Host} {action : Action} {data : List UInt8}

theorem args_packed (packed : action.pack = .ok data) (short : data.length < 2 ^ 31) (rest : List UInt8) :
    action.name.args.run (data ++ rest) = .ok (action, rest) := by
  cases action
  case rmpluging | rmusers | waversion =>
    obtain rfl := Except.ok.inj packed
    rfl
  all_goals exact run_map_ok (read_packed packed short rest)

theorem Tx.SentAs.decoded {tx : Tx} {call : Call} (sent : tx.SentAs call) : call.tx? = some tx := by
  obtain ⟨data, packed, short, rest, same⟩ := sent.packed
  rw [Call.tx?, sent.func, ← same, args_packed packed short rest, sent.auth, sent.now, sent.memory]

theorem Call.execute_decoded (state : State) {call : Call} {tx : Tx} (decoded : call.tx? = some tx) :
    call.execute host state = (dispatch (tx.context host) (.construct state) tx.action).mapError .action := by
  rw [Call.tx?] at decoded
  split at decoded
  · rename_i action rest read
    obtain rfl := Option.some.inj decoded
    rw [Call.execute, executeAction_ok read]
    rfl
  · cases decoded

theorem Call.execute_undecoded (state : State) {call : Call} (undecoded : call.tx? = none) :
    ∃ reason, call.execute host state = .error (.stream reason) := by
  rw [Call.tx?] at undecoded
  split at undecoded
  · cases undecoded
  · rename_i reason read
    exact ⟨reason, executeAction_error read⟩

theorem Call.step_eq (host : Host) (state : State) (call : Call) :
    call.step host state = call.tx?.bind (Inerygui.step host state) := by
  rw [Call.step]
  cases decoded : call.tx? with
  | none =>
    obtain ⟨reason, stopped⟩ := Call.execute_undecoded state decoded
    rw [stopped]
    rfl
  | some tx =>
    rw [Call.execute_decoded state decoded, Option.bind_some, Inerygui.step]
    cases dispatch (tx.context host) (.construct state) tx.action <;> rfl

/-- `execute_action` does what the method does with the arguments that the data start with, and stops where
they do not start with any. A list of calls takes the course of these actions, and every list of actions takes
its own course when the arguments are packed. -/
theorem calls_run_gui (host : Host) :
    (∀ state call tx, Call.tx? call = some tx →
      call.execute host state = (dispatch (tx.context host) (.construct state) tx.action).mapError .action) ∧
    (∀ state call, Call.tx? call = none → ∃ reason, call.execute host state = .error (.stream reason)) ∧
    ∀ calls, run (Call.step host) State.initial calls = reached host (calls.filterMap Call.tx?) ∧
      ∀ txs, List.Forall₂ Tx.SentAs txs calls → run (Call.step host) State.initial calls = reached host txs := by
  refine ⟨fun state _ _ => Call.execute_decoded state, fun state _ => Call.execute_undecoded state, fun calls => ?_⟩
  refine ⟨run_filterMap (Call.step_eq host) State.initial calls, fun txs sent => ?_⟩
  exact run_of_decoded (Call.step_eq host) State.initial (sent.imp fun _ _ => Tx.SentAs.decoded)

end LocalChain.Inerygui
