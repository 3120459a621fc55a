import LocalChain.Inery.Dispatcher
import LocalChain.K2ultra.Run

namespace LocalChain.K2ultra

open LocalChain.Inery LocalChain.Store LocalChain.Wire
open LocalChain.Refine (run_map_ok)

/-! Rows as the database keeps them. -/

instance : Serialize Adresses where
  format := format.via Adresses.scope Adresses.mk

instance : Serialize Requests where
  format := format.via
    (fun row => (row.scope, row.contact, row.alias, row.key, row.cntct, row.favorite, row.blocked, row.muted,
      row.pending))
    (fun (scope, contact, «alias», key, cntct, favorite, blocked, muted, pending) =>
      ⟨scope, contact, «alias», key, cntct, favorite, blocked, muted, pending⟩)

instance : Serialize Messages where
  format := format.via (fun row => (row.id, row.time, row.sender, row.replyTo, row.seen, row.data))
    (fun (id, time, sender, replyTo, seen, data) => ⟨id, time, sender, replyTo, seen, data⟩)

instance : Serialize Profiles where
  format := format.via
    (fun row => (row.owner, row.officialName, row.password, row.twordhash, row.rsaPub, row.requests,
      row.contacts, row.favorites, row.blocked, row.pending))
    (fun (owner, officialName, password, twordhash, rsaPub, requests, contacts, favorites, blocked, pending) =>
      ⟨owner, officialName, password, twordhash, rsaPub, requests, contacts, favorites, blocked, pending⟩)

instance : LawfulSerialize Adresses where
  faithful := LawfulSerialize.faithful.via fun _ => rfl

instance : LawfulSerialize Requests where
  faithful := LawfulSerialize.faithful.via fun _ => rfl

instance : LawfulSerialize Messages where
  faithful := LawfulSerialize.faithful.via fun _ => rfl

instance : LawfulSerialize Profiles where
  faithful := LawfulSerialize.faithful.via fun _ => rfl

/-- Every row is loaded from the database as it was stored. -/
theorem rows_reloaded (adresses : Adresses) (requests : Requests) (messages : Messages) (profiles : Profiles) :
    Reloads adresses ∧ Reloads requests ∧ Reloads messages ∧ Reloads profiles :=
  ⟨reloads adresses, reloads requests, reloads messages, reloads profiles⟩

/-! Methods that `execute_action` calls. -/

/-- The arguments of an action, packed as a tuple by the caller. -/
def Action.pack : Action → Except StreamError (List UInt8)
  | .reguser owner password twordhash rsaPub => Inery.pack (owner, password, twordhash, rsaPub)
  | .login owner => Inery.pack owner
  | .getuserbyhash s => Inery.pack s
  | .deleteuser owner => Inery.pack owner
  | .deletereqs owner => Inery.pack owner
  | .deletereqs2 owner contact => Inery.pack (owner, contact)
  | .changersa owner rsaPub => Inery.pack (owner, rsaPub)
  | .sendrequest from' to' key => Inery.pack (from', to', key)
  | .resprequest owner from' key accept => Inery.pack (owner, from', key, accept)
  | .rmcontact owner contact => Inery.pack (owner, contact)
  | .blockcontact owner contact status => Inery.pack (owner, contact, status)
  | .favcontact owner contact status => Inery.pack (owner, contact, status)
  | .mutecontact owner contact status => Inery.pack (owner, contact, status)
  | .sendmsg scope sender data replyTo => Inery.pack (scope, sender, data, replyTo)
  | .deletemesgs scope => Inery.pack scope
  | .rraddr => .ok []
  | .changealias owner contact newAlias => Inery.pack (owner, contact, newAlias)
  | .changepsw owner password => Inery.pack (owner, password)
  | .setoffname owner officialName => Inery.pack (owner, officialName)
  | .getunseen scope sender => Inery.pack (scope, sender)
  | .seenmsg scope receiver => Inery.pack (scope, receiver)
  | .addadr => .ok []
  | .rrprofiles => .ok []
  | .pump max => Inery.pack max
  | .forcerequest scope cnt1 cnt2 key1 key2 => Inery.pack (scope, cnt1, cnt2, key1, key2)
  | .pushmsg scope sender data replyTo => Inery.pack (scope, sender, data, replyTo)

/-- The tuple that `execute_action` reads for the method. -/
def ActionName.args : ActionName → Reading StreamError Action
  | .reguser => (fun (owner, password, twordhash, rsaPub) => .reguser owner password twordhash rsaPub) <$> format.read
  | .login => .login <$> format.read
  | .getuserbyhash => .getuserbyhash <$> format.read
  | .deleteuser => .deleteuser <$> format.read
  | .deletereqs => .deletereqs <$> format.read
  | .deletereqs2 => (fun (owner, contact) => .deletereqs2 owner contact) <$> format.read
  | .changersa => (fun (owner, rsaPub) => .changersa owner rsaPub) <$> format.read
  | .sendrequest => (fun (from', to', key) => .sendrequest from' to' key) <$> format.read
  | .resprequest => (fun (owner, from', key, accept) => .resprequest owner from' key accept) <$> format.read
  | .rmcontact => (fun (owner, contact) => .rmcontact owner contact) <$> format.read
  | .blockcontact => (fun (owner, contact, status) => .blockcontact owner contact status) <$> format.read
  | .favcontact => (fun (owner, contact, status) => .favcontact owner contact status) <$> format.read
  | .mutecontact => (fun (owner, contact, status) => .mutecontact owner contact status) <$> format.read
  | .sendmsg => (fun (scope, sender, data, replyTo) => .sendmsg scope sender data replyTo) <$> format.read
  | .deletemesgs => .deletemesgs <$> format.read
  | .rraddr => pure .rraddr
  | .changealias => (fun (owner, contact, newAlias) => .changealias owner contact newAlias) <$> format.read
  | .changepsw => (fun (owner, password) => .changepsw owner password) <$> format.read
  | .setoffname => (fun (owner, officialName) => .setoffname owner officialName) <$> format.read
  | .getunseen => (fun (scope, sender) => .getunseen scope sender) <$> format.read
  | .seenmsg => (fun (scope, receiver) => .seenmsg scope receiver) <$> format.read
  | .addadr => pure .addadr
  | .rrprofiles => pure .rrprofiles
  | .pump => .pump <$> format.read
  | .forcerequest =>
    (fun (scope, cnt1, cnt2, key1, key2) => .forcerequest scope cnt1 cnt2 key1 key2) <$> format.read
  | .pushmsg => (fun (scope, sender, data, replyTo) => .pushmsg scope sender data replyTo) <$> format.read

/-- A transaction in which `execute_action` gets the method `func` of the contract, and `data` is the action
data. What leads from the name of an action to the method is generated with the contract. -/
structure Call where
  auth : List Name
  now : TimePoint
  heap : Nat → Memory
  func : ActionName
  data : List UInt8

def Call.execute (host : Host) (state : State) (call : Call) : Except Stop (State × List Printed) :=
  executeAction call.func.args
    (dispatch { host with auth := call.auth, now := call.now, heap := call.heap } state) call.data

def Call.step (host : Host) (state : State) (call : Call) : Option State :=
  match call.execute host state with
  | .ok (next, _) => some next
  | .error _ => none

/-- The method with the arguments that the action data starts with. -/
def Call.tx? (call : Call) : Option Tx :=
  match call.func.args.run call.data with
  | .ok (action, _) => some ⟨call.auth, call.now, call.heap, action⟩
  | .error _ => none

/-- The caller packs the arguments of the transaction. More bytes may follow them. -/
structure Tx.SentAs (tx : Tx) (call : Call) : Prop where
  auth : call.auth = tx.auth
  now : call.now = tx.now
  heap : call.heap = tx.heap
  func : call.func = tx.action.name
  packed : ∃ data, tx.action.pack = .ok data ∧ data.length < 2 ^ 31 ∧ data <+: call.data

variable {host : Host} {action : Action} {data : List UInt8}

theorem args_packed (packed : action.pack = .ok data) (short : data.length < 2 ^ 31) (rest : List UInt8) :
    action.name.args.run (data ++ rest) = .ok (action, rest) := by
  cases action
  case rraddr | addadr | rrprofiles =>
    obtain rfl := Except.ok.inj packed
    rfl
  all_goals exact run_map_ok (read_packed packed short rest)

theorem Tx.SentAs.decoded {tx : Tx} {call : Call} (sent : tx.SentAs call) : call.tx? = some tx := by
  obtain ⟨data, packed, short, rest, same⟩ := sent.packed
  rw [Call.tx?, sent.func, ← same, args_packed packed short rest, sent.auth, sent.now, sent.heap]

theorem Call.execute_decoded (state : State) {call : Call} {tx : Tx} (decoded : call.tx? = some tx) :
    call.execute host state = (dispatch (tx.context host) state tx.action).mapError .action := by
  rw [Call.tx?] at decoded
  split at decoded
  · rename_i action rest read
    obtain rfl := Option.some.inj decoded
    rw [Call.execute, executeAction_ok read]
    rfl
  · cases decoded

theorem Call.execute_undecoded (state : State) {call : Call} (undecoded : call.tx? = none) :
    ∃ reason, call.execute host state = .error (.stream reason) := by
  rw [Call.tx?] at undecoded
  split at undecoded
  · cases undecoded
  · rename_i reason read
    exact ⟨reason, executeAction_error read⟩

theorem Call.step_eq (host : Host) (state : State) (call : Call) :
    call.step host state = call.tx?.bind (K2ultra.step host state) := by
  rw [Call.step]
  cases decoded : call.tx? with
  | none =>
    obtain ⟨reason, stopped⟩ := Call.execute_undecoded state decoded
    rw [stopped]
    rfl
  | some tx =>
    rw [Call.execute_decoded state decoded, Option.bind_some, K2ultra.step]
    cases dispatch (tx.context host) state tx.action <;> rfl

/-- `execute_action` does what the method does with the arguments that the data start with, and stops where
they do not start with any. A list of calls takes the course of these actions, and every list of actions takes
its own course when the arguments are packed. -/
theorem calls_run (host : Host) :
    (∀ state call tx, Call.tx? call = some tx →
      call.execute host state = (dispatch (tx.context host) state tx.action).mapError .action) ∧
    (∀ state call, Call.tx? call = none → ∃ reason, call.execute host state = .error (.stream reason)) ∧
    ∀ calls, run (Call.step host) State.initial calls = reached host (calls.filterMap Call.tx?) ∧
      ∀ txs, List.Forall₂ Tx.SentAs txs calls → run (Call.step host) State.initial calls = reached host txs := by
  refine ⟨fun state _ _ => Call.execute_decoded state, fun state _ => Call.execute_undecoded state, fun calls => ?_⟩
  refine ⟨run_filterMap (Call.step_eq host) State.initial calls, fun txs sent => ?_⟩
  exact run_of_decoded (Call.step_eq host) State.initial (sent.imp fun _ _ => Tx.SentAs.decoded)

end LocalChain.K2ultra
