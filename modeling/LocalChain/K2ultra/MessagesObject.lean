import LocalChain.Inery.TableProgram
import LocalChain.K2ultra.Wire

/-! The actions on messages, as calls on a `messages_t` object. -/
namespace LocalChain.K2ultra

open LocalChain.Inery LocalChain.Store LocalChain.Refine
open TableProgram (call itr theEnd notEnd eraseAll)

def Messages.bySender (row : Messages) : UInt64 := row.sender.value

/-- `messages_t`, indexed by sender and by the seen mark. -/
abbrev messagesSchema : Schema where
  Row := Messages
  primaryKey := Messages.primaryKey
  indices := 2
  Secondary _ := UInt64
  extractSecondaryKey
    | 0, row => row.bySender
    | 1, row => row.bySeen

/-- `get_index<"seen"_n>()` -/
def seenIndex : Fin messagesSchema.indices := 1

/-- More variables of the contract, beside its iterator and the one that `end()` returns. -/
def theBegin : Nat := 2

def itrModify : Nat := 3

def nextItr : Nat := 4

def newRow : Nat := 5

/-- The id of a new message. The object is asked again when there are messages already. -/
def askMessageId : TableProgram messagesSchema UInt64 := do
  let next ← call .availablePrimaryKey
  if next = 0 then return 1 else call .availablePrimaryKey

/-- What `sendmsg` and `pushmsg` do to the table. -/
def postMessage (context : Context) (sender : Name) (data : ByteString) (replyTo seen : UInt64) :
    TableProgram messagesSchema UInt64 := do
  let newId ← askMessageId
  call (.emplace newRow (Messages.fresh (context.heap 0)) (Messages.posted newId context.now sender data replyTo seen))
  return newId

/-- `itr != idx.begin()` -/
def notBegin : TableProgram messagesSchema Bool := do
  call (.lowerBound theBegin (.index seenIndex (0 : UInt64)))
  let same ← call (.equal itr theBegin)
  return !same

/-- The condition of the loop of `getunseen`. -/
def walksOn (left cnt : Nat) : TableProgram messagesSchema Bool := do
  if ← notBegin then
    let row ← call (.read itr)
    return row.seen = 0 ∧ 0 < left ∧ cnt < 100
  else return false

def unseenLoop (sender : Name) : Nat → Nat → TableProgram messagesSchema (Nat × Nat)
  | 0, cnt => do
    let _ ← walksOn 0 cnt
    return (0, cnt)
  | left + 1, cnt => do
    if ← walksOn (left + 1) cnt then
      let row ← call (.read itr)
      call (.decrement itr (.index seenIndex))
      unseenLoop sender left (if row.sender = sender then cnt + 1 else cnt)
    else return (left + 1, cnt)

/-- What `getunseen` reads from the table. -/
def countUnseen (sender : Name) : TableProgram messagesSchema Nat := do
  call (.upperBound itr (.index seenIndex (0 : UInt64)))
  if ← notBegin then
    call (.decrement itr (.index seenIndex))
    let (left, cnt) ← unseenLoop sender 1000 0
    let row ← call (.read itr)
    return if row.seen = 0 ∧ row.sender = sender ∧ 0 < left then cnt + 1 else cnt
  else return 0

/-- A round of the loop of `seenmsg`. -/
def markOne : TableProgram messagesSchema Unit := do
  let row ← call (.read itr)
  call (.find itrModify (.primary row.id))
  if ← notEnd itrModify then
    call (.assign nextItr itr)
    call (.increment nextItr (.index seenIndex))
    call (.modify itrModify Messages.setSeen)
    call (.assign itr nextItr)
  else call (.increment itr (.index seenIndex))

def seenLoop : Nat → TableProgram messagesSchema Nat
  | 0 => do
    let _ ← notEnd itr
    return 0
  | left + 1 => do
    if ← notEnd itr then
      markOne
      seenLoop left
    else return left + 1

/-- What `seenmsg` does to the table. -/
def markSeen : TableProgram messagesSchema (List Printed) := do
  call (.lowerBound itr (.index seenIndex (0 : UInt64)))
  if ← notEnd itr then
    let row ← call (.read itr)
    if row.seen = 1 then return [.int 0]
    else
      let left ← seenLoop 1000
      return if left = 0 then [.int 1] else []
  else return [.int 0]

/-! The tables of messages on the host, one for each scope. -/

variable {labelling : Labelling UInt64} {α : Type}

abbrev MessageTables (labelling : Labelling UInt64) := UInt64 → Db messagesSchema labelling

namespace MessageTables

variable (tables : MessageTables labelling)

/-- Work on a `messages_t` object for a scope. -/
def onScope (context : Context) (scope : UInt64) (program : TableProgram messagesSchema α) :
    Except Fault (α × MessageTables labelling) :=
  Prod.map id (Function.update tables scope) <$> program.onObject context.self (tables scope)

def sendmsg (context : Context) (scope : UInt64) (sender : Name) (data : ByteString) (replyTo : UInt64) :
    Except Fault (List Printed × MessageTables labelling) := do
  View.lift (context.requireAuth sender)
  let (newId, tables) ← tables.onScope context scope (postMessage context sender data replyTo 0)
  let timeStr := toString context.now.secSinceEpoch
  return ([.string ("\x7b\"time\": \"" ++ timeStr ++ "\", \"id\":" ++ toString newId ++ "\x7d")], tables)

def pushmsg (context : Context) (scope sender : Name) (data : ByteString) (replyTo : UInt64) :
    Except Fault (List Printed × MessageTables labelling) :=
  Prod.map (fun _ => []) id <$> tables.onScope context scope.value (postMessage context sender data replyTo 1)

def getunseen (context : Context) (scope : UInt64) (sender : Name) :
    Except Fault (List Printed × MessageTables labelling) :=
  Prod.map (fun total : Nat => [.int total]) id <$> tables.onScope context scope (countUnseen sender)

def seenmsg (context : Context) (scope : UInt64) : Except Fault (List Printed × MessageTables labelling) :=
  tables.onScope context scope markSeen

/-- The loop gets as much fuel as the host has rows. -/
def deletemesgs (context : Context) (scope : UInt64) : Except Fault (List Printed × MessageTables labelling) :=
  Prod.map (fun _ => []) id <$> tables.onScope context scope (eraseAll (tables scope).primary.rows.rows.length)

/-- An action on messages. The others have no `messages_t` object. -/
def dispatch (context : Context) : Action → Except Fault (List Printed × MessageTables labelling)
  | .sendmsg scope sender data replyTo => tables.sendmsg context scope sender data replyTo
  | .pushmsg scope sender data replyTo => tables.pushmsg context scope sender data replyTo
  | .getunseen scope sender => tables.getunseen context scope sender
  | .seenmsg scope _ => tables.seenmsg context scope
  | .deletemesgs scope => tables.deletemesgs context scope
  | _ => return ([], tables)

def initial (numbers : labelling.State) : MessageTables labelling := fun _ => .empty numbers

/-- A transaction, as far as the messages go. -/
def step (host : Host) (tables : MessageTables labelling) (tx : Tx) : Option (MessageTables labelling) :=
  match tables.dispatch (tx.context host) tx.action with
  | .ok (_, next) => some next
  | .error _ => none

/-- The messages that the host has after a list of transactions from empty tables. -/
def reached (host : Host) (numbers : labelling.State) (txs : List Tx) : MessageTables labelling :=
  run (step host) (initial numbers) txs

end MessageTables

end LocalChain.K2ultra
