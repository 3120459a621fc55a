import LocalChain.Inery.Db
import LocalChain.Inery.MultiIndex

/-! What a `multi_index` is for: a table, and cursors that stand on its rows. -/
namespace LocalChain.Inery

open LocalChain.Store
open MultiIndex (unsetNextPrimaryKey)

variable {schema : Schema}

/-- What is looked up, and in which order the rows stand then. -/
inductive Target (schema : Schema) where
  | primary (key : UInt64)
  | index (i : Fin schema.indices) (secondary : schema.Secondary i)

/-- The order in which rows are walked. -/
inductive Path (schema : Schema) where
  | primary
  | index (i : Fin schema.indices)

def Target.find? (table : Table schema.primaryKey) : Target schema → Option schema.Row
  | primary key => table.find? key
  | index i secondary => table.indexFind (schema.extractSecondaryKey i) secondary

def Target.lowerBound? (table : Table schema.primaryKey) : Target schema → Option schema.Row
  | primary key => table.lowerBound key
  | index i secondary => table.indexLowerBound (schema.extractSecondaryKey i) secondary

def Target.upperBound? (table : Table schema.primaryKey) : Target schema → Option schema.Row
  | primary key => table.next? key
  | index i secondary => table.indexUpperBound (schema.extractSecondaryKey i) secondary

def Path.next? (table : Table schema.primaryKey) (row : schema.Row) : Path schema → Option schema.Row
  | primary => table.next? (schema.primaryKey row)
  | index i => table.indexNext (schema.extractSecondaryKey i) row

/-- The row before another one, or the last row. -/
def Path.previous? (table : Table schema.primaryKey) (itr : Option schema.Row) : Path schema → Option schema.Row
  | primary => itr.elim table.last? fun row => table.previous? (schema.primaryKey row)
  | index i => table.indexPrevious (schema.extractSecondaryKey i) itr

/-- What `--itr` says when there is no row to go to. -/
def Path.stuck (itr : Option schema.Row) (path : Path schema) : String :=
  match path, itr with
  | primary, none => "cannot decrement end iterator when the table is empty"
  | primary, some _ => "cannot decrement iterator at beginning of table"
  | index _, none => "cannot decrement end iterator when the index is empty"
  | index _, some _ => "cannot decrement iterator at beginning of index"

def fail (message : String) {α : Type} : Except Fault α := .error (.abort (.check message))

/-- Where `++itr` goes. -/
def Path.increment (table : Table schema.primaryKey) (itr : Option schema.Row) (path : Path schema) :
    Except Fault (Option schema.Row) :=
  match itr with
  | none => fail "cannot increment end iterator"
  | some row => .ok (path.next? table row)

/-- A row that must be there. -/
def found (row? : Option schema.Row) (message : String) : Except Fault (Option schema.Row) :=
  match row? with
  | some row => .ok (some row)
  | none => fail message

/-- Where `--itr` goes. -/
def Path.decrement (table : Table schema.primaryKey) (itr : Option schema.Row) (path : Path schema) :
    Except Fault (Option schema.Row) :=
  found (path.previous? table itr) (path.stuck itr)

/-- What a contract asks of a `multi_index` object, whose iterators it keeps in variables. -/
inductive Command (schema : Schema) where
  | construct
  | assign (itr other : Nat)
  | finish (itr : Nat)
  | find (itr : Nat) (target : Target schema)
  | requireFind (itr : Nat) (target : Target schema) (errorMsg : String)
  | get (target : Target schema) (errorMsg : String)
  | lowerBound (itr : Nat) (target : Target schema)
  | upperBound (itr : Nat) (target : Target schema)
  | increment (itr : Nat) (path : Path schema)
  | decrement (itr : Nat) (path : Path schema)
  | read (itr : Nat)
  | equal (itr other : Nat)
  | availablePrimaryKey
  | emplace (itr : Nat) (fresh : schema.Row) (constructor : schema.Row → schema.Row)
  | modify (itr : Nat) (updater : schema.Row → schema.Row)
  | erase (itr : Nat) (path : Path schema)
  | eraseObject (itr : Nat)

/-- What a call returns to the contract, besides the iterator that it moves. -/
abbrev Command.Output : Command schema → Type
  | get _ _ | read _ => schema.Row
  | equal _ _ => Bool
  | availablePrimaryKey => UInt64
  | _ => Unit

def Command.writes : Command schema → Bool
  | emplace _ _ _ | modify _ _ | erase _ _ | eraseObject _ => true
  | _ => false

/-- `end()`, a row, or a row that has been erased. -/
inductive Cursor where
  | finish
  | row (key : UInt64)
  | dead
deriving DecidableEq

/-- A table, and what the object in front of it remembers. -/
structure View (schema : Schema) where
  table : Table schema.primaryKey
  next : UInt64
  /-- The contract that runs owns the table. -/
  own : Bool
  cursors : Nat → Cursor

namespace View

/-- The row a variable stands on, or nothing for `end()`. -/
def row? (view : View schema) (itr : Nat) : Except Fault (Option schema.Row) :=
  match view.cursors itr with
  | .finish => .ok none
  | .row key => .ok (view.table.find? key)
  | .dead => .error .undefined

def place (view : View schema) (itr : Nat) (row? : Option schema.Row) : View schema :=
  { view with cursors := Function.update view.cursors itr (row?.elim .finish fun row => .row (schema.primaryKey row)) }

/-- The next free primary key moves past a key that is written. -/
def pass (next pk : UInt64) : UInt64 :=
  if next ≤ pk then
    if MultiIndex.noAvailablePrimaryKey ≤ pk then MultiIndex.noAvailablePrimaryKey else pk + 1
  else next

/-- One variable stands where another one stands. -/
def copy (view : View schema) (itr other : Nat) : View schema :=
  { view with cursors := Function.update view.cursors itr (view.cursors other) }

/-- The row is written with what the updater makes of it. -/
def rewrite (view : View schema) (row : schema.Row) (updater : schema.Row → schema.Row) : View schema :=
  { view with
    table := view.table.put (updater row)
    next := pass view.next (schema.primaryKey row) }

/-- Cursors on a row that is erased are dead. -/
def bury (cursors : Nat → Cursor) (key : UInt64) (itr : Nat) : Cursor :=
  if cursors itr = .row key then .dead else cursors itr

def owned (view : View schema) (message : String) : Except Fault Unit :=
  if view.own then .ok () else fail message

/-- An object is packed into less than half of the contract's memory. -/
def packed (row : schema.Row) : Except Fault Unit :=
  if packSize row < 2 ^ 31 then .ok () else .error .undefined

def lift {α : Type} (outcome : Except Abort α) : Except Fault α := outcome.mapError .abort

def remove (view : View schema) (row : schema.Row) : Except Fault (View schema) := do
  view.owned "cannot erase objects in table of another contract"
  let (_, table) ← lift (MultiIndex.erase view.table (some row))
  return { view with table, cursors := bury view.cursors (schema.primaryKey row) }

def step (command : Command schema) : StateT (View schema) (Except Fault) command.Output := fun view =>
  match command with
  | .construct => return ((), { view with next := unsetNextPrimaryKey, cursors := fun _ => .finish })
  | .assign itr other => return ((), view.copy itr other)
  | .finish itr => return ((), view.place itr none)
  | .find itr target => return ((), view.place itr (target.find? view.table))
  | .requireFind itr target errorMsg => do
    let at? ← found (target.find? view.table) errorMsg
    return ((), view.place itr at?)
  | .get target errorMsg => do
    let row ← (target.find? view.table).elim (fail errorMsg) .ok
    return (row, view)
  | .lowerBound itr target => return ((), view.place itr (target.lowerBound? view.table))
  | .upperBound itr target => return ((), view.place itr (target.upperBound? view.table))
  | .increment itr path => do
    let at? ← view.row? itr
    let next? ← path.increment view.table at?
    return ((), view.place itr next?)
  | .decrement itr path => do
    let at? ← view.row? itr
    let previous? ← path.decrement view.table at?
    return ((), view.place itr previous?)
  | .read itr => do
    let row ← (← view.row? itr).elim (.error .undefined) .ok
    return (row, view)
  | .equal itr other => do
    let _ ← view.row? itr
    let _ ← view.row? other
    return (view.cursors itr = view.cursors other, view)
  | .availablePrimaryKey => do
    let key ← lift (MultiIndex.availablePrimaryKey view.next view.table)
    return (key, { view with next := key })
  | .emplace itr fresh constructor => do
    view.owned "cannot create objects in table of another contract"
    packed (constructor fresh)
    let table ← lift (MultiIndex.emplace view.table fresh constructor)
    return ((), place { view with table, next := pass view.next (schema.primaryKey (constructor fresh)) } itr
      (some (constructor fresh)))
  | .modify itr updater => do
    let at? ← view.row? itr
    match at? with
    | none => fail "cannot pass end iterator to modify"
    | some row =>
      view.owned "cannot modify objects in table of another contract"
      let table ← lift (MultiIndex.modify view.table at? updater)
      packed (updater row)
      return ((), { view with table, next := pass view.next (schema.primaryKey row) })
  | .erase itr path => do
    match ← view.row? itr with
    | none => fail "cannot pass end iterator to erase"
    | some row =>
      let rest ← view.remove row
      return ((), rest.place itr (path.next? view.table row))
  | .eraseObject itr => do
    match ← view.row? itr with
    | none => .error .undefined
    | some row =>
      let rest ← view.remove row
      return ((), rest)

end View

end LocalChain.Inery
