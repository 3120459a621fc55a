import LocalChain.Inery.Serialize
import LocalChain.Store.Handled
import LocalChain.Store.Image

/-! The tables of the host, as `db.h` describes them, and the parameters of a `multi_index`. -/
namespace LocalChain.Inery

open LocalChain.Store

/-- The parameters of `multi_index`: the class of the rows, and what its indices extract from a row. -/
structure Schema where
  Row : Type
  [serialize : Serialize Row]
  [lawful : LawfulSerialize Row]
  primaryKey : Row → UInt64
  indices : Nat
  Secondary : Fin indices → Type
  [order : ∀ i, LinearOrder (Secondary i)]
  extractSecondaryKey : (i : Fin indices) → Row → Secondary i

attribute [instance] Schema.serialize Schema.lawful Schema.order

/-- `multi_index` without secondary indices. -/
abbrev Schema.unindexed (Row : Type) [Serialize Row] [LawfulSerialize Row] (primaryKey : Row → UInt64) : Schema where
  Row := Row
  primaryKey := primaryKey
  indices := 0
  Secondary := Fin.elim0
  order i := i.elim0
  extractSecondaryKey i := i.elim0

/-- Why a use of a table stops. Nothing is known of a use that the language leaves undefined. -/
inductive Fault where
  | abort (reason : Abort)
  | stream (reason : StreamError)
  | invalidIterator
  | undefined
deriving DecidableEq, Repr

/-- An iterator of the host: a number that stands for a row, `-1`, or a smaller number for the end of a table. -/
inductive Iterator where
  | row (number : Nat)
  | missing
  | tableEnd
deriving DecidableEq, Repr

/-- `itr < 0` -/
def Iterator.negative : Iterator → Bool
  | row _ => false
  | _ => true

/-- A row of a primary table: its key and the packed object. -/
structure Record where
  primary : UInt64
  data : List UInt8

/-- A row of an index: a secondary key and the primary key it belongs to. -/
structure Entry (ν : Type) where
  primary : UInt64
  secondary : ν

variable {ρ ν : Type} [LinearOrder ν] {key : ρ → UInt64} {labelling : Labelling UInt64}

/-! Calls on any of the tables. -/

section Calls

variable (handled : Handled labelling key)

/-- An iterator to a row that was looked for, or `otherwise`. -/
def iteratorTo (row? : Option ρ) (otherwise : Iterator) : Iterator × Handled labelling key :=
  match row? with
  | some row =>
    let (number, handled) := handled.number row
    (.row number, handled)
  | none => (otherwise, handled)

/-- The row an iterator points to. -/
def dereference (itr : Iterator) : Except Fault ρ :=
  match itr with
  | .row number => (handled.row? number).elim (.error .invalidIterator) .ok
  | _ => .error .invalidIterator

def dbFind (primary : UInt64) : Iterator × Handled labelling key :=
  iteratorTo handled (handled.rows.find? primary) .tableEnd

def dbEnd : Iterator := if handled.rows.rows.isEmpty then .missing else .tableEnd

def dbStore (row : ρ) : Except Fault (Iterator × Handled labelling key) :=
  match handled.store row with
  | some (number, handled) => .ok (.row number, handled)
  | none => .error (.abort .duplicateKey)

/-- The row changes, and stays under its primary key. -/
def dbUpdate (itr : Iterator) (f : ρ → ρ) : Except Fault (Handled labelling key) :=
  match itr with
  | .row number => (handled.update number f).elim (.error .invalidIterator) .ok
  | _ => .error .invalidIterator

def dbRemove (itr : Iterator) : Except Fault (Handled labelling key) :=
  match itr with
  | .row number => (handled.remove number).elim (.error .invalidIterator) .ok
  | _ => .error .invalidIterator

end Calls

/-! Calls on primary tables. -/

section Primary

variable (handled : Handled labelling Record.primary)

def dbLowerboundI64 (id : UInt64) : Iterator × Handled labelling Record.primary :=
  iteratorTo handled (handled.rows.lowerBound id) .tableEnd

def dbUpperboundI64 (id : UInt64) : Iterator × Handled labelling Record.primary :=
  iteratorTo handled (handled.rows.next? id) .tableEnd

def dbNextI64 (itr : Iterator) : Except Fault (Iterator × Handled labelling Record.primary) := do
  let row ← dereference handled itr
  return iteratorTo handled (handled.rows.next? row.primary) .tableEnd

def dbPreviousI64 (itr : Iterator) : Except Fault (Iterator × Handled labelling Record.primary) :=
  match itr with
  | .tableEnd => return iteratorTo handled handled.rows.last? .missing
  | _ => do
    let row ← dereference handled itr
    return iteratorTo handled (handled.rows.previous? row.primary) .missing

end Primary

/-! Calls on indices. They also tell the primary key of the row found. -/

section Index

variable (handled : Handled labelling (Entry.primary (ν := ν)))

def entryTo (found : Option (Entry ν)) (otherwise : Iterator) (primary : UInt64) :
    (Iterator × UInt64) × Handled labelling (Entry.primary (ν := ν)) :=
  let (itr, handled) := iteratorTo handled found otherwise
  ((itr, (found.map Entry.primary).getD primary), handled)

def dbIdxLowerbound (secondary : ν) (primary : UInt64) :
    (Iterator × UInt64) × Handled labelling (Entry.primary (ν := ν)) :=
  entryTo handled (handled.rows.indexLowerBound Entry.secondary secondary) .tableEnd primary

def dbIdxUpperbound (secondary : ν) (primary : UInt64) :
    (Iterator × UInt64) × Handled labelling (Entry.primary (ν := ν)) :=
  entryTo handled (handled.rows.indexUpperBound Entry.secondary secondary) .tableEnd primary

def dbIdxNext (itr : Iterator) (primary : UInt64) :
    Except Fault ((Iterator × UInt64) × Handled labelling (Entry.primary (ν := ν))) := do
  let entry ← dereference handled itr
  return entryTo handled (handled.rows.indexNext Entry.secondary entry) .tableEnd primary

def dbIdxPrevious (itr : Iterator) (primary : UInt64) :
    Except Fault ((Iterator × UInt64) × Handled labelling (Entry.primary (ν := ν))) :=
  match itr with
  | .tableEnd => return entryTo handled (handled.rows.indexPrevious Entry.secondary none) .missing primary
  | _ => do
    let entry ← dereference handled itr
    return entryTo handled (handled.rows.indexPrevious Entry.secondary (some entry)) .missing primary

end Index

end LocalChain.Inery
