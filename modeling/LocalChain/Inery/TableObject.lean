import LocalChain.Inery.Db
import LocalChain.Inery.MultiIndex

/-! A `multi_index` object: the rows it has loaded, and how they follow the tables of the host. -/
namespace LocalChain.Inery

open LocalChain.Store
open MultiIndex (noAvailablePrimaryKey unsetNextPrimaryKey)

/-- The tables behind one `multi_index`: a primary table and one for each index. -/
structure Db (schema : Schema) (labelling : Labelling UInt64) where
  primary : Handled labelling Record.primary
  secondary : (i : Fin schema.indices) → Handled labelling (Entry.primary (ν := schema.Secondary i))

/-- Tables without rows. -/
def Db.empty {schema : Schema} {labelling : Labelling UInt64} (numbers : labelling.State) : Db schema labelling :=
  ⟨⟨.empty, numbers⟩, fun _ => ⟨.empty, numbers⟩⟩

/-- Every number of the host still stands for what it stood for. -/
structure Db.Extends {schema : Schema} {labelling : Labelling UInt64} (db later : Db schema labelling) : Prop where
  primary : db.primary.Extends later.primary
  secondary : ∀ i, (db.secondary i).Extends (later.secondary i)

theorem Db.Extends.refl {schema : Schema} {labelling : Labelling UInt64} (db : Db schema labelling) : db.Extends db :=
  ⟨.refl _, fun _ => .refl _⟩

structure Item (schema : Schema) where
  obj : schema.Row
  primaryItr : Iterator
  iters : Fin schema.indices → Iterator

structure ItemPtr (schema : Schema) where
  /-- Where `_item` points to. -/
  address : Nat
  item : Item schema
  primaryKey : UInt64
  primaryItr : Iterator

/-- The tables, and the object that a contract reaches them through. -/
structure World (schema : Schema) (labelling : Labelling UInt64) where
  db : Db schema labelling
  receiver : Name
  code : Name
  nextPrimaryKey : UInt64
  itemsVector : List (ItemPtr schema)
  /-- Addresses from here on have not been handed out yet. -/
  allocated : Nat

/-- The object that an action of `receiver` constructs for the tables of `code`. -/
def Db.object {schema : Schema} {labelling : Labelling UInt64} (db : Db schema labelling) (receiver code : Name) :
    World schema labelling where
  db := db
  receiver := receiver
  code := code
  nextPrimaryKey := unsetNextPrimaryKey
  itemsVector := []
  allocated := 0

/-- `const_iterator`: the address of an item, or nothing for `end()`. -/
abbrev Pointer := Option Nat

abbrev Code (schema : Schema) (labelling : Labelling UInt64) := StateT (World schema labelling) (Except Fault)

namespace TableObject

variable {schema : Schema} {labelling : Labelling UInt64} {α : Type}

def current : Code schema labelling (World schema labelling) := fun world => .ok (world, world)

def change (f : World schema labelling → World schema labelling) : Code schema labelling Unit :=
  fun world => .ok ((), f world)

/-- A fresh object under the same code and scope. -/
def construct : Code schema labelling Unit :=
  change fun world => { world with nextPrimaryKey := unsetNextPrimaryKey, itemsVector := [] }

def require (condition : Bool) (message : String) : Code schema labelling Unit :=
  if condition then return else throw (.abort (.check message))

def streamed (outcome : Except StreamError α) : Code schema labelling α :=
  match outcome with
  | .ok value => return value
  | .error reason => throw (.stream reason)

/-! Calls of the host. -/

def onPrimary (call : Handled labelling Record.primary → Except Fault (α × Handled labelling Record.primary)) :
    Code schema labelling α := fun world => do
  let (value, primary) ← call world.db.primary
  return (value, { world with db := { world.db with primary } })

def onIndex (i : Fin schema.indices)
    (call : Handled labelling (Entry.primary (ν := schema.Secondary i)) →
      Except Fault (α × Handled labelling (Entry.primary (ν := schema.Secondary i)))) :
    Code schema labelling α := fun world => do
  let (value, handled) ← call (world.db.secondary i)
  return (value, { world with db := { world.db with secondary := Function.update world.db.secondary i handled } })

/-! Items. -/

/-- The item behind a pointer. Following `end()`, or a pointer to an item that is gone, is undefined. -/
def dereference (itr : Pointer) : Code schema labelling (ItemPtr schema) := do
  let world ← current
  match itr.bind fun address => world.itemsVector.find? (fun ptr => ptr.address = address) with
  | some ptr => return ptr
  | none => throw .undefined

/-- `std::find_if` from the end of the vector. -/
def findLast (wanted : ItemPtr schema → Bool) : Code schema labelling (Option (ItemPtr schema)) := do
  let world ← current
  return world.itemsVector.reverse.find? wanted

def emplaceBack (item : Item schema) (pk : UInt64) (pitr : Iterator) : Code schema labelling Nat := do
  let world ← current
  change fun world => { world with
    itemsVector := world.itemsVector ++ [⟨world.allocated, item, pk, pitr⟩], allocated := world.allocated + 1 }
  return world.allocated

def ItemPtr.edit (address : Nat) (f : Item schema → Item schema) (ptr : ItemPtr schema) : ItemPtr schema :=
  if ptr.address = address then { ptr with item := f ptr.item } else ptr

def setItem (address : Nat) (f : Item schema → Item schema) : Code schema labelling Unit :=
  change fun world => { world with itemsVector := world.itemsVector.map (ItemPtr.edit address f) }

def setIter (address : Nat) (i : Fin schema.indices) (itr : Iterator) : Code schema labelling Unit :=
  setItem address fun item => { item with iters := Function.update item.iters i itr }

def loadObjectByPrimaryIterator (itr : Iterator) : Code schema labelling Nat := do
  match ← findLast fun ptr => ptr.primaryItr = itr with
  | some ptr => return ptr.address
  | none =>
    let row ← onPrimary fun handled => do
      let row ← Inery.dereference handled itr
      return (row, handled)
    require (0 ≤ Int32.ofNat row.data.length) "error reading iterator"
    let val : schema.Row ← streamed (unpack row.data)
    emplaceBack ⟨val, itr, fun _ => .missing⟩ (schema.primaryKey val) itr

/-- `end()` for a negative iterator, and the loaded row for the others. -/
def enter (itr : Iterator) : Code schema labelling Pointer :=
  if itr.negative then return none else some <$> loadObjectByPrimaryIterator itr

/-! Walking the primary table. -/

def find (primary : UInt64) : Code schema labelling Pointer := do
  match ← findLast fun ptr => schema.primaryKey ptr.item.obj = primary with
  | some ptr => return some ptr.address
  | none =>
    let itr ← onPrimary fun handled => .ok (dbFind handled primary)
    enter itr

def requireFind (primary : UInt64) (errorMsg : String) : Code schema labelling Pointer := do
  match ← findLast fun ptr => schema.primaryKey ptr.item.obj = primary with
  | some ptr => return some ptr.address
  | none =>
    let itr ← onPrimary fun handled => .ok (dbFind handled primary)
    require (!itr.negative) errorMsg
    enter itr

def get (primary : UInt64) (errorMsg : String) : Code schema labelling (ItemPtr schema) := do
  let result ← find primary
  require (result ≠ none) errorMsg
  dereference result

def lowerBound (primary : UInt64) : Code schema labelling Pointer := do
  let itr ← onPrimary fun handled => .ok (dbLowerboundI64 handled primary)
  enter itr

def upperBound (primary : UInt64) : Code schema labelling Pointer := do
  let itr ← onPrimary fun handled => .ok (dbUpperboundI64 handled primary)
  enter itr

def increment (itr : Pointer) : Code schema labelling Pointer := do
  require (itr ≠ none) "cannot increment end iterator"
  let ptr ← dereference itr
  let nextItr ← onPrimary fun handled => dbNextI64 handled ptr.item.primaryItr
  enter nextItr

def decrement (itr : Pointer) : Code schema labelling Pointer := do
  match itr with
  | none =>
    let ei ← onPrimary fun handled => .ok (dbEnd handled, handled)
    require (ei ≠ .missing) "cannot decrement end iterator when the table is empty"
    let prevItr ← onPrimary fun handled => dbPreviousI64 handled ei
    require (!prevItr.negative) "cannot decrement end iterator when the table is empty"
    some <$> loadObjectByPrimaryIterator prevItr
  | some _ =>
    let ptr ← dereference itr
    let prevItr ← onPrimary fun handled => dbPreviousI64 handled ptr.item.primaryItr
    require (!prevItr.negative) "cannot decrement iterator at beginning of table"
    some <$> loadObjectByPrimaryIterator prevItr

/-! Walking an index. -/

/-- Point to the row with a primary key, and remember where it stands in the index. -/
def settle (i : Fin schema.indices) (itr : Iterator) (primary : UInt64) : Code schema labelling Pointer := do
  let ptr ← dereference (← find primary)
  setIter ptr.address i itr
  return some ptr.address

def indexLowerBound (i : Fin schema.indices) (secondary : schema.Secondary i) : Code schema labelling Pointer := do
  let (itr, primary) ← onIndex i fun handled => .ok (dbIdxLowerbound handled secondary 0)
  if itr.negative then return none else settle i itr primary

def indexUpperBound (i : Fin schema.indices) (secondary : schema.Secondary i) : Code schema labelling Pointer := do
  let (itr, primary) ← onIndex i fun handled => .ok (dbIdxUpperbound handled secondary 0)
  if itr.negative then return none else settle i itr primary

def indexFind (i : Fin schema.indices) (secondary : schema.Secondary i) : Code schema labelling Pointer := do
  let lb ← indexLowerBound i secondary
  if lb = none then return none
  else
    let ptr ← dereference lb
    if secondary ≠ schema.extractSecondaryKey i ptr.item.obj then return none else return lb

def indexRequireFind (i : Fin schema.indices) (secondary : schema.Secondary i) (errorMsg : String) :
    Code schema labelling Pointer := do
  let lb ← indexLowerBound i secondary
  require (lb ≠ none) errorMsg
  let ptr ← dereference lb
  require (secondary = schema.extractSecondaryKey i ptr.item.obj) errorMsg
  return lb

def indexGet (i : Fin schema.indices) (secondary : schema.Secondary i) (errorMsg : String) :
    Code schema labelling (ItemPtr schema) := do
  let result ← indexFind i secondary
  require (result ≠ none) errorMsg
  dereference result

/-- Where an item stands in the index; looked up the first time. -/
def indexIterator (i : Fin schema.indices) (ptr : ItemPtr schema) : Code schema labelling Iterator := do
  if ptr.item.iters i = .missing then
    let idxitr ← onIndex i fun handled => .ok (dbFind handled (schema.primaryKey ptr.item.obj))
    setIter ptr.address i idxitr
    return idxitr
  else return ptr.item.iters i

def indexIteratorTo (i : Fin schema.indices) (itr : Pointer) : Code schema labelling Pointer := do
  let ptr ← dereference itr
  let _ ← indexIterator i ptr
  return itr

def indexIncrement (i : Fin schema.indices) (itr : Pointer) : Code schema labelling Pointer := do
  require (itr ≠ none) "cannot increment end iterator"
  let ptr ← dereference itr
  let idxitr ← indexIterator i ptr
  let (nextItr, nextPk) ← onIndex i fun handled => dbIdxNext handled idxitr 0
  if nextItr.negative then return none else settle i nextItr nextPk

def indexDecrement (i : Fin schema.indices) (itr : Pointer) : Code schema labelling Pointer := do
  match itr with
  | none =>
    let ei ← onIndex i fun handled => .ok (dbEnd handled, handled)
    require (ei ≠ .missing) "cannot decrement end iterator when the index is empty"
    let (prevItr, prevPk) ← onIndex i fun handled => dbIdxPrevious handled ei 0
    require (!prevItr.negative) "cannot decrement end iterator when the index is empty"
    settle i prevItr prevPk
  | some _ =>
    let ptr ← dereference itr
    let idxitr ← indexIterator i ptr
    let (prevItr, prevPk) ← onIndex i fun handled => dbIdxPrevious handled idxitr 0
    require (!prevItr.negative) "cannot decrement iterator at beginning of index"
    settle i prevItr prevPk

/-! Writing. -/

/-- `if( pk >= _next_primary_key )`, in `emplace` and in `modify` -/
def passPrimaryKey (pk : UInt64) : Code schema labelling Unit :=
  change fun world =>
    if world.nextPrimaryKey ≤ pk then
      { world with nextPrimaryKey := if noAvailablePrimaryKey ≤ pk then noAvailablePrimaryKey else pk + 1 }
    else world

/-- `hana::for_each( _indices, ... )`, where each index has its own table and its own place in `__iters`. -/
def forEachIndex (iters : Fin schema.indices → Iterator)
    (body : (i : Fin schema.indices) → Iterator → Handled labelling (Entry.primary (ν := schema.Secondary i)) →
      Except Fault (Iterator × Handled labelling (Entry.primary (ν := schema.Secondary i)))) :
    Code schema labelling (Fin schema.indices → Iterator) :=
  (List.finRange schema.indices).foldlM (fun iters i => do
    let itr ← onIndex i (body i (iters i))
    return Function.update iters i itr) iters

/-- The first call of `available_primary_key` looks for the last row. -/
def initNextPrimaryKey : Code schema labelling Unit := do
  let first ← lowerBound 0
  if first = none then change fun world => { world with nextPrimaryKey := 0 }
  else
    let ptr ← dereference (← decrement none)
    let pk := schema.primaryKey ptr.item.obj
    change fun world =>
      { world with nextPrimaryKey := if noAvailablePrimaryKey ≤ pk then noAvailablePrimaryKey else pk + 1 }

def availablePrimaryKey : Code schema labelling UInt64 := do
  let before ← current
  (if before.nextPrimaryKey = unsetNextPrimaryKey then initNextPrimaryKey else return : Code schema labelling Unit)
  let world ← current
  require (world.nextPrimaryKey < noAvailablePrimaryKey) "next primary key in table is at autoincrement limit"
  return world.nextPrimaryKey

def emplace (fresh : schema.Row) (constructor : schema.Row → schema.Row) : Code schema labelling Pointer := do
  let world ← current
  require (world.code = world.receiver) "cannot create objects in table of another contract"
  let obj := constructor fresh
  let data ← streamed (pack obj)
  let pk := schema.primaryKey obj
  let primaryItr ← onPrimary fun handled => dbStore handled ⟨pk, data⟩
  passPrimaryKey pk
  let iters ← forEachIndex (fun _ => .missing) fun i _ handled =>
    dbStore handled ⟨pk, schema.extractSecondaryKey i obj⟩
  some <$> emplaceBack ⟨obj, primaryItr, iters⟩ pk primaryItr

/-- What `modify` does to one index. -/
def updateEntry (item : Item schema) (obj : schema.Row) (i : Fin schema.indices) (indexitr : Iterator)
    (handled : Handled labelling (Entry.primary (ν := schema.Secondary i))) :
    Except Fault (Iterator × Handled labelling (Entry.primary (ν := schema.Secondary i))) :=
  let secondary := schema.extractSecondaryKey i obj
  if schema.extractSecondaryKey i item.obj ≠ secondary then do
    let (indexitr, handled) :=
      if indexitr.negative then dbFind handled (schema.primaryKey item.obj) else (indexitr, handled)
    let handled ← dbUpdate handled indexitr fun row => { row with secondary }
    return (indexitr, handled)
  else return (indexitr, handled)

def modifyObject (itr : Pointer) (updater : schema.Row → schema.Row) : Code schema labelling Unit := do
  let ptr ← dereference itr
  let world ← current
  require (world.code = world.receiver) "cannot modify objects in table of another contract"
  let pk := schema.primaryKey ptr.item.obj
  let obj := updater ptr.item.obj
  setItem ptr.address fun item => { item with obj }
  require (pk = schema.primaryKey obj) "updater cannot change primary key when modifying an object"
  let data ← streamed (pack obj)
  onPrimary fun handled => do
    let handled ← dbUpdate handled ptr.item.primaryItr fun row => { row with data }
    return ((), handled)
  passPrimaryKey pk
  let iters ← forEachIndex ptr.item.iters (updateEntry ptr.item obj)
  setItem ptr.address fun item => { item with iters }

def modify (itr : Pointer) (updater : schema.Row → schema.Row) : Code schema labelling Unit := do
  require (itr ≠ none) "cannot pass end iterator to modify"
  modifyObject itr updater

/-- What `erase` does to one index. -/
def eraseEntry (item : Item schema) (i : Fin schema.indices) (indexitr : Iterator)
    (handled : Handled labelling (Entry.primary (ν := schema.Secondary i))) :
    Except Fault (Iterator × Handled labelling (Entry.primary (ν := schema.Secondary i))) :=
  let (indexitr, handled) :=
    if indexitr.negative then dbFind handled (schema.primaryKey item.obj) else (indexitr, handled)
  if indexitr.negative then return (indexitr, handled)
  else do
    let handled ← dbRemove handled indexitr
    return (indexitr, handled)

def eraseObject (itr : Pointer) : Code schema labelling Unit := do
  let ptr ← dereference itr
  let world ← current
  require (world.code = world.receiver) "cannot erase objects in table of another contract"
  let pk := schema.primaryKey ptr.item.obj
  let found ← findLast fun other => schema.primaryKey other.item.obj = pk
  require found.isSome "attempt to remove object that was not in multi_index"
  onPrimary fun handled => do
    let handled ← dbRemove handled ptr.item.primaryItr
    return ((), handled)
  let _ ← forEachIndex ptr.item.iters (eraseEntry ptr.item)
  change fun world => { world with
    itemsVector := (world.itemsVector.reverse.eraseP fun other => schema.primaryKey other.item.obj = pk).reverse }

def erase (itr : Pointer) : Code schema labelling Pointer := do
  require (itr ≠ none) "cannot pass end iterator to erase"
  let next ← increment itr
  eraseObject itr
  return next

def indexErase (i : Fin schema.indices) (itr : Pointer) : Code schema labelling Pointer := do
  require (itr ≠ none) "cannot pass end iterator to erase"
  let next ← indexIncrement i itr
  eraseObject itr
  return next

end TableObject

end LocalChain.Inery
