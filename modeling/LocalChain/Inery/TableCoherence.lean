import LocalChain.Inery.TableObject
import LocalChain.Refine.Client
import Mathlib.Data.List.Nodup

/-! The rows a `multi_index` object has loaded agree with the tables of the host. -/
namespace LocalChain.Inery.TableObject

open LocalChain.Store LocalChain.Wire
open LocalChain.Refine (run_bind_ok run_bind_error)

variable {schema : Schema} {labelling : Labelling UInt64} {table : Table schema.primaryKey}
  {world after : World schema labelling}

def record (row : schema.Row) : Record := ⟨schema.primaryKey row, format.bytes row⟩

def entry (i : Fin schema.indices) (row : schema.Row) : Entry (schema.Secondary i) :=
  ⟨schema.primaryKey row, schema.extractSecondaryKey i row⟩

theorem record_primary (row : schema.Row) : (record row).primary = schema.primaryKey row := rfl

theorem entry_primary (i : Fin schema.indices) (row : schema.Row) : (entry i row).primary = schema.primaryKey row :=
  rfl

theorem entry_secondary (i : Fin schema.indices) (row : schema.Row) :
    (entry i row).secondary = schema.extractSecondaryKey i row := rfl

/-- The host keeps the rows of the table, packed and indexed. -/
structure Represents (db : Db schema labelling) (table : Table schema.primaryKey) : Prop where
  records : db.primary.rows = table.image record record_primary
  entries : ∀ i, (db.secondary i).rows = table.image (entry i) (entry_primary i)
  short : ∀ row ∈ table.rows, packSize row < 2 ^ 31

/-- An iterator stands for the row with a key. -/
def Stands {ρ : Type} {key : ρ → UInt64} (handled : Handled labelling key) (itr : Iterator) (k : UInt64) : Prop :=
  ∃ number, itr = .row number ∧ handled.names number = some k

/-- A loaded row is as the table has it, and its iterators stand for it. -/
structure Loaded (db : Db schema labelling) (table : Table schema.primaryKey) (ptr : ItemPtr schema) : Prop where
  stored : ptr.item.obj ∈ table.rows
  shared : ptr.primaryItr = ptr.item.primaryItr
  primaryItr : Stands db.primary ptr.item.primaryItr (schema.primaryKey ptr.item.obj)
  iters : ∀ i, ptr.item.iters i ≠ .missing →
    Stands (db.secondary i) (ptr.item.iters i) (schema.primaryKey ptr.item.obj)

structure Coherent (world : World schema labelling) (table : Table schema.primaryKey) : Prop
    extends Represents world.db table where
  loaded : ∀ ptr ∈ world.itemsVector, Loaded world.db table ptr
  keys : (world.itemsVector.map fun ptr => schema.primaryKey ptr.item.obj).Nodup
  addresses : (world.itemsVector.map ItemPtr.address).Nodup
  allocated : ∀ ptr ∈ world.itemsVector, ptr.address < world.allocated

theorem Represents.empty (numbers : labelling.State) :
    Represents (Db.empty numbers : Db schema labelling) Table.empty where
  records := rfl
  entries _ := rfl
  short := fun _ present => absurd present List.not_mem_nil

theorem Represents.length_rows {db : Db schema labelling} (represents : Represents db table) :
    db.primary.rows.rows.length = table.rows.length := by
  rw [represents.records]
  exact List.length_map _

/-- A fresh object has loaded nothing. -/
theorem Represents.object {db : Db schema labelling} (represents : Represents db table) (receiver code : Name) :
    Coherent (db.object receiver code) table where
  toRepresents := represents
  loaded := fun _ member => absurd member List.not_mem_nil
  keys := .nil
  addresses := .nil
  allocated := fun _ member => absurd member List.not_mem_nil

/-- The primary key of the item at an address. -/
def keyAt (world : World schema labelling) (address : Nat) : Option UInt64 :=
  (world.itemsVector.find? fun ptr => ptr.address = address).map fun ptr => schema.primaryKey ptr.item.obj

/-- More rows may have been loaded. Nothing else has changed. -/
structure Loads (table : Table schema.primaryKey) (world after : World schema labelling) : Prop where
  coherent : Coherent after table
  allocated : world.allocated ≤ after.allocated
  keyAt : ∀ address < world.allocated, keyAt after address = keyAt world address
  primary : world.db.primary.Extends after.db.primary
  secondary : ∀ i, (world.db.secondary i).Extends (after.db.secondary i)
  receiver : after.receiver = world.receiver
  code : after.code = world.code
  nextPrimaryKey : after.nextPrimaryKey = world.nextPrimaryKey

/-- A pointer to a row of the table, or `end()`. -/
def PointsTo (world : World schema labelling) (itr : Pointer) (row? : Option schema.Row) : Prop :=
  itr.map (keyAt world) = row?.map fun row => some (schema.primaryKey row)

/-- The code ends with a pointer to a row, or with `end()`. -/
def Finds (table : Table schema.primaryKey) (world : World schema labelling) (code : Code schema labelling Pointer)
    (row? : Option schema.Row) : Prop :=
  ∃ itr after, code.run world = .ok (itr, after) ∧ Loads table world after ∧ PointsTo after itr row?

/-! Iterators. -/

section Iterators

variable {ρ : Type} {key : ρ → UInt64} {handled later : Handled labelling key} {itr other : Iterator} {k l : UInt64}
  {row : ρ}

theorem Stands.extends (stands : Stands handled itr k) (grown : handled.Extends later) : Stands later itr k := by
  obtain ⟨number, rfl, named⟩ := stands
  exact ⟨number, rfl, grown number k named⟩

theorem Stands.key_unique (stands : Stands handled itr k) (also : Stands handled itr l) : k = l := by
  obtain ⟨number, rfl, named⟩ := stands
  obtain ⟨_, same, again⟩ := also
  obtain rfl := Iterator.row.inj same
  exact Option.some.inj (named.symm.trans again)

theorem Stands.unique (stands : Stands handled itr k) (also : Stands handled other k) : itr = other := by
  obtain ⟨number, rfl, named⟩ := stands
  obtain ⟨_, rfl, again⟩ := also
  rw [labelling.unique named again]

theorem Stands.not_negative (stands : Stands handled itr k) : itr.negative = false := by
  obtain ⟨number, rfl, named⟩ := stands
  rfl

theorem Stands.ne_tableEnd (stands : Stands handled itr k) : itr ≠ .tableEnd := by
  rintro rfl
  exact absurd stands.not_negative nofun

theorem Stands.dereference (stands : Stands handled itr k) (held : handled.rows.find? k = some row) :
    Inery.dereference handled itr = .ok row := by
  obtain ⟨number, rfl, named⟩ := stands
  rw [Inery.dereference, Handled.row?_of_names named, held]
  rfl

theorem stands_iteratorTo (row : ρ) (otherwise : Iterator) :
    Stands (iteratorTo handled (some row) otherwise).2 (iteratorTo handled (some row) otherwise).1 (key row) :=
  ⟨_, rfl, Handled.names_number row⟩

theorem rows_iteratorTo (row? : Option ρ) (otherwise : Iterator) :
    (iteratorTo handled row? otherwise).2.rows = handled.rows := by
  cases row? <;> rfl

theorem extends_iteratorTo (row? : Option ρ) (otherwise : Iterator) :
    handled.Extends (iteratorTo handled row? otherwise).2 := by
  cases row? with
  | none => exact .refl handled
  | some row => exact Handled.extends_number row

end Iterators

/-! Loading. -/

theorem Loads.refl (coherent : Coherent world table) : Loads table world world :=
  ⟨coherent, le_rfl, fun _ _ => rfl, .refl _, fun _ => .refl _, rfl, rfl, rfl⟩

theorem Loads.trans {middle : World schema labelling} (first : Loads table world middle)
    (second : Loads table middle after) : Loads table world after where
  coherent := second.coherent
  allocated := first.allocated.trans second.allocated
  keyAt address old :=
    (second.keyAt address (old.trans_le first.allocated)).trans (first.keyAt address old)
  primary n k named := second.primary n k (first.primary n k named)
  secondary i n k named := second.secondary i n k (first.secondary i n k named)
  receiver := second.receiver.trans first.receiver
  code := second.code.trans first.code
  nextPrimaryKey := second.nextPrimaryKey.trans first.nextPrimaryKey

theorem Loads.grown (loads : Loads table world after) : world.db.Extends after.db := ⟨loads.primary, loads.secondary⟩

theorem run_current (world : World schema labelling) :
    (current : Code schema labelling (World schema labelling)).run world = .ok (world, world) := rfl

theorem run_onPrimary {α : Type} {value : α} {primary : Handled labelling Record.primary}
    {call : Handled labelling Record.primary → Except Fault (α × Handled labelling Record.primary)}
    (called : call world.db.primary = .ok (value, primary)) :
    (onPrimary call : Code schema labelling α).run world =
      .ok (value, { world with db := { world.db with primary } }) := by
  change (call world.db.primary >>= _) = _
  rw [called]
  rfl

theorem run_onIndex {α : Type} {value : α} {i : Fin schema.indices}
    {handled : Handled labelling (Entry.primary (ν := schema.Secondary i))}
    {call : Handled labelling (Entry.primary (ν := schema.Secondary i)) →
      Except Fault (α × Handled labelling (Entry.primary (ν := schema.Secondary i)))}
    (called : call (world.db.secondary i) = .ok (value, handled)) :
    (onIndex i call : Code schema labelling α).run world =
      .ok (value,
        { world with db := { world.db with secondary := Function.update world.db.secondary i handled } }) := by
  change (call (world.db.secondary i) >>= _) = _
  rw [called]
  rfl

/-- Numbering rows of the primary table changes nothing. -/
theorem Coherent.renumbered {primary : Handled labelling Record.primary} (coherent : Coherent world table)
    (rows : primary.rows = world.db.primary.rows) (grown : world.db.primary.Extends primary) :
    Loads table world { world with db := { world.db with primary } } where
  coherent := {
    records := rows.trans coherent.records
    entries := coherent.entries
    short := coherent.short
    loaded := fun ptr member =>
      let loaded := coherent.loaded ptr member
      ⟨loaded.stored, loaded.shared, loaded.primaryItr.extends grown, loaded.iters⟩
    keys := coherent.keys
    addresses := coherent.addresses
    allocated := coherent.allocated
  }
  allocated := le_rfl
  keyAt _ _ := rfl
  primary := grown
  secondary _ := .refl _
  receiver := rfl
  code := rfl
  nextPrimaryKey := rfl

theorem Coherent.reindexed {i : Fin schema.indices} {handled : Handled labelling (Entry.primary (ν := schema.Secondary i))}
    (coherent : Coherent world table) (rows : handled.rows = (world.db.secondary i).rows)
    (grown : (world.db.secondary i).Extends handled) :
    Loads table world
      { world with db := { world.db with secondary := Function.update world.db.secondary i handled } } where
  coherent := {
    records := coherent.records
    entries := fun j => by
      by_cases same : j = i
      · subst same
        simp only [Function.update_self]
        exact rows.trans (coherent.entries j)
      · simp only [Function.update_of_ne same]
        exact coherent.entries j
    short := coherent.short
    loaded := fun ptr member => {
      stored := (coherent.loaded ptr member).stored
      shared := (coherent.loaded ptr member).shared
      primaryItr := (coherent.loaded ptr member).primaryItr
      iters := fun j known => by
        have stands := (coherent.loaded ptr member).iters j known
        by_cases same : j = i
        · subst same
          simp only [Function.update_self]
          exact stands.extends grown
        · simp only [Function.update_of_ne same]
          exact stands
    }
    keys := coherent.keys
    addresses := coherent.addresses
    allocated := coherent.allocated
  }
  allocated := le_rfl
  keyAt _ _ := rfl
  primary := .refl _
  secondary j := by
    by_cases same : j = i
    · subst same
      simpa only [Function.update_self] using grown
    · simp only [Function.update_of_ne same]
      exact .refl _
  receiver := rfl
  code := rfl
  nextPrimaryKey := rfl

/-! Items. -/

theorem Coherent.find?_address (coherent : Coherent world table) {ptr : ItemPtr schema}
    (member : ptr ∈ world.itemsVector) :
    world.itemsVector.find? (fun other => other.address = ptr.address) = some ptr := by
  cases found : world.itemsVector.find? (fun other => other.address = ptr.address) with
  | none => exact absurd (decide_eq_true rfl) (List.find?_eq_none.mp found ptr member)
  | some other =>
    have same : other.address = ptr.address := by simpa using List.find?_some found
    rw [List.inj_on_of_nodup_map coherent.addresses (List.mem_of_find?_eq_some found) member same]

theorem Coherent.keyAt_of_mem (coherent : Coherent world table) {ptr : ItemPtr schema}
    (member : ptr ∈ world.itemsVector) : keyAt world ptr.address = some (schema.primaryKey ptr.item.obj) := by
  rw [keyAt, coherent.find?_address member]
  rfl

theorem PointsTo.end_iff {itr : Pointer} : PointsTo world itr none ↔ itr = none := Option.map_eq_none_iff

/-- A pointer to a row leads to its item. -/
theorem Coherent.dereference (coherent : Coherent world table) {itr : Pointer} {row : schema.Row}
    (present : row ∈ table.rows) (points : PointsTo world itr (some row)) :
    ∃ ptr ∈ world.itemsVector, itr = some ptr.address ∧ ptr.item.obj = row ∧
      (TableObject.dereference itr : Code schema labelling (ItemPtr schema)).run world = .ok (ptr, world) := by
  obtain ⟨address, rfl, pointed⟩ := Option.map_eq_some_iff.mp points
  obtain ⟨ptr, found, same⟩ := Option.map_eq_some_iff.mp pointed
  have member := List.mem_of_find?_eq_some found
  have placed : ptr.address = address := by simpa using List.find?_some found
  refine ⟨ptr, member, congrArg some placed.symm,
    table.key_injective (coherent.loaded ptr member).stored present same, ?_⟩
  rw [TableObject.dereference, run_bind_ok (run_current world), Option.bind_some, found]
  rfl

@[simp] theorem address_edit {address : Nat} {f : Item schema → Item schema} (ptr : ItemPtr schema) :
    (ItemPtr.edit address f ptr).address = ptr.address := by
  rw [ItemPtr.edit]
  split <;> rfl

theorem key_edit {address : Nat} {f : Item schema → Item schema} {ptr : ItemPtr schema}
    (same : ptr.address = address → schema.primaryKey (f ptr.item).obj = schema.primaryKey ptr.item.obj) :
    schema.primaryKey (ItemPtr.edit address f ptr).item.obj = schema.primaryKey ptr.item.obj := by
  rw [ItemPtr.edit]
  split
  · rename_i here
    exact same here
  · rfl

/-- Editing an item in place keeps it where it is and under its key. -/
theorem keyAt_edit {target : Nat} {f : Item schema → Item schema}
    (same : ∀ ptr ∈ world.itemsVector, ptr.address = target →
      schema.primaryKey (f ptr.item).obj = schema.primaryKey ptr.item.obj)
    (items : after.itemsVector = world.itemsVector.map (ItemPtr.edit target f)) (address : Nat) :
    keyAt after address = keyAt world address := by
  rw [keyAt, keyAt, items, List.find?_map, Option.map_map]
  simp only [Function.comp_def, address_edit]
  cases found : world.itemsVector.find? (fun ptr => ptr.address = address) with
  | none => rfl
  | some ptr => exact congrArg some (key_edit (same ptr (List.mem_of_find?_eq_some found)))

theorem Coherent.setIter {ptr : ItemPtr schema} {i : Fin schema.indices} {itr : Iterator}
    (coherent : Coherent world table) (member : ptr ∈ world.itemsVector)
    (stands : Stands (world.db.secondary i) itr (schema.primaryKey ptr.item.obj)) :
    ∃ after, (TableObject.setIter ptr.address i itr : Code schema labelling Unit).run world = .ok ((), after) ∧
      Loads table world after ∧ ∀ address, TableObject.keyAt after address = TableObject.keyAt world address := by
  let f : Item schema → Item schema := fun item => { item with iters := Function.update item.iters i itr }
  let after := { world with itemsVector := world.itemsVector.map (ItemPtr.edit ptr.address f) }
  have pointed : ∀ address, TableObject.keyAt after address = TableObject.keyAt world address :=
    keyAt_edit (f := f) (fun _ _ _ => rfl) rfl
  refine ⟨after, rfl, ⟨⟨⟨coherent.records, coherent.entries, coherent.short⟩, ?_, ?_, ?_, ?_⟩, le_rfl,
    fun address _ => pointed address, .refl _, fun _ => .refl _, rfl, rfl, rfl⟩, pointed⟩
  · intro edited inside
    obtain ⟨old, before, rfl⟩ := List.mem_map.mp inside
    have loaded := coherent.loaded old before
    rw [ItemPtr.edit]
    split
    · rename_i here
      obtain rfl := List.inj_on_of_nodup_map coherent.addresses before member here
      refine ⟨loaded.stored, loaded.shared, loaded.primaryItr, fun j known => ?_⟩
      by_cases same : j = i
      · subst same
        simpa only [f, Function.update_self] using stands
      · simp only [f, Function.update_of_ne same] at known ⊢
        exact loaded.iters j known
    · exact loaded
  · have same (other : ItemPtr schema) : schema.primaryKey (ItemPtr.edit ptr.address f other).item.obj =
        schema.primaryKey other.item.obj := key_edit fun _ => rfl
    simpa only [after, List.map_map, Function.comp_def, same] using coherent.keys
  · simpa only [after, List.map_map, Function.comp_def, address_edit] using coherent.addresses
  · intro edited inside
    obtain ⟨old, before, rfl⟩ := List.mem_map.mp inside
    rw [address_edit]
    exact coherent.allocated old before

theorem Coherent.fresh (coherent : Coherent world table) {address : Nat} (beyond : world.allocated ≤ address) :
    keyAt world address = none := by
  rw [keyAt, Option.map_eq_none_iff, List.find?_eq_none]
  intro ptr member
  have inside := coherent.allocated ptr member
  simp only [decide_eq_true_eq]
  omega

theorem Coherent.below_allocated (coherent : Coherent world table) {address : Nat} {k : UInt64}
    (points : keyAt world address = some k) : address < world.allocated := by
  by_contra beyond
  rw [coherent.fresh (by omega)] at points
  cases points

theorem keyAt_append (ptr : ItemPtr schema) (absent : keyAt world ptr.address = none)
    (appended : after.itemsVector = world.itemsVector ++ [ptr]) (address : Nat) :
    keyAt after address =
      if address = ptr.address then some (schema.primaryKey ptr.item.obj) else keyAt world address := by
  rw [keyAt, appended, List.find?_append]
  split
  · rename_i here
    subst here
    rw [Option.map_eq_none_iff.mp absent]
    simp
  · rename_i elsewhere
    rw [keyAt, List.find?_singleton, if_neg (by simpa using Ne.symm elsewhere), Option.or_none]

/-- A row that is not loaded yet is added to the vector. -/
theorem Coherent.emplaceBack (coherent : Coherent world table) (item : Item schema) (pk : UInt64)
    (stored : item.obj ∈ table.rows)
    (primaryItr : Stands world.db.primary item.primaryItr (schema.primaryKey item.obj))
    (iters : ∀ i, item.iters i ≠ .missing →
      Stands (world.db.secondary i) (item.iters i) (schema.primaryKey item.obj))
    (absent : ∀ ptr ∈ world.itemsVector, schema.primaryKey ptr.item.obj ≠ schema.primaryKey item.obj) :
    ∃ after, (TableObject.emplaceBack item pk item.primaryItr : Code schema labelling Nat).run world =
        .ok (world.allocated, after) ∧
      Loads table world after ∧ keyAt after world.allocated = some (schema.primaryKey item.obj) := by
  let ptr : ItemPtr schema := ⟨world.allocated, item, pk, item.primaryItr⟩
  let after := { world with itemsVector := world.itemsVector ++ [ptr], allocated := world.allocated + 1 }
  have pointed := keyAt_append ptr (coherent.fresh le_rfl) (show after.itemsVector = _ from rfl)
  refine ⟨after, rfl, ⟨⟨⟨coherent.records, coherent.entries, coherent.short⟩, ?_, ?_, ?_, ?_⟩, Nat.le_succ _,
    fun address old => ?_, .refl _, fun _ => .refl _, rfl, rfl, rfl⟩, ?_⟩
  · intro other inside
    rcases List.mem_append.mp inside with member | last
    · exact coherent.loaded other member
    · obtain rfl := List.mem_singleton.mp last
      exact ⟨stored, rfl, primaryItr, iters⟩
  · rw [List.map_append, List.map_singleton]
    refine List.nodup_append.mpr ⟨coherent.keys, List.nodup_singleton _, fun k old last taken => ?_⟩
    obtain ⟨other, member, rfl⟩ := List.mem_map.mp old
    exact fun same => absent other member (same.trans (List.mem_singleton.mp taken))
  · rw [List.map_append, List.map_singleton]
    refine List.nodup_append.mpr ⟨coherent.addresses, List.nodup_singleton _, fun k old last taken => ?_⟩
    obtain ⟨other, member, rfl⟩ := List.mem_map.mp old
    exact fun same => (coherent.allocated other member).ne (same.trans (List.mem_singleton.mp taken))
  · intro other inside
    rcases List.mem_append.mp inside with member | last
    · exact (coherent.allocated other member).trans (Nat.lt_succ_self _)
    · obtain rfl := List.mem_singleton.mp last
      exact Nat.lt_succ_self _
  · rw [pointed, if_neg (Nat.ne_of_lt old)]
  · rw [pointed, if_pos rfl]

theorem Represents.record_held {db : Db schema labelling} (represents : Represents db table) {row : schema.Row}
    (present : row ∈ table.rows) : db.primary.rows.find? (schema.primaryKey row) = some (record row) := by
  rw [represents.records, Table.find?_image, Table.find?_self present]
  rfl

theorem Represents.entry_held {db : Db schema labelling} (represents : Represents db table) {row : schema.Row}
    (present : row ∈ table.rows) (i : Fin schema.indices) :
    (db.secondary i).rows.find? (schema.primaryKey row) = some (entry i row) := by
  rw [represents.entries, Table.find?_image, Table.find?_self present]
  rfl

theorem length_bytes_lt (coherent : Coherent world table) {row : schema.Row} (present : row ∈ table.rows) :
    (format.bytes row).length < 2 ^ 31 :=
  packSize_eq row ▸ coherent.short row present

theorem unpack_bytes (coherent : Coherent world table) {row : schema.Row} (present : row ∈ table.rows) :
    unpack (format.bytes row) = .ok row := by
  have short := length_bytes_lt coherent present
  have unpacked := unpack_eq (LawfulSerialize.faithful.reads row (by omega)) []
  rwa [List.append_nil] at unpacked

/-- Loading a row that the host has an iterator to. -/
theorem Coherent.load (coherent : Coherent world table) {itr : Iterator} {row : schema.Row}
    (present : row ∈ table.rows) (stands : Stands world.db.primary itr (schema.primaryKey row)) :
    ∃ address after,
      (loadObjectByPrimaryIterator itr : Code schema labelling Nat).run world = .ok (address, after) ∧
        Loads table world after ∧ keyAt after address = some (schema.primaryKey row) := by
  rw [loadObjectByPrimaryIterator]
  have searched : (findLast fun ptr => ptr.primaryItr = itr : Code schema labelling _).run world =
      .ok (world.itemsVector.reverse.find? fun ptr => ptr.primaryItr = itr, world) := rfl
  rw [run_bind_ok searched]
  cases found : world.itemsVector.reverse.find? fun ptr => ptr.primaryItr = itr with
  | some ptr =>
    have member : ptr ∈ world.itemsVector := List.mem_reverse.mp (List.mem_of_find?_eq_some found)
    have loaded := coherent.loaded ptr member
    have same : ptr.primaryItr = itr := by simpa using List.find?_some found
    have key := loaded.primaryItr.key_unique (loaded.shared ▸ same ▸ stands)
    exact ⟨ptr.address, world, rfl, .refl coherent, key ▸ coherent.keyAt_of_mem member⟩
  | none =>
    have held := coherent.record_held present
    have size : (0 : Int32) ≤ Int32.ofNat (record row).data.length := by
      rw [record, Int32.le_iff_toInt_le, toInt_ofNat_size (length_bytes_lt coherent present)]
      exact Int.natCast_nonneg _
    have absent : ∀ ptr ∈ world.itemsVector, schema.primaryKey ptr.item.obj ≠ schema.primaryKey row := by
      intro ptr member same
      have loaded := coherent.loaded ptr member
      refine List.find?_eq_none.mp found ptr (List.mem_reverse.mpr member) (decide_eq_true ?_)
      exact loaded.shared.trans (Stands.unique (same ▸ loaded.primaryItr) stands)
    obtain ⟨after, added, loads, points⟩ := coherent.emplaceBack ⟨row, itr, fun _ => .missing⟩
      (schema.primaryKey row) present stands (fun i known => absurd rfl known) absent
    refine ⟨_, after, ?_, loads, points⟩
    have called : (onPrimary fun handled => do
        let row ← Inery.dereference handled itr
        return (row, handled) : Code schema labelling Record).run world = .ok (record row, world) := by
      apply run_onPrimary
      rw [stands.dereference held]
      rfl
    rw [run_bind_ok called, require, if_pos (decide_eq_true size), pure_bind, record, unpack_bytes coherent present]
    exact added

end LocalChain.Inery.TableObject
