import LocalChain.Inery.TableWalk
import LocalChain.Store.IndexOrder

/-! Writing through a `multi_index` object keeps the host and the loaded rows in step. -/
namespace LocalChain.Inery.TableObject

open LocalChain.Store
open LocalChain.Refine (run_bind_ok run_bind_error)

variable {schema : Schema} {labelling : Labelling UInt64} {table : Table schema.primaryKey}
  {world after : World schema labelling} {row : schema.Row} {itr : Pointer}

/-! The host's part. -/

section Calls

variable {ρ : Type} {key : ρ → UInt64} {handled : Handled labelling key} {itr : Iterator} {k : UInt64} {row : ρ}

theorem dbStore_absent (absent : handled.rows.find? (key row) = none) :
    ∃ itr later, dbStore handled row = .ok (itr, later) ∧ later.rows = handled.rows.put row ∧
      handled.Extends later ∧ Stands later itr (key row) := by
  rw [dbStore, Handled.store_of_absent absent]
  exact ⟨_, _, rfl, rfl, fun n k named => labelling.kept named _, _, rfl, labelling.names_number _ _⟩

theorem dbStore_present (present : (handled.rows.find? (key row)).isSome) :
    dbStore handled row = .error (.abort .duplicateKey) := by
  rw [dbStore, Handled.store_of_present present]

theorem dbUpdate_stands {f : ρ → ρ} (stands : Stands handled itr k) (held : handled.rows.find? k = some row)
    (same : key (f row) = k) :
    ∃ later, dbUpdate handled itr f = .ok later ∧ later.rows = handled.rows.put (f row) ∧ handled.Extends later := by
  obtain ⟨number, rfl, named⟩ := stands
  rw [dbUpdate, Handled.update_of_names named held same]
  exact ⟨_, rfl, rfl, fun _ _ => id⟩

theorem dbRemove_stands (stands : Stands handled itr k) (held : handled.rows.find? k = some row) :
    ∃ later, dbRemove handled itr = .ok later ∧ later.rows = handled.rows.erase k ∧
      ∀ {l}, l ≠ k → ∀ {other}, Stands handled other l → Stands later other l := by
  obtain ⟨number, rfl, named⟩ := stands
  rw [dbRemove, Handled.remove_of_names named held]
  refine ⟨_, rfl, rfl, fun {l} apart other => ?_⟩
  rintro ⟨n, rfl, also⟩
  exact ⟨n, rfl, labelling.spared also apart⟩

end Calls

/-! One call for each index. -/

variable {iters : Fin schema.indices → Iterator}
  {body : (i : Fin schema.indices) → Iterator → Handled labelling (Entry.primary (ν := schema.Secondary i)) →
    Except Fault (Iterator × Handled labelling (Entry.primary (ν := schema.Secondary i)))}
  {place : Fin schema.indices → Iterator}
  {secondary : (i : Fin schema.indices) → Handled labelling (Entry.primary (ν := schema.Secondary i))}

/-- The calls for some of the indices leave the others alone. -/
private theorem run_foldIndices (world : World schema labelling) (iters : Fin schema.indices → Iterator)
    {indices : List (Fin schema.indices)} (distinct : indices.Nodup)
    (each : ∀ i ∈ indices, body i (iters i) (world.db.secondary i) = .ok (place i, secondary i)) :
    ∃ after later, (indices.foldlM (fun iters i => do
        let itr ← onIndex i (body i (iters i))
        return Function.update iters i itr) iters : Code schema labelling _).run world =
          .ok (after, { world with db := { world.db with secondary := later } }) ∧
      (∀ i ∈ indices, after i = place i ∧ later i = secondary i) ∧
      ∀ i, i ∉ indices → after i = iters i ∧ later i = world.db.secondary i := by
  induction indices generalizing iters world with
  | nil => exact ⟨_, _, rfl, fun i member => absurd member List.not_mem_nil, fun _ _ => ⟨rfl, rfl⟩⟩
  | cons i rest ih =>
    obtain ⟨fresh, distinct⟩ := List.nodup_cons.mp distinct
    have first : (onIndex i (body i (iters i)) : Code schema labelling Iterator).run world = _ :=
      run_onIndex (each i List.mem_cons_self)
    have others : ∀ j ∈ rest, body j (Function.update iters i (place i) j)
        (Function.update world.db.secondary i (secondary i) j) = .ok (place j, secondary j) := by
      intro j member
      have apart : j ≠ i := fun same => fresh (same ▸ member)
      rw [Function.update_of_ne apart, Function.update_of_ne apart]
      exact each j (List.mem_cons_of_mem i member)
    obtain ⟨after, later, ran, called, kept⟩ := ih { world with
      db := { world.db with secondary := Function.update world.db.secondary i (secondary i) } } _ distinct others
    refine ⟨after, later, ?_, fun j member => ?_, fun j absent => ?_⟩
    · rw [List.foldlM_cons, run_bind_ok ((run_bind_ok first).trans rfl)]
      exact ran
    · rcases List.mem_cons.mp member with rfl | inside
      · simpa only [Function.update_self] using kept j fresh
      · exact called j inside
    · have apart : j ≠ i := fun same => absent (same ▸ List.mem_cons_self)
      simpa only [Function.update_of_ne apart] using kept j fun inside => absent (List.mem_cons_of_mem i inside)

theorem run_forEachIndex (each : ∀ i, body i (iters i) (world.db.secondary i) = .ok (place i, secondary i)) :
    (forEachIndex iters body : Code schema labelling _).run world =
      .ok (place, { world with db := { world.db with secondary } }) := by
  obtain ⟨after, later, ran, called, _⟩ :=
    run_foldIndices world iters (List.nodup_finRange schema.indices) fun i _ => each i
  obtain rfl : after = place := funext fun i => (called i (List.mem_finRange i)).1
  obtain rfl : later = secondary := funext fun i => (called i (List.mem_finRange i)).2
  exact ran

theorem run_passPrimaryKey (pk : UInt64) :
    (passPrimaryKey pk : Code schema labelling Unit).run world =
      .ok ((), { world with nextPrimaryKey := View.pass world.nextPrimaryKey pk }) := by
  change Except.ok ((), if world.nextPrimaryKey ≤ pk then _ else world) = _
  rw [View.pass]
  split <;> rfl

/-- A loaded row that is still there is as the table has it. -/
theorem Loaded.transfer {db later : Db schema labelling} {result : Table schema.primaryKey} {ptr : ItemPtr schema}
    (loaded : Loaded db table ptr) (stored : ptr.item.obj ∈ result.rows)
    (primary : ∀ {itr}, Stands db.primary itr (schema.primaryKey ptr.item.obj) →
      Stands later.primary itr (schema.primaryKey ptr.item.obj))
    (secondary : ∀ i {itr}, Stands (db.secondary i) itr (schema.primaryKey ptr.item.obj) →
      Stands (later.secondary i) itr (schema.primaryKey ptr.item.obj)) :
    Loaded later result ptr :=
  ⟨stored, loaded.shared, primary loaded.primaryItr, fun i known => secondary i (loaded.iters i known)⟩

theorem run_change (f : World schema labelling → World schema labelling) :
    (change f : Code schema labelling Unit).run world = .ok ((), f world) := rfl

theorem run_setItem (address : Nat) (f : Item schema → Item schema) :
    (setItem address f : Code schema labelling Unit).run world =
      .ok ((), { world with itemsVector := world.itemsVector.map (ItemPtr.edit address f) }) := rfl

/-- A row is written, and the variables and the pointers of the contract stay as they are. -/
structure Writes (result : Table schema.primaryKey) (world after : World schema labelling) (pk : UInt64) : Prop where
  coherent : Coherent after result
  allocated : world.allocated ≤ after.allocated
  receiver : after.receiver = world.receiver
  code : after.code = world.code
  nextPrimaryKey : after.nextPrimaryKey = View.pass world.nextPrimaryKey pk

theorem Coherent.emplace (coherent : Coherent world table) (own : world.code = world.receiver) {fresh : schema.Row}
    {constructor : schema.Row → schema.Row} (short : packSize (constructor fresh) < 2 ^ 31)
    (absent : table.find? (schema.primaryKey (constructor fresh)) = none) :
    ∃ after, (TableObject.emplace fresh constructor : Code schema labelling Pointer).run world =
        .ok (some world.allocated, after) ∧
      Writes (table.put (constructor fresh)) world after (schema.primaryKey (constructor fresh)) ∧
      (∀ address < world.allocated, keyAt after address = keyAt world address) ∧
      PointsTo after (some world.allocated) (some (constructor fresh)) := by
  rw [TableObject.emplace]
  generalize constructor fresh = obj at *
  have apart : ∀ other ∈ table.rows, schema.primaryKey other ≠ schema.primaryKey obj := Table.find?_eq_none.mp absent
  have missing : world.db.primary.rows.find? (record obj).primary = none := by
    rw [coherent.records, Table.find?_image, record_primary, absent]
    rfl
  obtain ⟨primaryItr, primary, stored, rows, grown, stands⟩ := dbStore_absent missing
  have each (i : Fin schema.indices) : ∃ itr later,
      dbStore (world.db.secondary i) (entry i obj) = .ok (itr, later) ∧
        later.rows = (world.db.secondary i).rows.put (entry i obj) ∧
        (world.db.secondary i).Extends later ∧ Stands later itr (schema.primaryKey obj) := by
    apply dbStore_absent
    rw [coherent.entries, Table.find?_image, entry_primary, absent]
    rfl
  choose iters secondary storedEntry entryRows entryGrown entryStands using each
  -- the tables as they are once the row is in all of them, and the row is not loaded yet
  let middle : World schema labelling := { world with
    db := ⟨primary, secondary⟩, nextPrimaryKey := View.pass world.nextPrimaryKey (schema.primaryKey obj) }
  have kept : Coherent middle (table.put obj) := {
    records := by rw [rows, coherent.records, Table.image_put]
    entries := fun i => by rw [entryRows, coherent.entries, Table.image_put]
    short := fun other present => by
      rcases Table.mem_put.mp present with rfl | ⟨old, _⟩
      · exact short
      · exact coherent.short other old
    loaded := fun ptr member => by
      have loaded := coherent.loaded ptr member
      exact loaded.transfer (Table.mem_put.mpr (.inr ⟨loaded.stored, apart _ loaded.stored⟩))
        (fun stands => stands.extends grown) fun i _ stands => stands.extends (entryGrown i)
    keys := coherent.keys
    addresses := coherent.addresses
    allocated := coherent.allocated
  }
  obtain ⟨after, added, loads, points⟩ := kept.emplaceBack ⟨obj, primaryItr, iters⟩ (schema.primaryKey obj)
    (Table.mem_put.mpr (.inl rfl)) stands (fun i _ => entryStands i)
    fun ptr member => apart _ (coherent.loaded ptr member).stored
  refine ⟨after, ?_, ⟨loads.coherent, loads.allocated, loads.receiver, loads.code, loads.nextPrimaryKey⟩, loads.keyAt,
    congrArg some points⟩
  have packed : (streamed (pack obj) : Code schema labelling (List UInt8)).run world = .ok (format.bytes obj, world) := by
    rw [pack_eq short]
    rfl
  have indexed : (forEachIndex (fun _ => .missing) fun i _ handled => dbStore handled (entry i obj) :
      Code schema labelling _).run { middle with db := ⟨primary, world.db.secondary⟩ } = .ok (iters, middle) :=
    run_forEachIndex storedEntry
  rw [run_bind_ok (run_current world), run_bind_ok (run_require (decide_eq_true own)), run_bind_ok packed,
    run_bind_ok (run_onPrimary stored), run_bind_ok (run_passPrimaryKey _)]
  refine (run_bind_ok indexed).trans ?_
  rw [StateT.run_map, added]
  rfl

theorem emplace_foreign (foreign : world.code ≠ world.receiver) (fresh : schema.Row)
    (constructor : schema.Row → schema.Row) :
    (TableObject.emplace fresh constructor : Code schema labelling Pointer).run world =
      fail "cannot create objects in table of another contract" := by
  rw [TableObject.emplace, run_bind_ok (run_current world)]
  exact run_bind_error (run_require_error (decide_eq_false foreign))

theorem Represents.emplace_taken (represents : Represents world.db table) (own : world.code = world.receiver)
    {fresh : schema.Row} {constructor : schema.Row → schema.Row} (short : packSize (constructor fresh) < 2 ^ 31)
    (present : (table.find? (schema.primaryKey (constructor fresh))).isSome) :
    (TableObject.emplace fresh constructor : Code schema labelling Pointer).run world =
      .error (.abort .duplicateKey) := by
  rw [TableObject.emplace]
  generalize constructor fresh = obj at *
  have packed : (streamed (pack obj) : Code schema labelling (List UInt8)).run world = .ok (format.bytes obj, world) := by
    rw [pack_eq short]
    rfl
  have taken : (world.db.primary.rows.find? (record obj).primary).isSome := by
    rw [represents.records, Table.find?_image, record_primary, Option.isSome_map]
    exact present
  have refused : (onPrimary fun handled => dbStore handled (record obj) : Code schema labelling Iterator).run world =
      .error (.abort .duplicateKey) := by
    change (dbStore world.db.primary (record obj) >>= _) = _
    rw [dbStore_present taken]
    rfl
  rw [run_bind_ok (run_current world), run_bind_ok (run_require (decide_eq_true own)), run_bind_ok packed]
  exact run_bind_error refused

/-- Where a loaded row stands in an index; looked up if need be. -/
theorem Coherent.entryIterator (coherent : Coherent world table) {ptr : ItemPtr schema}
    (member : ptr ∈ world.itemsVector) (i : Fin schema.indices) :
    ∃ itr later,
      (if (ptr.item.iters i).negative then dbFind (world.db.secondary i) (schema.primaryKey ptr.item.obj)
        else (ptr.item.iters i, world.db.secondary i)) = (itr, later) ∧
      later.rows = (world.db.secondary i).rows ∧ (world.db.secondary i).Extends later ∧
      Stands later itr (schema.primaryKey ptr.item.obj) := by
  have loaded := coherent.loaded ptr member
  split
  · rw [dbFind, coherent.entry_held loaded.stored]
    exact ⟨_, _, rfl, rows_iteratorTo (some (entry i ptr.item.obj)) .tableEnd,
      extends_iteratorTo (some (entry i ptr.item.obj)) .tableEnd, stands_iteratorTo (entry i ptr.item.obj) .tableEnd⟩
  · rename_i there
    refine ⟨_, _, rfl, rfl, .refl _, loaded.iters i ?_⟩
    intro missing
    rw [missing] at there
    exact there rfl

/-- The index keeps up with a row that changes. -/
theorem Coherent.updateEntry (coherent : Coherent world table) {ptr : ItemPtr schema} (member : ptr ∈ world.itemsVector)
    {obj : schema.Row} (same : schema.primaryKey obj = schema.primaryKey ptr.item.obj) (i : Fin schema.indices) :
    ∃ itr later,
      TableObject.updateEntry ptr.item obj i (ptr.item.iters i) (world.db.secondary i) = .ok (itr, later) ∧
        later.rows = (table.put obj).image (entry i) (entry_primary i) ∧ (world.db.secondary i).Extends later ∧
        (itr ≠ .missing → Stands later itr (schema.primaryKey ptr.item.obj)) := by
  have loaded := coherent.loaded ptr member
  rw [TableObject.updateEntry, Table.image_put, ← coherent.entries]
  dsimp only
  split
  · obtain ⟨itr, found, ran, rows, grown, stands⟩ := coherent.entryIterator member i
    have held : found.rows.find? (schema.primaryKey ptr.item.obj) = some (entry i ptr.item.obj) := by
      rw [rows, coherent.entry_held loaded.stored]
    obtain ⟨later, updated, written, more⟩ := dbUpdate_stands
      (f := fun row => { row with secondary := schema.extractSecondaryKey i obj }) stands held rfl
    refine ⟨itr, later, ?_, ?_, fun n k named => more n k (grown n k named), fun _ => stands.extends more⟩
    · rw [ran]
      dsimp only
      rw [updated]
      rfl
    · rw [written, rows, entry, entry, same]
  · rename_i unchanged
    have stable : entry i obj = entry i ptr.item.obj := by rw [entry, entry, same, not_not.mp unchanged]
    refine ⟨_, _, rfl, ?_, .refl _, loaded.iters i⟩
    rw [stable, Table.put_self]
    exact (Table.find?_eq_some.mp (coherent.entry_held loaded.stored i)).1

theorem edit_edit {address : Nat} {f g : Item schema → Item schema} (ptr : ItemPtr schema) :
    ItemPtr.edit address g (ItemPtr.edit address f ptr) = ItemPtr.edit address (g ∘ f) ptr := by
  by_cases here : ptr.address = address <;> simp [ItemPtr.edit, here]

/-- A loaded row and its tables are overwritten together. -/
theorem Coherent.overwrite (coherent : Coherent world table) {ptr : ItemPtr schema} (member : ptr ∈ world.itemsVector)
    {obj : schema.Row} (same : schema.primaryKey obj = schema.primaryKey ptr.item.obj)
    (short : packSize obj < 2 ^ 31) {db : Db schema labelling} {iters : Fin schema.indices → Iterator}
    (records : db.primary.rows = (table.put obj).image record record_primary)
    (entries : ∀ i, (db.secondary i).rows = (table.put obj).image (entry i) (entry_primary i))
    (primary : world.db.primary.Extends db.primary) (secondary : ∀ i, (world.db.secondary i).Extends (db.secondary i))
    (stands : ∀ i, iters i ≠ .missing → Stands (db.secondary i) (iters i) (schema.primaryKey ptr.item.obj))
    (db_after : after.db = db)
    (items : after.itemsVector = world.itemsVector.map (ItemPtr.edit ptr.address fun item => { item with obj, iters }))
    (allocated : after.allocated = world.allocated) :
    Coherent after (table.put obj) ∧ ∀ address, keyAt after address = keyAt world address := by
  have here (other : ItemPtr schema) (before : other ∈ world.itemsVector) (place : other.address = ptr.address) :
      other = ptr := List.inj_on_of_nodup_map coherent.addresses before member place
  have keyed (other : ItemPtr schema) (before : other ∈ world.itemsVector) :
      schema.primaryKey (ItemPtr.edit ptr.address (fun item => { item with obj, iters }) other).item.obj =
        schema.primaryKey other.item.obj := key_edit fun place => by rw [here other before place, same]
  subst db_after
  refine ⟨⟨⟨records, entries, ?_⟩, ?_, ?_, ?_, ?_⟩, keyAt_edit (fun other before place => ?_) items⟩
  · intro other present
    rcases Table.mem_put.mp present with rfl | ⟨old, _⟩
    · exact short
    · exact coherent.short other old
  · rw [items]
    intro edited inside
    obtain ⟨other, before, rfl⟩ := List.mem_map.mp inside
    have loaded := coherent.loaded other before
    rw [ItemPtr.edit]
    split
    · rename_i place
      obtain rfl := here other before place
      exact ⟨Table.mem_put.mpr (.inl rfl), loaded.shared, same.symm ▸ loaded.primaryItr.extends primary,
        fun i known => same.symm ▸ stands i known⟩
    · rename_i elsewhere
      have apart : schema.primaryKey other.item.obj ≠ schema.primaryKey obj := fun equal =>
        elsewhere (congrArg ItemPtr.address (List.inj_on_of_nodup_map coherent.keys before member (equal.trans same)))
      exact loaded.transfer (Table.mem_put.mpr (.inr ⟨loaded.stored, apart⟩)) (fun stands => stands.extends primary)
        fun i _ stands => stands.extends (secondary i)
  · rw [items, List.map_map]
    refine (List.map_congr_left fun other before => ?_).symm ▸ coherent.keys
    exact keyed other before
  · rw [items, List.map_map]
    refine (List.map_congr_left fun other _ => ?_).symm ▸ coherent.addresses
    exact address_edit other
  · rw [items, allocated]
    intro edited inside
    obtain ⟨other, before, rfl⟩ := List.mem_map.mp inside
    rw [address_edit]
    exact coherent.allocated other before
  · rw [here other before place, same]

theorem Coherent.modifyObject (coherent : Coherent world table) (own : world.code = world.receiver)
    (present : row ∈ table.rows) (points : PointsTo world itr (some row)) {updater : schema.Row → schema.Row}
    (same : schema.primaryKey row = schema.primaryKey (updater row)) (short : packSize (updater row) < 2 ^ 31) :
    ∃ after, (TableObject.modifyObject itr updater : Code schema labelling Unit).run world = .ok ((), after) ∧
      Writes (table.put (updater row)) world after (schema.primaryKey row) ∧
      ∀ address, keyAt after address = keyAt world address := by
  obtain ⟨ptr, member, rfl, rfl, followed⟩ := coherent.dereference present points
  have held := coherent.record_held present
  obtain ⟨primary, updated, rows, grown⟩ := dbUpdate_stands
    (f := fun row => { row with data := format.bytes (updater ptr.item.obj) })
    (coherent.loaded ptr member).primaryItr held rfl
  choose iters secondary updatedEntry entryRows entryGrown entryStands using coherent.updateEntry member same.symm
  let after : World schema labelling := { world with
    db := ⟨primary, secondary⟩
    nextPrimaryKey := View.pass world.nextPrimaryKey (schema.primaryKey ptr.item.obj)
    itemsVector := (world.itemsVector.map (ItemPtr.edit ptr.address
      fun item => { item with obj := updater ptr.item.obj })).map
      (ItemPtr.edit ptr.address fun item => { item with iters }) }
  have items : after.itemsVector = world.itemsVector.map
      (ItemPtr.edit ptr.address fun item => { item with obj := updater ptr.item.obj, iters }) :=
    List.map_map.trans (List.map_congr_left fun other _ => edit_edit other)
  have records : primary.rows = (table.put (updater ptr.item.obj)).image record record_primary := by
    rw [rows, coherent.records, Table.image_put, record, record, same]
  have written : Coherent after (table.put (updater ptr.item.obj)) ∧
      ∀ address, keyAt after address = keyAt world address :=
    coherent.overwrite member same.symm short records entryRows grown entryGrown entryStands rfl items rfl
  refine ⟨after, ?_, ⟨written.1, le_rfl, rfl, rfl, rfl⟩, written.2⟩
  have packed {world : World schema labelling} : (streamed (pack (updater ptr.item.obj)) :
      Code schema labelling (List UInt8)).run world = .ok (format.bytes (updater ptr.item.obj), world) := by
    rw [pack_eq short]
    rfl
  have called : (do
      let handled ← dbUpdate world.db.primary ptr.item.primaryItr fun row =>
        { row with data := format.bytes (updater ptr.item.obj) }
      return ((), handled) : Except Fault (Unit × Handled labelling Record.primary)) = .ok ((), primary) := by
    rw [updated]
    rfl
  let middle : World schema labelling := { world with
    db := ⟨primary, world.db.secondary⟩
    nextPrimaryKey := View.pass world.nextPrimaryKey (schema.primaryKey ptr.item.obj)
    itemsVector := world.itemsVector.map
      (ItemPtr.edit ptr.address fun item => { item with obj := updater ptr.item.obj }) }
  have indexed : (forEachIndex ptr.item.iters (TableObject.updateEntry ptr.item (updater ptr.item.obj)) :
      Code schema labelling _).run middle = .ok (iters, { middle with db := ⟨primary, secondary⟩ }) :=
    run_forEachIndex updatedEntry
  rw [TableObject.modifyObject, run_bind_ok followed, run_bind_ok (run_current world),
    run_bind_ok (run_require (decide_eq_true own)), run_bind_ok (run_setItem _ _),
    run_bind_ok (run_require (decide_eq_true same)), run_bind_ok packed, run_bind_ok (run_onPrimary called),
    run_bind_ok (run_passPrimaryKey _)]
  exact (run_bind_ok indexed).trans rfl

theorem Coherent.modify_foreign (coherent : Coherent world table) (foreign : world.code ≠ world.receiver)
    (present : row ∈ table.rows) (points : PointsTo world itr (some row)) (updater : schema.Row → schema.Row) :
    (TableObject.modifyObject itr updater : Code schema labelling Unit).run world =
      fail "cannot modify objects in table of another contract" := by
  obtain ⟨ptr, _, rfl, rfl, followed⟩ := coherent.dereference present points
  rw [TableObject.modifyObject, run_bind_ok followed, run_bind_ok (run_current world)]
  exact run_bind_error (run_require_error (decide_eq_false foreign))

theorem Coherent.modify_moved (coherent : Coherent world table) (own : world.code = world.receiver)
    (present : row ∈ table.rows) (points : PointsTo world itr (some row)) {updater : schema.Row → schema.Row}
    (moved : schema.primaryKey row ≠ schema.primaryKey (updater row)) :
    (TableObject.modifyObject itr updater : Code schema labelling Unit).run world =
      fail "updater cannot change primary key when modifying an object" := by
  obtain ⟨ptr, _, rfl, rfl, followed⟩ := coherent.dereference present points
  rw [TableObject.modifyObject, run_bind_ok followed, run_bind_ok (run_current world),
    run_bind_ok (run_require (decide_eq_true own)), run_bind_ok (run_setItem _ _)]
  exact run_bind_error (run_require_error (decide_eq_false moved))

/-! Erasing. -/

theorem Coherent.eraseEntry (coherent : Coherent world table) {ptr : ItemPtr schema} (member : ptr ∈ world.itemsVector)
    (i : Fin schema.indices) :
    ∃ itr later,
      TableObject.eraseEntry ptr.item i (ptr.item.iters i) (world.db.secondary i) = .ok (itr, later) ∧
        later.rows = (table.erase (schema.primaryKey ptr.item.obj)).image (entry i) (entry_primary i) ∧
        ∀ {l}, l ≠ schema.primaryKey ptr.item.obj → ∀ {other},
          Stands (world.db.secondary i) other l → Stands later other l := by
  have loaded := coherent.loaded ptr member
  obtain ⟨itr, found, ran, rows, grown, stands⟩ := coherent.entryIterator member i
  have held : found.rows.find? (schema.primaryKey ptr.item.obj) = some (entry i ptr.item.obj) := by
    rw [rows, coherent.entry_held loaded.stored]
  obtain ⟨later, removed, rest, spared⟩ := dbRemove_stands stands held
  refine ⟨itr, later, ?_, ?_, fun apart other stands => spared apart (stands.extends grown)⟩
  · rw [TableObject.eraseEntry, ran]
    dsimp only
    rw [if_neg (Bool.eq_false_iff.mp stands.not_negative), removed]
    rfl
  · rw [rest, rows, coherent.entries, Table.image_erase]

/-- One item has the key. -/
theorem eraseP_reverse {items : List (ItemPtr schema)} {pk : UInt64}
    (distinct : (items.map fun ptr => schema.primaryKey ptr.item.obj).Nodup) :
    (items.reverse.eraseP fun ptr => schema.primaryKey ptr.item.obj = pk).reverse =
      items.filter fun ptr => schema.primaryKey ptr.item.obj ≠ pk := by
  have erased : ∀ list : List (ItemPtr schema), (list.map fun ptr => schema.primaryKey ptr.item.obj).Nodup →
      (list.eraseP fun ptr => schema.primaryKey ptr.item.obj = pk) =
        list.filter fun ptr => schema.primaryKey ptr.item.obj ≠ pk := by
    intro list
    induction list with
    | nil => exact fun _ => rfl
    | cons ptr rest ih =>
      intro distinct
      obtain ⟨fresh, distinct⟩ := List.nodup_cons.mp distinct
      by_cases same : schema.primaryKey ptr.item.obj = pk
      · have kept : rest.filter (fun other => schema.primaryKey other.item.obj ≠ pk) = rest :=
          List.filter_eq_self.mpr fun other member => decide_eq_true fun equal =>
            fresh (List.mem_map.mpr ⟨other, member, equal.trans same.symm⟩)
        rw [List.eraseP_cons_of_pos (by simpa using same), List.filter_cons_of_neg (by simpa using same), kept]
      · rw [List.eraseP_cons_of_neg (by simpa using same), List.filter_cons_of_pos (by simpa using same), ih distinct]
  rw [erased _ (by rw [List.map_reverse]; exact List.nodup_reverse.mpr distinct), ← List.filter_reverse,
    List.reverse_reverse]

/-- A row is gone, and the pointers to it lead nowhere. -/
structure Erases (table : Table schema.primaryKey) (pk : UInt64) (world after : World schema labelling) : Prop where
  coherent : Coherent after (table.erase pk)
  allocated : after.allocated = world.allocated
  receiver : after.receiver = world.receiver
  code : after.code = world.code
  nextPrimaryKey : after.nextPrimaryKey = world.nextPrimaryKey
  keyAt : ∀ address, keyAt after address = if keyAt world address = some pk then none else keyAt world address

theorem Coherent.eraseObject (coherent : Coherent world table) (own : world.code = world.receiver)
    (present : row ∈ table.rows) (points : PointsTo world itr (some row)) :
    ∃ after, (TableObject.eraseObject itr : Code schema labelling Unit).run world = .ok ((), after) ∧
      Erases table (schema.primaryKey row) world after := by
  obtain ⟨ptr, member, rfl, rfl, followed⟩ := coherent.dereference present points
  obtain ⟨primary, removed, rows, spared⟩ :=
    dbRemove_stands (coherent.loaded ptr member).primaryItr (coherent.record_held present)
  choose iters secondary erasedEntry entryRows entrySpared using coherent.eraseEntry member
  let after : World schema labelling := { world with
    db := ⟨primary, secondary⟩
    itemsVector := world.itemsVector.filter fun other =>
      schema.primaryKey other.item.obj ≠ schema.primaryKey ptr.item.obj }
  have remaining {other : ItemPtr schema} : other ∈ after.itemsVector ↔
      other ∈ world.itemsVector ∧ schema.primaryKey other.item.obj ≠ schema.primaryKey ptr.item.obj := by
    simp only [after, List.mem_filter, decide_eq_true_eq]
  have kept : Coherent after (table.erase (schema.primaryKey ptr.item.obj)) := {
    records := by rw [rows, coherent.records, Table.image_erase]
    entries := entryRows
    short := fun other present => coherent.short other (Table.mem_erase.mp present).1
    loaded := fun other inside => by
      obtain ⟨before, apart⟩ := remaining.mp inside
      have loaded := coherent.loaded other before
      exact loaded.transfer (Table.mem_erase.mpr ⟨loaded.stored, apart⟩) (spared apart)
        fun i _ stands => entrySpared i apart stands
    keys := coherent.keys.sublist (List.filter_sublist.map _)
    addresses := coherent.addresses.sublist (List.filter_sublist.map _)
    allocated := fun other inside => coherent.allocated other (remaining.mp inside).1
  }
  refine ⟨after, ?_, kept, rfl, rfl, rfl, rfl, fun address => ?_⟩
  · have called : (do
        let handled ← dbRemove world.db.primary ptr.item.primaryItr
        return ((), handled) : Except Fault (Unit × Handled labelling Record.primary)) = .ok ((), primary) := by
      rw [removed]
      rfl
    have searched : (findLast fun other => schema.primaryKey other.item.obj = schema.primaryKey ptr.item.obj :
        Code schema labelling _).run world = .ok (world.itemsVector.reverse.find? fun other =>
          schema.primaryKey other.item.obj = schema.primaryKey ptr.item.obj, world) := rfl
    have some : (world.itemsVector.reverse.find? fun other =>
        schema.primaryKey other.item.obj = schema.primaryKey ptr.item.obj).isSome :=
      List.find?_isSome.mpr ⟨ptr, List.mem_reverse.mpr member, decide_eq_true rfl⟩
    have indexed : (forEachIndex ptr.item.iters (TableObject.eraseEntry ptr.item) : Code schema labelling _).run
        { world with db := ⟨primary, world.db.secondary⟩ } = .ok (iters, { world with db := ⟨primary, secondary⟩ }) :=
      run_forEachIndex erasedEntry
    rw [TableObject.eraseObject, run_bind_ok followed, run_bind_ok (run_current world),
      run_bind_ok (run_require (decide_eq_true own)), run_bind_ok searched, run_bind_ok (run_require some),
      run_bind_ok (run_onPrimary called)]
    refine (run_bind_ok indexed).trans ?_
    rw [run_change, eraseP_reverse coherent.keys]
  · have absent (gone : ∀ other ∈ world.itemsVector, other.address = address →
        schema.primaryKey other.item.obj = schema.primaryKey ptr.item.obj) : keyAt after address = none := by
      rw [keyAt, Option.map_eq_none_iff, List.find?_eq_none]
      intro other inside place
      obtain ⟨before, apart⟩ := remaining.mp inside
      exact apart (gone other before (by simpa using place))
    cases found : keyAt world address with
    | none =>
      rw [if_neg (Option.some_ne_none _).symm]
      refine absent fun other before place => ?_
      rw [← place, coherent.keyAt_of_mem before] at found
      cases found
    | some k =>
      split
      · rename_i gone
        refine absent fun other before place => ?_
        rw [← place, coherent.keyAt_of_mem before] at found
        exact Option.some.inj (found.trans gone)
      · rename_i other
        obtain ⟨stays, there, rfl⟩ := Option.map_eq_some_iff.mp found
        have place : stays.address = address := by simpa using List.find?_some there
        rw [← place]
        exact kept.keyAt_of_mem (remaining.mpr ⟨List.mem_of_find?_eq_some there, fun equal => other (congrArg some equal)⟩)

theorem Coherent.erase_foreign (coherent : Coherent world table) (foreign : world.code ≠ world.receiver)
    (present : row ∈ table.rows) (points : PointsTo world itr (some row)) :
    (TableObject.eraseObject itr : Code schema labelling Unit).run world =
      fail "cannot erase objects in table of another contract" := by
  obtain ⟨ptr, _, rfl, rfl, followed⟩ := coherent.dereference present points
  rw [TableObject.eraseObject, run_bind_ok followed, run_bind_ok (run_current world)]
  exact run_bind_error (run_require_error (decide_eq_false foreign))

/-! Free primary keys. -/

theorem Coherent.renext (coherent : Coherent world table) (next : UInt64) :
    Coherent { world with nextPrimaryKey := next } table :=
  ⟨⟨coherent.records, coherent.entries, coherent.short⟩, coherent.loaded, coherent.keys, coherent.addresses,
    coherent.allocated⟩

theorem Coherent.initNextPrimaryKey (coherent : Coherent world table) :
    ∃ after, (TableObject.initNextPrimaryKey : Code schema labelling Unit).run world =
        .ok ((), { after with
          nextPrimaryKey := MultiIndex.nextPrimaryKey MultiIndex.unsetNextPrimaryKey table }) ∧
      Loads table world after := by
  obtain ⟨first, middle, ran, loads, points⟩ := coherent.lowerBound 0
  rw [TableObject.initNextPrimaryKey, run_bind_ok ran, MultiIndex.nextPrimaryKey, if_pos rfl]
  cases last : table.last? with
  | none =>
    have empty : table.lowerBound 0 = none := by rw [Table.lowerBound, Table.last?_eq_none.mp last]; rfl
    rw [empty, PointsTo.end_iff] at points
    rw [if_pos points]
    exact ⟨middle, rfl, loads⟩
  | some row =>
    have present := Table.last?_mem last
    have some : first ≠ none := by
      rintro rfl
      have none : table.lowerBound 0 = none := Option.map_eq_none_iff.mp points.symm
      exact List.find?_eq_none.mp none row present (decide_eq_true UInt64.zero_le)
    have follows := loads.coherent.decrement_end
    rw [Path.decrement, Path.previous?, Option.elim_none, last] at follows
    obtain ⟨itr, after, decremented, more, reached⟩ := follows
    obtain ⟨ptr, _, rfl, rfl, followed⟩ := more.coherent.dereference present reached
    rw [if_neg some, run_bind_ok decremented, run_bind_ok followed]
    exact ⟨after, rfl, loads.trans more⟩

theorem Coherent.availablePrimaryKey (coherent : Coherent world table) :
    (∃ key after, MultiIndex.availablePrimaryKey world.nextPrimaryKey table = .ok key ∧
      (TableObject.availablePrimaryKey : Code schema labelling UInt64).run world =
        .ok (key, { after with nextPrimaryKey := key }) ∧ Loads table world after) ∨
    ∃ message, MultiIndex.availablePrimaryKey world.nextPrimaryKey table = .error (.check message) ∧
      (TableObject.availablePrimaryKey : Code schema labelling UInt64).run world = fail message := by
  generalize granted : MultiIndex.nextPrimaryKey world.nextPrimaryKey table = key
  have loaded : ∃ after, (if world.nextPrimaryKey = MultiIndex.unsetNextPrimaryKey then TableObject.initNextPrimaryKey
      else return : Code schema labelling Unit).run world = .ok ((), { after with nextPrimaryKey := key }) ∧
      Loads table world after := by
    split
    · rename_i unset
      rw [← granted, unset]
      exact coherent.initNextPrimaryKey
    · rename_i known
      rw [MultiIndex.nextPrimaryKey, if_neg known] at granted
      exact ⟨world, by rw [← granted]; rfl, .refl coherent⟩
  obtain ⟨after, ran, loads⟩ := loaded
  rw [TableObject.availablePrimaryKey, run_bind_ok (run_current world), run_bind_ok ran, run_bind_ok (run_current _)]
  rw [MultiIndex.availablePrimaryKey, granted]
  by_cases room : key < MultiIndex.noAvailablePrimaryKey
  · refine .inl ⟨key, after, ?_, (run_bind_ok (run_require (decide_eq_true room))).trans rfl, loads⟩
    rw [check, if_pos (decide_eq_true room)]
    rfl
  · refine .inr ⟨_, ?_, run_bind_error (run_require_error (decide_eq_false room))⟩
    rw [check, if_neg (by simpa using room)]
    rfl

end LocalChain.Inery.TableObject
