import LocalChain.Inery.TableClient

/-! A singleton: a table of at most one row. -/
namespace LocalChain.Inery

open LocalChain.Store
open LocalChain.Refine
open TableObject (Coherent Represents PointsTo find require run_require run_require_error)

variable {T : Type} [Serialize T] [LawfulSerialize T] {pkValue : UInt64} {labelling : Labelling UInt64}

namespace Singleton

structure Row (T : Type) where
  value : T

instance : Serialize (Row T) where
  format := format.via Row.value Row.mk

instance : LawfulSerialize (Row T) where
  faithful := LawfulSerialize.faithful.via fun _ => rfl

/-- `multi_index<SingletonName, row>` -/
abbrev schema (T : Type) [Serialize T] [LawfulSerialize T] (pkValue : UInt64) : Schema :=
  .unindexed (Row T) fun _ => pkValue

/-! The functions of the class. -/

def exists' : Code (schema T pkValue) labelling Bool := do
  let itr ← find pkValue
  return itr ≠ none

def get : Code (schema T pkValue) labelling T := do
  let itr ← find pkValue
  require (itr ≠ none) "singleton does not exist"
  let ptr ← TableObject.dereference itr
  return ptr.item.obj.value

def getOrDefault (default : T) : Code (schema T pkValue) labelling T := do
  let itr ← find pkValue
  if itr ≠ none then
    let ptr ← TableObject.dereference itr
    return ptr.item.obj.value
  else return default

/-- The lambda assigns the only member of the row, so what a new row holds before does not matter. -/
def store (value : T) : Code (schema T pkValue) labelling Pointer :=
  TableObject.emplace (⟨value⟩ : Row T) fun row => { row with value }

def getOrCreate (default : T) : Code (schema T pkValue) labelling T := do
  let itr ← find pkValue
  let itr ← (if itr ≠ none then return itr else store default : Code (schema T pkValue) labelling Pointer)
  let ptr ← TableObject.dereference itr
  return ptr.item.obj.value

def set (value : T) : Code (schema T pkValue) labelling Unit := do
  let itr ← find pkValue
  if itr ≠ none then TableObject.modify itr fun row => { row with value }
  else
    let _ ← store value

def remove : Code (schema T pkValue) labelling Unit := do
  let itr ← find pkValue
  if itr ≠ none then
    let _ ← TableObject.erase itr

/-! What a singleton is for. -/

/-- A value that may be there, and whether the contract that runs owns it. -/
structure Cell (T : Type) where
  value? : Option T
  own : Bool

namespace Cell

def exists' : StateT (Cell T) (Except Fault) Bool := fun cell => .ok (cell.value?.isSome, cell)

def get : StateT (Cell T) (Except Fault) T := fun cell =>
  match cell.value? with
  | some value => .ok (value, cell)
  | none => fail "singleton does not exist"

def getOrDefault (default : T) : StateT (Cell T) (Except Fault) T := fun cell =>
  .ok (cell.value?.getD default, cell)

def set (value : T) : StateT (Cell T) (Except Fault) Unit := fun cell =>
  if cell.own then
    if packSize value < 2 ^ 31 then .ok ((), { cell with value? := some value }) else .error .undefined
  else if cell.value?.isSome then fail "cannot modify objects in table of another contract"
  else fail "cannot create objects in table of another contract"

def getOrCreate (default : T) : StateT (Cell T) (Except Fault) T := fun cell =>
  match cell.value? with
  | some value => .ok (value, cell)
  | none => (do
    set default
    return default : StateT (Cell T) (Except Fault) T) cell

def remove : StateT (Cell T) (Except Fault) Unit := fun cell =>
  if cell.value?.isNone then .ok ((), cell)
  else if cell.own then .ok ((), { cell with value? := none })
  else fail "cannot erase objects in table of another contract"

end Cell

/-! Calls, on the cell and on the object. -/

inductive Request (T : Type) where
  | exists'
  | get
  | getOrDefault (default : T)
  | getOrCreate (default : T)
  | set (value : T)
  | remove

abbrev Request.Answer : Request T → Type
  | exists' => Bool
  | get | getOrDefault _ | getOrCreate _ => T
  | set _ | remove => Unit

def Cell.step : (request : Request T) → StateT (Cell T) (Except Fault) request.Answer
  | .exists' => Cell.exists'
  | .get => Cell.get
  | .getOrDefault default => Cell.getOrDefault default
  | .getOrCreate default => Cell.getOrCreate default
  | .set value => Cell.set value
  | .remove => Cell.remove

def step : (request : Request T) → Code (schema T pkValue) labelling request.Answer
  | .exists' => exists'
  | .get => get
  | .getOrDefault default => getOrDefault default
  | .getOrCreate default => getOrCreate default
  | .set value => set value
  | .remove => remove

/-! The table of a cell. -/

def table (pkValue : UInt64) (value? : Option T) : Table (schema T pkValue).primaryKey where
  rows := (value?.map Row.mk).toList
  sorted := by
    cases value? with
    | none => exact .nil
    | some value => exact List.pairwise_singleton _ _

/-- No table of a singleton has more rows. -/
theorem eq_table (other : Table (schema T pkValue).primaryKey) :
    other = table pkValue (other.first?.map Row.value) := by
  obtain ⟨rows, sorted⟩ := other
  refine Table.ext ?_
  match rows with
  | [] => rfl
  | [row] => rfl
  | first :: second :: rest =>
    exact absurd (List.pairwise_cons.mp sorted).1 fun above => lt_irrefl _ (above second List.mem_cons_self)

theorem find?_table (value? : Option T) : (table pkValue value?).find? pkValue = value?.map Row.mk := by
  cases value? with
  | none => rfl
  | some value => simp [table, Table.find?, schema]

theorem mem_table {value? : Option T} {row : Row T} : row ∈ (table pkValue value?).rows ↔ value? = some row.value := by
  cases value? with
  | none => exact iff_of_false List.not_mem_nil (Option.some_ne_none _).symm
  | some value =>
    refine List.mem_singleton.trans ⟨fun same => ?_, fun same => ?_⟩
    · rw [same]
    · rw [Option.some.inj same]

theorem eq_of_mem {other : Table (schema T pkValue).primaryKey} {row : Row T} (present : row ∈ other.rows) :
    other = table pkValue (some row.value) := by
  rw [eq_table other] at present ⊢
  rw [mem_table.mp present]

theorem put_table (value? : Option T) (value : T) :
    (table pkValue value?).put (⟨value⟩ : Row T) = table pkValue (some value) :=
  eq_of_mem (Table.mem_put.mpr (.inl rfl))

theorem erase_table (value? : Option T) : (table pkValue value?).erase pkValue = table pkValue none :=
  Table.ext (List.eq_nil_iff_forall_not_mem.mpr fun _ member => (Table.mem_erase.mp member).2 rfl)

/-! The object behaves as the cell. -/

/-- The object keeps the value of the cell. -/
structure Held (cell : Cell T) (world : World (schema T pkValue) labelling) : Prop where
  coherent : Coherent world (table pkValue cell.value?)
  own : world.code = world.receiver ↔ cell.own = true

variable {cell : Cell T} {world after : World (schema T pkValue) labelling} {value : T}

theorem Held.loads (held : Held cell world) (loads : TableObject.Loads (table pkValue cell.value?) world after) :
    Held cell after where
  coherent := loads.coherent
  own := by
    rw [loads.code, loads.receiver]
    exact held.own

/-- The object as it is once the row was looked for. -/
theorem Held.located (held : Held cell world) :
    (∃ after, (find pkValue : Code (schema T pkValue) labelling Pointer).run world = .ok (none, after) ∧
      cell.value? = none ∧ Held cell after) ∨
    ∃ value itr after ptr, (find pkValue : Code (schema T pkValue) labelling Pointer).run world = .ok (some itr, after) ∧
      cell.value? = some value ∧ Held cell after ∧ PointsTo after (some itr) (some (⟨value⟩ : Row T)) ∧
      (TableObject.dereference (some itr) : Code (schema T pkValue) labelling _).run after = .ok (ptr, after) ∧
      ptr.item.obj = (⟨value⟩ : Row T) := by
  obtain ⟨itr, after, ran, loads, points⟩ := held.coherent.find pkValue
  rw [find?_table] at points
  have kept := held.loads loads
  cases stored : cell.value? with
  | none =>
    rw [stored] at points
    obtain rfl := TableObject.PointsTo.end_iff.mp points
    exact .inl ⟨after, ran, rfl, kept⟩
  | some value =>
    rw [stored] at points
    obtain ⟨ptr, _, rfl, same, followed⟩ := kept.coherent.dereference (mem_table.mpr stored) points
    exact .inr ⟨value, ptr.address, after, ptr, ran, rfl, kept, points, followed, same⟩

theorem exists_refines :
    Refines .undefined (Held : Cell T → World (schema T pkValue) labelling → Prop) Cell.exists' exists' := by
  intro cell world held
  change Matches _ _ (Cell.exists' cell) _
  obtain ⟨after, ran, absent, kept⟩ | ⟨value, itr, after, _, ran, stored, kept, _⟩ := held.located
  · rw [exists', run_bind_ok ran, Cell.exists', absent]
    exact .answers false kept
  · rw [exists', run_bind_ok ran, Cell.exists', stored]
    exact .answers true kept

theorem get_refines :
    Refines .undefined (Held : Cell T → World (schema T pkValue) labelling → Prop) Cell.get get := by
  intro cell world held
  change Matches _ _ (Cell.get cell) _
  obtain ⟨after, ran, absent, kept⟩ | ⟨value, itr, after, ptr, ran, stored, kept, _, followed, same⟩ := held.located
  · rw [get, run_bind_ok ran, run_bind_error (run_require_error (decide_eq_false (not_not_intro rfl))), Cell.get, absent]
    exact .fails _
  · rw [get, run_bind_ok ran, run_bind_ok (run_require (decide_eq_true (Option.some_ne_none itr))),
      run_bind_ok followed, same, Cell.get, stored]
    exact .answers value kept

theorem getOrDefault_refines (default : T) :
    Refines .undefined (Held : Cell T → World (schema T pkValue) labelling → Prop) (Cell.getOrDefault default)
      (getOrDefault default) := by
  intro cell world held
  change Matches _ _ (Cell.getOrDefault default cell) _
  obtain ⟨after, ran, absent, kept⟩ | ⟨value, itr, after, ptr, ran, stored, kept, _, followed, same⟩ := held.located
  · rw [getOrDefault, run_bind_ok ran, if_neg (not_not_intro rfl), Cell.getOrDefault, absent]
    exact .answers default kept
  · rw [getOrDefault, run_bind_ok ran, if_pos (Option.some_ne_none itr), run_bind_ok followed, same,
      Cell.getOrDefault, stored]
    exact .answers value kept

theorem Held.store (held : Held cell world) (own : cell.own = true) (absent : cell.value? = none)
    (short : packSize value < 2 ^ 31) :
    ∃ itr after ptr, (store value : Code (schema T pkValue) labelling Pointer).run world = .ok (some itr, after) ∧
      Held { cell with value? := some value } after ∧
      (TableObject.dereference (some itr) : Code (schema T pkValue) labelling _).run after = .ok (ptr, after) ∧
      ptr.item.obj = (⟨value⟩ : Row T) := by
  have free : (table pkValue cell.value?).find? pkValue = none := by rw [find?_table, absent]; rfl
  obtain ⟨after, ran, writes, _, points⟩ :
      ∃ after, (Singleton.store value : Code (schema T pkValue) labelling Pointer).run world =
          .ok (some world.allocated, after) ∧
        TableObject.Writes ((table pkValue cell.value?).put (⟨value⟩ : Row T)) world after pkValue ∧ _ ∧
        PointsTo after (some world.allocated) (some (⟨value⟩ : Row T)) :=
    held.coherent.emplace (held.own.mpr own) short free
  have coherent := writes.coherent
  rw [put_table] at coherent
  obtain ⟨ptr, _, _, same, followed⟩ := coherent.dereference (mem_table.mpr rfl) points
  refine ⟨_, after, ptr, ran, ⟨coherent, ?_⟩, followed, same⟩
  rw [writes.code, writes.receiver]
  exact held.own

theorem Held.store_foreign (held : Held cell world) (foreign : ¬ cell.own = true) :
    (Singleton.store value : Code (schema T pkValue) labelling Pointer).run world =
      fail "cannot create objects in table of another contract" :=
  TableObject.emplace_foreign (fun same => foreign (held.own.mp same)) _ _

theorem set_refines (value : T) :
    Refines .undefined (Held : Cell T → World (schema T pkValue) labelling → Prop) (Cell.set value) (set value) := by
  intro cell world held
  change Matches _ _ (Cell.set value cell) _
  rw [Cell.set]
  obtain ⟨after, ran, absent, kept⟩ | ⟨old, itr, after, _, ran, stored, kept, points, _⟩ := held.located
  · rw [set, run_bind_ok ran, if_neg (not_not_intro rfl), absent]
    split
    · rename_i own
      split
      · rename_i short
        obtain ⟨_, last, _, created, stores, _⟩ := kept.store own absent short
        rw [run_bind_ok created]
        exact .answers () stores
      · exact .free _
    · rename_i foreign
      rw [run_bind_error (kept.store_foreign foreign)]
      exact .fails _
  · have present : (⟨old⟩ : Row T) ∈ (table pkValue cell.value?).rows := mem_table.mpr stored
    rw [set, run_bind_ok ran, if_pos (Option.some_ne_none itr), TableObject.modify,
      run_bind_ok (run_require (decide_eq_true (Option.some_ne_none itr))), stored]
    split
    · rename_i own
      split
      · rename_i short
        obtain ⟨last, changed, writes, _⟩ :
            ∃ last, (TableObject.modifyObject (some itr) fun row => { row with value } :
                Code (schema T pkValue) labelling Unit).run after = .ok ((), last) ∧
              TableObject.Writes ((table pkValue cell.value?).put (⟨value⟩ : Row T)) after last pkValue ∧ _ :=
          kept.coherent.modifyObject (kept.own.mpr own) present points rfl short
        rw [changed]
        have coherent := writes.coherent
        rw [put_table] at coherent
        refine .answers () ⟨coherent, ?_⟩
        rw [writes.code, writes.receiver]
        exact kept.own
      · exact .free _
    · rename_i foreign
      rw [kept.coherent.modify_foreign (fun same => foreign (kept.own.mp same)) present points]
      exact .fails _

theorem getOrCreate_refines (default : T) :
    Refines .undefined (Held : Cell T → World (schema T pkValue) labelling → Prop) (Cell.getOrCreate default)
      (getOrCreate default) := by
  intro cell world held
  change Matches _ _ (Cell.getOrCreate default cell) _
  obtain ⟨after, ran, absent, kept⟩ | ⟨value, itr, after, ptr, ran, stored, kept, _, followed, same⟩ := held.located
  · have created : Cell.getOrCreate default cell = ((Cell.set default >>= fun _ => pure default).run cell) := by
      rw [Cell.getOrCreate, absent]
      rfl
    have chosen : (if (none : Pointer) ≠ none then return none else store default :
        Code (schema T pkValue) labelling Pointer) = store default := if_neg (not_not_intro rfl)
    rw [getOrCreate, run_bind_ok ran, chosen, created, StateT.run_bind]
    change Matches _ _ (Cell.set default cell >>= _) _
    rw [Cell.set, absent]
    split
    · rename_i own
      split
      · rename_i short
        obtain ⟨itr, last, ptr, stored, stores, followed, same⟩ := kept.store own absent short
        rw [run_bind_ok stored, run_bind_ok followed, same]
        exact .answers default stores
      · exact .free _
    · rename_i foreign
      rw [run_bind_error (kept.store_foreign foreign)]
      exact .fails _
  · have chosen : (if (some itr : Pointer) ≠ none then return (some itr) else store default :
        Code (schema T pkValue) labelling Pointer) = pure (some itr) := if_pos (Option.some_ne_none itr)
    rw [getOrCreate, run_bind_ok ran, chosen, pure_bind, run_bind_ok followed, same, Cell.getOrCreate, stored]
    exact .answers value kept

theorem remove_refines :
    Refines .undefined (Held : Cell T → World (schema T pkValue) labelling → Prop) Cell.remove remove := by
  intro cell world held
  change Matches _ _ (Cell.remove cell) _
  rw [Cell.remove]
  obtain ⟨after, ran, absent, kept⟩ | ⟨value, itr, after, ptr, ran, stored, kept, points, _⟩ := held.located
  · rw [remove, run_bind_ok ran, if_neg (not_not_intro rfl), absent]
    exact .answers () kept
  · have present : (⟨value⟩ : Row T) ∈ (table pkValue cell.value?).rows := mem_table.mpr stored
    obtain ⟨next, middle, stepped, loads, _⟩ := kept.coherent.increment present points
    have here : Agrees after (.row pkValue) (some itr) := points
    have still : PointsTo middle (some itr) (some (⟨value⟩ : Row T)) :=
      here.persists kept.coherent loads.allocated loads.keyAt
    have loaded := kept.loads loads
    rw [remove, run_bind_ok ran, if_pos (Option.some_ne_none itr), TableObject.erase, bind_assoc,
      run_bind_ok (run_require (decide_eq_true (Option.some_ne_none itr))), bind_assoc, run_bind_ok stepped, bind_assoc,
      stored, if_neg (show ¬ (some value).isNone = true from Bool.false_ne_true)]
    split
    · rename_i own
      obtain ⟨last, erased, erases⟩ := loaded.coherent.eraseObject (loaded.own.mpr own) present still
      have coherent := erases.coherent
      rw [erase_table] at coherent
      rw [run_bind_ok erased]
      refine .answers () ⟨coherent, ?_⟩
      rw [erases.code, erases.receiver]
      exact loaded.own
    · rename_i foreign
      rw [run_bind_error (loaded.coherent.erase_foreign (fun same => foreign (loaded.own.mp same)) present still)]
      exact .fails _

theorem step_refines (request : Request T) :
    Refines .undefined (Held : Cell T → World (schema T pkValue) labelling → Prop) (Cell.step request)
      (step request) := by
  cases request with
  | exists' => exact exists_refines
  | get => exact get_refines
  | getOrDefault default => exact getOrDefault_refines default
  | getOrCreate default => exact getOrCreate_refines default
  | set value => exact set_refines value
  | remove => exact remove_refines

end Singleton

/-- A program on a singleton returns what it returns on an optional value, stops where it stops, and leaves
the host with that value or with none. -/
theorem client_on_singleton {α : Type} (stored : Stored (Singleton.schema T pkValue) labelling)
    (receiver code : Name) (client : Client (Singleton.Request T) Singleton.Request.Answer α) :
    Matches .undefined (fun cell world => Represents world.db (Singleton.table pkValue cell.value?))
      ((client.run Singleton.Cell.step).run ⟨stored.table.first?.map Singleton.Row.value, code = receiver⟩)
      ((client.run Singleton.step).run (stored.db.object receiver code)) := by
  have coherent := stored.represents.object receiver code
  rw [Singleton.eq_table stored.table] at coherent
  exact (client.refines Singleton.step_refines _ _ ⟨coherent, decide_eq_true_iff.symm⟩).weaken fun _ _ held =>
    held.coherent.toRepresents

def emptySingleton : Stored (Singleton.schema UInt64 1) (Labelling.counting UInt64) :=
  .ofTable Table.empty (fun _ present => absurd present List.not_mem_nil) noNumbers

def storeSeven : Client (Singleton.Request UInt64) Singleton.Request.Answer UInt64 := do
  Client.ask (Singleton.Request.set (7 : UInt64))
  Client.ask Singleton.Request.get

theorem seven_on_singleton :
    ∃ world, ((storeSeven.run Singleton.step).run (emptySingleton.db.object ⟨1⟩ ⟨1⟩)) = .ok (7, world) ∧
      Represents world.db (Singleton.table 1 (some (7 : UInt64))) := by
  have matched := client_on_singleton emptySingleton ⟨1⟩ ⟨1⟩ storeSeven
  have stored : (storeSeven.run Singleton.Cell.step).run
      ⟨emptySingleton.table.first?.map Singleton.Row.value, decide (Name.mk 1 = Name.mk 1)⟩ =
        .ok (7, ⟨some 7, true⟩) := rfl
  rw [stored] at matched
  exact matched.of_ok

end LocalChain.Inery
