import LocalChain.Inery.TableWrite

/-! A contract cannot tell a `multi_index` object, with its loaded rows, from the table itself. -/
namespace LocalChain.Inery

open LocalChain.Store
open LocalChain.Refine (Matches Refines Client run_bind_ok run_bind_error run_map_ok run_map_error)
open TableObject (Coherent Loads Finds Follows Reads PointsTo Represents keyAt)

variable {schema : Schema} {labelling : Labelling UInt64}

/-! The commands, as the object carries them out. -/

def Target.find : Target schema → Code schema labelling Pointer
  | primary key => TableObject.find key
  | index i secondary => TableObject.indexFind i secondary

def Target.requireFind (errorMsg : String) : Target schema → Code schema labelling Pointer
  | primary key => TableObject.requireFind key errorMsg
  | index i secondary => TableObject.indexRequireFind i secondary errorMsg

def Target.get (errorMsg : String) : Target schema → Code schema labelling (ItemPtr schema)
  | primary key => TableObject.get key errorMsg
  | index i secondary => TableObject.indexGet i secondary errorMsg

def Target.lowerBound : Target schema → Code schema labelling Pointer
  | primary key => TableObject.lowerBound key
  | index i secondary => TableObject.indexLowerBound i secondary

def Target.upperBound : Target schema → Code schema labelling Pointer
  | primary key => TableObject.upperBound key
  | index i secondary => TableObject.indexUpperBound i secondary

def Path.forward (itr : Pointer) : Path schema → Code schema labelling Pointer
  | primary => TableObject.increment itr
  | index i => TableObject.indexIncrement i itr

def Path.backward (itr : Pointer) : Path schema → Code schema labelling Pointer
  | primary => TableObject.decrement itr
  | index i => TableObject.indexDecrement i itr

def Path.erase (itr : Pointer) : Path schema → Code schema labelling Pointer
  | primary => TableObject.erase itr
  | index i => TableObject.indexErase i itr

/-- `end()`, or a pointer that may be compared. -/
def TableObject.comparable (itr : Pointer) : Code schema labelling Unit :=
  match itr with
  | none => return
  | some _ => (fun _ => ()) <$> TableObject.dereference itr

/-- The object and its tables, and the iterators of the contract. -/
structure Machine (schema : Schema) (labelling : Labelling UInt64) where
  world : World schema labelling
  iterators : Nat → Pointer

namespace Machine

/-- The contract keeps the iterator that is returned. -/
def keep (itr : Nat) (code : Code schema labelling Pointer) :
    StateT (Machine schema labelling) (Except Fault) Unit := fun machine => do
  let (pointer, world) ← code.run machine.world
  return ((), ⟨world, Function.update machine.iterators itr pointer⟩)

def answer {α : Type} (code : Code schema labelling α) : StateT (Machine schema labelling) (Except Fault) α :=
  fun machine => do
    let (output, world) ← code.run machine.world
    return (output, { machine with world })

def step (command : Command schema) : StateT (Machine schema labelling) (Except Fault) command.Output :=
  fun machine => match command with
  | .construct => do
    let ((), world) ← TableObject.construct.run machine.world
    return ((), ⟨world, fun _ => none⟩)
  | .assign itr other =>
    return ((), { machine with iterators := Function.update machine.iterators itr (machine.iterators other) })
  | .finish itr => keep itr (pure none) machine
  | .find itr target => keep itr target.find machine
  | .requireFind itr target errorMsg => keep itr (target.requireFind errorMsg) machine
  | .get target errorMsg => answer ((fun ptr => ptr.item.obj) <$> target.get errorMsg) machine
  | .lowerBound itr target => keep itr target.lowerBound machine
  | .upperBound itr target => keep itr target.upperBound machine
  | .increment itr path => keep itr (path.forward (machine.iterators itr)) machine
  | .decrement itr path => keep itr (path.backward (machine.iterators itr)) machine
  | .read itr => answer ((fun ptr => ptr.item.obj) <$> TableObject.dereference (machine.iterators itr)) machine
  | .equal itr other => answer (do
      TableObject.comparable (machine.iterators itr)
      TableObject.comparable (machine.iterators other)
      return machine.iterators itr = machine.iterators other) machine
  | .availablePrimaryKey => answer TableObject.availablePrimaryKey machine
  | .emplace itr fresh constructor => keep itr (TableObject.emplace fresh constructor) machine
  | .modify itr updater => answer (TableObject.modify (machine.iterators itr) updater) machine
  | .erase itr path => keep itr (path.erase (machine.iterators itr)) machine
  | .eraseObject itr => answer (TableObject.eraseObject (machine.iterators itr)) machine

end Machine

/-! How a machine and a view belong together. -/

/-- A cursor and a pointer mean the same. -/
def Agrees (world : World schema labelling) : Cursor → Pointer → Prop
  | .finish, itr => itr = none
  | .row key, itr => itr.map (keyAt world) = some (some key)
  | .dead, itr => ∃ address < world.allocated, itr = some address ∧ keyAt world address = none

structure Related (view : View schema) (machine : Machine schema labelling) : Prop where
  coherent : Coherent machine.world view.table
  next : machine.world.nextPrimaryKey = view.next
  own : machine.world.code = machine.world.receiver ↔ view.own = true
  cursors : ∀ itr, Agrees machine.world (view.cursors itr) (machine.iterators itr)

variable {view : View schema} {machine : Machine schema labelling} {world after : World schema labelling}
  {row? : Option schema.Row} {row : schema.Row} {itr : Nat}

theorem agrees_of_points {pointer : Pointer} (points : PointsTo world pointer row?) :
    Agrees world (row?.elim .finish fun row => .row (schema.primaryKey row)) pointer := by
  cases row? with
  | none => exact TableObject.PointsTo.end_iff.mp points
  | some row => exact points

theorem Agrees.persists {table : Table schema.primaryKey} {cursor : Cursor} {pointer : Pointer}
    (agrees : Agrees world cursor pointer) (coherent : Coherent world table)
    (allocated : world.allocated ≤ after.allocated)
    (pointed : ∀ address < world.allocated, keyAt after address = keyAt world address) :
    Agrees after cursor pointer := by
  cases cursor with
  | finish => exact agrees
  | row key =>
    obtain ⟨address, rfl, here⟩ := Option.map_eq_some_iff.mp agrees
    exact congrArg some ((pointed address (coherent.below_allocated here)).trans here)
  | dead =>
    obtain ⟨address, old, rfl, gone⟩ := agrees
    exact ⟨address, old.trans_le allocated, rfl, (pointed address old).trans gone⟩

/-- The object has only loaded rows, and the contract keeps a pointer. -/
theorem Related.place (related : Related view machine) (loads : Loads view.table machine.world after)
    {pointer : Pointer} (points : PointsTo after pointer row?) :
    Related (view.place itr row?) ⟨after, Function.update machine.iterators itr pointer⟩ where
  coherent := loads.coherent
  next := loads.nextPrimaryKey.trans related.next
  own := by rw [loads.code, loads.receiver]; exact related.own
  cursors other := by
    by_cases same : other = itr
    · subst same
      simp only [View.place, Function.update_self]
      exact agrees_of_points points
    · simp only [View.place, Function.update_of_ne same]
      exact (related.cursors other).persists related.coherent loads.allocated loads.keyAt

theorem Related.loads (related : Related view machine) (loads : Loads view.table machine.world after) :
    Related view { machine with world := after } where
  coherent := loads.coherent
  next := loads.nextPrimaryKey.trans related.next
  own := by rw [loads.code, loads.receiver]; exact related.own
  cursors other := (related.cursors other).persists related.coherent loads.allocated loads.keyAt

theorem Machine.run_keep {code : Code schema labelling Pointer} {pointer : Pointer}
    (ran : code.run machine.world = .ok (pointer, after)) :
    (Machine.keep itr code).run machine = .ok ((), ⟨after, Function.update machine.iterators itr pointer⟩) := by
  change (code.run machine.world >>= _) = _
  rw [ran]
  rfl

theorem Machine.run_keep_error {code : Code schema labelling Pointer} {fault : Fault}
    (failed : code.run machine.world = .error fault) : (Machine.keep itr code).run machine = .error fault := by
  change (code.run machine.world >>= _) = _
  rw [failed]
  rfl

theorem Machine.run_answer {α : Type} {code : Code schema labelling α} {value : α}
    (ran : code.run machine.world = .ok (value, after)) :
    (Machine.answer code).run machine = .ok (value, { machine with world := after }) := by
  change (code.run machine.world >>= _) = _
  rw [ran]
  rfl

theorem Machine.run_answer_error {α : Type} {code : Code schema labelling α} {fault : Fault}
    (failed : code.run machine.world = .error fault) : (Machine.answer code).run machine = .error fault := by
  change (code.run machine.world >>= _) = _
  rw [failed]
  rfl

/-- The table has only been read. The host may have handed out more numbers. -/
structure Walks (view : View schema) (machine : Machine schema labelling) (later : View schema)
    (walked : Machine schema labelling) : Prop extends Related later walked where
  table : later.table = view.table
  grown : machine.world.db.Extends walked.world.db

theorem Related.walks (related : Related view machine) : Walks view machine view machine := ⟨related, rfl, .refl _⟩

theorem Related.keep (related : Related view machine) {code : Code schema labelling Pointer}
    {outcome : Except Fault (Option schema.Row)} (follows : Follows view.table machine.world code outcome) :
    Matches .undefined (Walks view machine) (do
      let row? ← outcome
      return ((), view.place itr row?)) ((Machine.keep itr code).run machine) := by
  cases outcome with
  | error fault =>
    rw [Machine.run_keep_error follows]
    exact .fails fault
  | ok row? =>
    obtain ⟨pointer, after, ran, loads, points⟩ := follows
    rw [Machine.run_keep ran]
    exact .answers _ ⟨related.place loads points, rfl, loads.grown⟩

theorem Related.keepFound (related : Related view machine) {code : Code schema labelling Pointer}
    (finds : Finds view.table machine.world code row?) :
    Matches .undefined (Walks view machine) (.ok ((), view.place itr row?)) ((Machine.keep itr code).run machine) := by
  have follows : Follows view.table machine.world code (.ok row?) := finds
  exact related.keep follows

theorem Related.read (related : Related view machine) {code : Code schema labelling (ItemPtr schema)}
    {outcome : Except Fault schema.Row} (reads : Reads view.table machine.world code outcome) :
    Matches .undefined (Walks view machine) (do
      let row ← outcome
      return (row, view)) ((Machine.answer ((fun ptr => ptr.item.obj) <$> code)).run machine) := by
  cases outcome with
  | error fault =>
    rw [Machine.run_answer_error (run_map_error reads)]
    exact .fails fault
  | ok row =>
    obtain ⟨ptr, after, ran, loads, rfl⟩ := reads
    rw [Machine.run_answer (run_map_ok ran)]
    exact .answers _ ⟨related.loads loads, rfl, loads.grown⟩

/-! Lookups and steps, by either kind of key. -/

variable {table : Table schema.primaryKey} {pointer : Pointer}

theorem Target.finds (coherent : Coherent world table) (target : Target schema) :
    Finds table world target.find (target.find? table) := by
  cases target with
  | primary key => exact coherent.find key
  | index i secondary => exact coherent.indexFind secondary

theorem Target.requires (coherent : Coherent world table) (errorMsg : String) (target : Target schema) :
    Follows table world (target.requireFind errorMsg) (found (target.find? table) errorMsg) := by
  cases target with
  | primary key => exact coherent.requireFind key errorMsg
  | index i secondary => exact coherent.indexRequireFind secondary errorMsg

theorem Target.gets (coherent : Coherent world table) (errorMsg : String) (target : Target schema) :
    Reads table world (target.get errorMsg) ((target.find? table).elim (fail errorMsg) .ok) := by
  cases target with
  | primary key => exact coherent.get key errorMsg
  | index i secondary => exact coherent.indexGet secondary errorMsg

theorem Target.lowerBounds (coherent : Coherent world table) (target : Target schema) :
    Finds table world target.lowerBound (target.lowerBound? table) := by
  cases target with
  | primary key => exact coherent.lowerBound key
  | index i secondary => exact coherent.indexLowerBound secondary

theorem Target.upperBounds (coherent : Coherent world table) (target : Target schema) :
    Finds table world target.upperBound (target.upperBound? table) := by
  cases target with
  | primary key => exact coherent.upperBound key
  | index i secondary => exact coherent.indexUpperBound secondary

theorem Path.forwards (coherent : Coherent world table) (points : PointsTo world pointer row?)
    (inside : ∀ row, row? = some row → row ∈ table.rows) (path : Path schema) :
    Follows table world (path.forward pointer) (path.increment table row?) := by
  cases row? with
  | none =>
    obtain rfl := TableObject.PointsTo.end_iff.mp points
    cases path with
    | primary => exact TableObject.increment_end
    | index i => exact TableObject.indexIncrement_end
  | some row =>
    cases path with
    | primary => exact coherent.increment (inside row rfl) points
    | index i => exact coherent.indexIncrement (inside row rfl) points

theorem Path.backwards (coherent : Coherent world table) (points : PointsTo world pointer row?)
    (inside : ∀ row, row? = some row → row ∈ table.rows) (path : Path schema) :
    Follows table world (path.backward pointer) (path.decrement table row?) := by
  cases row? with
  | none =>
    obtain rfl := TableObject.PointsTo.end_iff.mp points
    cases path with
    | primary => exact coherent.decrement_end
    | index i => exact coherent.indexDecrement_end
  | some row =>
    cases path with
    | primary => exact coherent.decrement_row (inside row rfl) points
    | index i => exact coherent.indexDecrement_row (inside row rfl) points

/-! Variables. -/

/-- A variable is at `end()` or at a row, unless its row has been erased. -/
theorem Related.at (related : Related view machine) (itr : Nat) :
    view.row? itr = .error .undefined ∨
      ∃ row?, view.row? itr = .ok row? ∧ PointsTo machine.world (machine.iterators itr) row? ∧
        ∀ row, row? = some row → row ∈ view.table.rows := by
  have agrees := related.cursors itr
  rw [View.row?]
  cases cursor : view.cursors itr with
  | dead => exact .inl rfl
  | finish =>
    rw [cursor] at agrees
    exact .inr ⟨none, rfl, TableObject.PointsTo.end_iff.mpr agrees, nofun⟩
  | row key =>
    rw [cursor] at agrees
    obtain ⟨address, same, here⟩ := Option.map_eq_some_iff.mp agrees
    obtain ⟨ptr, found, rfl⟩ := Option.map_eq_some_iff.mp here
    have present := (related.coherent.loaded ptr (List.mem_of_find?_eq_some found)).stored
    refine .inr ⟨some ptr.item.obj, congrArg Except.ok (Table.find?_self present), agrees, fun row same => ?_⟩
    exact Option.some.inj same ▸ present

theorem comparable_of_points {pointer : Pointer} (coherent : Coherent world table)
    (inside : ∀ row, row? = some row → row ∈ table.rows) (points : PointsTo world pointer row?) :
    (TableObject.comparable pointer : Code schema labelling Unit).run world = .ok ((), world) := by
  cases row? with
  | none =>
    obtain rfl := TableObject.PointsTo.end_iff.mp points
    rfl
  | some row =>
    obtain ⟨ptr, _, rfl, _, followed⟩ := coherent.dereference (inside row rfl) points
    rw [TableObject.comparable, StateT.run_map, followed]
    rfl

/-- No two items are at one row. -/
theorem keyAt_injective (coherent : Coherent world table) {first second : Nat} {key : UInt64}
    (here : keyAt world first = some key) (there : keyAt world second = some key) : first = second := by
  obtain ⟨ptr, found, rfl⟩ := Option.map_eq_some_iff.mp here
  obtain ⟨other, also, same⟩ := Option.map_eq_some_iff.mp there
  have equal := List.inj_on_of_nodup_map coherent.keys (List.mem_of_find?_eq_some also)
    (List.mem_of_find?_eq_some found) same
  have first_eq : ptr.address = first := by simpa using List.find?_some found
  have second_eq : other.address = second := by simpa using List.find?_some also
  rw [← first_eq, ← second_eq, equal]

theorem Related.equal_iff (related : Related view machine) {itr other : Nat} (alive : view.cursors itr ≠ .dead)
    (also : view.cursors other ≠ .dead) :
    machine.iterators itr = machine.iterators other ↔ view.cursors itr = view.cursors other := by
  have first := related.cursors itr
  have second := related.cursors other
  cases at_first : view.cursors itr with
  | dead => exact absurd at_first alive
  | finish =>
    rw [at_first] at first
    rw [first]
    cases at_second : view.cursors other with
    | dead => exact absurd at_second also
    | finish =>
      rw [at_second] at second
      exact iff_of_true second.symm rfl
    | row key =>
      rw [at_second] at second
      obtain ⟨address, same, _⟩ := Option.map_eq_some_iff.mp second
      rw [same]
      exact iff_of_false (Option.some_ne_none _).symm Cursor.noConfusion
  | row key =>
    rw [at_first] at first
    obtain ⟨address, same, here⟩ := Option.map_eq_some_iff.mp first
    rw [same]
    cases at_second : view.cursors other with
    | dead => exact absurd at_second also
    | finish =>
      rw [at_second] at second
      rw [second]
      exact iff_of_false (Option.some_ne_none _) Cursor.noConfusion
    | row otherKey =>
      rw [at_second] at second
      obtain ⟨place, equal, there⟩ := Option.map_eq_some_iff.mp second
      rw [equal]
      constructor
      · intro shared
        obtain rfl := Option.some.inj shared
        rw [Option.some.inj (here.symm.trans there)]
      · intro shared
        obtain rfl := Cursor.row.inj shared
        rw [keyAt_injective related.coherent here there]

/-! Commands that write. -/

theorem Related.code_eq (related : Related view machine) (own : view.own = true) :
    machine.world.code = machine.world.receiver := related.own.mpr own

theorem Related.code_ne (related : Related view machine) (foreign : ¬ view.own = true) :
    machine.world.code ≠ machine.world.receiver := fun same => foreign (related.own.mp same)

theorem Related.writes (related : Related view machine) {result : Table schema.primaryKey} {pk : UInt64}
    (writes : TableObject.Writes result machine.world after pk)
    (pointed : ∀ address < machine.world.allocated, keyAt after address = keyAt machine.world address) :
    Related { view with table := result, next := View.pass view.next pk } { machine with world := after } where
  coherent := writes.coherent
  next := by rw [writes.nextPrimaryKey, related.next]
  own := by rw [writes.code, writes.receiver]; exact related.own
  cursors other := (related.cursors other).persists related.coherent writes.allocated pointed

theorem Related.emplace (related : Related view machine) (itr : Nat) (fresh : schema.Row)
    (constructor : schema.Row → schema.Row) :
    Matches .undefined Related ((View.step (.emplace itr fresh constructor)).run view)
      ((Machine.step (.emplace itr fresh constructor)).run machine) := by
  change Matches _ _ (view.owned _ >>= fun _ => View.packed (constructor fresh) >>= fun _ =>
    View.lift (MultiIndex.emplace view.table fresh constructor) >>= fun table => _)
    ((Machine.keep itr (TableObject.emplace fresh constructor)).run machine)
  by_cases own : view.own = true
  · rw [View.owned, if_pos own, View.packed]
    by_cases short : packSize (constructor fresh) < 2 ^ 31
    · rw [if_pos short]
      cases held : view.table.find? (schema.primaryKey (constructor fresh)) with
      | some row =>
        have present : (view.table.find? (schema.primaryKey (constructor fresh))).isSome := by rw [held]; rfl
        have refused : MultiIndex.emplace view.table fresh constructor = .error .duplicateKey := by
          rw [MultiIndex.emplace, Table.store, if_pos present]
        rw [refused, Machine.run_keep_error (related.coherent.emplace_taken (related.code_eq own) short present)]
        exact .fails _
      | none =>
        obtain ⟨after, ran, writes, pointed, points⟩ := related.coherent.emplace (related.code_eq own) short held
        rw [MultiIndex.emplace_eq_ok.mpr ⟨held, rfl⟩, Machine.run_keep ran]
        exact .answers _ ((related.writes writes pointed).place (.refl writes.coherent) points)
    · rw [if_neg short]
      exact .free _
  · rw [View.owned, if_neg own, Machine.run_keep_error (TableObject.emplace_foreign (related.code_ne own) _ _)]
    exact .fails _

theorem MultiIndex.modify_moved {ρ : Type} {key : ρ → UInt64} {table : Table key} {row : ρ} {updater : ρ → ρ}
    (moved : key row ≠ key (updater row)) :
    MultiIndex.modify table (some row) updater =
      .error (.check "updater cannot change primary key when modifying an object") := by
  rw [MultiIndex.modify, check, if_neg (by simpa using moved)]
  rfl

theorem Related.modify (related : Related view machine) (itr : Nat) (updater : schema.Row → schema.Row) :
    Matches .undefined Related ((View.step (.modify itr updater)).run view)
      ((Machine.step (.modify itr updater)).run machine) := by
  change Matches _ _ (view.row? itr >>= _)
    ((Machine.answer (TableObject.modify (machine.iterators itr) updater)).run machine)
  obtain dead | ⟨row?, at?, points, inside⟩ := related.at itr
  · rw [dead]
    exact .free _
  · rw [at?]
    cases row? with
    | none =>
      have stopped : (TableObject.modify (machine.iterators itr) updater : Code schema labelling Unit).run machine.world =
          fail "cannot pass end iterator to modify" := by
        rw [TableObject.PointsTo.end_iff.mp points]
        exact run_bind_error (TableObject.run_require_error rfl)
      rw [Machine.run_answer_error stopped]
      exact .fails _
    | some row =>
      have present := inside row rfl
      have entered : (TableObject.modify (machine.iterators itr) updater : Code schema labelling Unit).run machine.world =
          (TableObject.modifyObject (machine.iterators itr) updater).run machine.world := by
        obtain ⟨ptr, _, at_row, _⟩ := related.coherent.dereference present points
        rw [at_row]
        exact run_bind_ok (TableObject.run_require rfl)
      change Matches _ _ (view.owned _ >>= fun _ =>
        View.lift (MultiIndex.modify view.table (some row) updater) >>= fun table =>
          View.packed (updater row) >>= fun _ => _) _
      by_cases own : view.own = true
      · rw [View.owned, if_pos own]
        by_cases same : schema.primaryKey row = schema.primaryKey (updater row)
        · have held : (view.table.find? (schema.primaryKey (updater row))).isSome := by
            rw [← same, Table.find?_self present]
            rfl
          rw [MultiIndex.modify_some.mpr ⟨same, held, rfl⟩, View.packed]
          by_cases short : packSize (updater row) < 2 ^ 31
          · obtain ⟨after, ran, writes, pointed⟩ :=
              related.coherent.modifyObject (related.code_eq own) present points same short
            rw [if_pos short, Machine.run_answer (entered.trans ran)]
            exact .answers _ (related.writes writes fun address _ => pointed address)
          · rw [if_neg short]
            exact .free _
        · rw [MultiIndex.modify_moved same, Machine.run_answer_error
            (entered.trans (related.coherent.modify_moved (related.code_eq own) present points same))]
          exact .fails _
      · rw [View.owned, if_neg own, Machine.run_answer_error
          (entered.trans (related.coherent.modify_foreign (related.code_ne own) present points updater))]
        exact .fails _

/-- The row is gone, and with it the pointers to it. -/
theorem Related.erases (related : Related view machine) {row : schema.Row}
    (erases : TableObject.Erases view.table (schema.primaryKey row) machine.world after) :
    Related { view with
        table := view.table.erase (schema.primaryKey row)
        cursors := View.bury view.cursors (schema.primaryKey row) }
      { machine with world := after } where
  coherent := erases.coherent
  next := erases.nextPrimaryKey.trans related.next
  own := by rw [erases.code, erases.receiver]; exact related.own
  cursors itr := by
    have agrees := related.cursors itr
    simp only [View.bury]
    cases cursor : view.cursors itr with
    | finish =>
      rw [cursor] at agrees
      rw [if_neg Cursor.noConfusion]
      exact agrees
    | row key =>
      rw [cursor] at agrees
      obtain ⟨address, same, here⟩ := Option.map_eq_some_iff.mp agrees
      have moved := erases.keyAt address
      split
      · rename_i gone
        rw [here, if_pos (congrArg some (Cursor.row.inj gone))] at moved
        exact ⟨address, erases.allocated ▸ related.coherent.below_allocated here, same, moved⟩
      · rename_i other
        rw [here, if_neg fun equal => other (congrArg Cursor.row (Option.some.inj equal))] at moved
        rw [Agrees, same]
        exact congrArg some moved
    | dead =>
      rw [cursor] at agrees
      obtain ⟨address, old, same, absent⟩ := agrees
      rw [if_neg Cursor.noConfusion]
      refine ⟨address, erases.allocated ▸ old, same, ?_⟩
      rw [erases.keyAt, absent, if_neg (Option.some_ne_none _).symm]

theorem View.remove_own (own : view.own = true) (present : row ∈ view.table.rows) :
    view.remove row = .ok { view with
      table := view.table.erase (schema.primaryKey row)
      cursors := View.bury view.cursors (schema.primaryKey row) } := by
  have held : (view.table.find? (schema.primaryKey row)).isSome := by rw [Table.find?_self present]; rfl
  rw [View.remove, View.owned, if_pos own, MultiIndex.erase_some.mpr ⟨held, rfl⟩]
  rfl

theorem View.remove_foreign (foreign : ¬ view.own = true) :
    view.remove row = fail "cannot erase objects in table of another contract" := by
  rw [View.remove, View.owned, if_neg foreign]
  rfl

theorem Related.eraseObject (related : Related view machine) (itr : Nat) :
    Matches .undefined Related ((View.step (.eraseObject itr)).run view)
      ((Machine.step (.eraseObject itr)).run machine) := by
  change Matches _ _ (view.row? itr >>= _)
    ((Machine.answer (TableObject.eraseObject (machine.iterators itr))).run machine)
  obtain dead | ⟨row?, at?, points, inside⟩ := related.at itr
  · rw [dead]
    exact .free _
  · rw [at?]
    cases row? with
    | none => exact .free _
    | some row =>
      have present := inside row rfl
      change Matches _ _ (view.remove row >>= _) _
      by_cases own : view.own = true
      · obtain ⟨after, ran, erases⟩ := related.coherent.eraseObject (related.code_eq own) present points
        rw [View.remove_own own present, Machine.run_answer ran]
        exact .answers _ (related.erases erases)
      · rw [View.remove_foreign own,
          Machine.run_answer_error (related.coherent.erase_foreign (related.code_ne own) present points)]
        exact .fails _

/-- The row that follows is another one. -/
theorem Path.next?_apart {path : Path schema} {next : schema.Row} (present : row ∈ table.rows)
    (follows : path.next? table row = some next) :
    next ∈ table.rows ∧ schema.primaryKey next ≠ schema.primaryKey row := by
  cases path with
  | primary => exact ⟨Table.mem_of_next? follows, (Table.lt_of_next? follows).ne'⟩
  | index i =>
    obtain ⟨inside, above, _⟩ := Table.leastWhere_eq_some.mp follows
    refine ⟨inside, fun same => ?_⟩
    rw [table.key_injective inside present same] at above
    exact lt_irrefl _ (of_decide_eq_true above)

theorem Path.erase_eq (path : Path schema) (pointer : Pointer) :
    (path.erase pointer : Code schema labelling Pointer) = (do
      TableObject.require (pointer ≠ none) "cannot pass end iterator to erase"
      let next ← path.forward pointer
      TableObject.eraseObject pointer
      return next) := by
  cases path <;> rfl

theorem Related.erase (related : Related view machine) (itr : Nat) (path : Path schema) :
    Matches .undefined Related ((View.step (.erase itr path)).run view)
      ((Machine.step (.erase itr path)).run machine) := by
  change Matches _ _ (view.row? itr >>= _) ((Machine.keep itr (path.erase (machine.iterators itr))).run machine)
  obtain dead | ⟨row?, at?, points, inside⟩ := related.at itr
  · rw [dead]
    exact .free _
  · rw [at?]
    cases row? with
    | none =>
      have stopped : (path.erase (machine.iterators itr) : Code schema labelling Pointer).run machine.world =
          fail "cannot pass end iterator to erase" := by
        rw [Path.erase_eq, TableObject.PointsTo.end_iff.mp points]
        exact run_bind_error (TableObject.run_require_error rfl)
      rw [Machine.run_keep_error stopped]
      exact .fails _
    | some row =>
      have present := inside row rfl
      change Matches _ _ (view.remove row >>= _) _
      have follows := path.forwards related.coherent points inside
      obtain ⟨next, middle, stepped, loads, reached⟩ : Finds view.table machine.world _ (path.next? view.table row) :=
        follows
      have loaded := related.loads loads
      have met : (TableObject.require (machine.iterators itr ≠ none) "cannot pass end iterator to erase" :
          Code schema labelling Unit).run machine.world = .ok ((), machine.world) := by
        obtain ⟨ptr, _, at_row, _⟩ := related.coherent.dereference present points
        rw [at_row]
        exact TableObject.run_require rfl
      have still : Agrees middle (.row (schema.primaryKey row)) (machine.iterators itr) :=
        Agrees.persists points related.coherent loads.allocated loads.keyAt
      by_cases own : view.own = true
      · obtain ⟨after, ran, erases⟩ := loaded.coherent.eraseObject (loaded.code_eq own) present still
        have arrived : PointsTo after next (path.next? view.table row) := by
          cases follower : path.next? view.table row with
          | none =>
            rw [follower] at reached
            exact TableObject.PointsTo.end_iff.mpr (TableObject.PointsTo.end_iff.mp reached)
          | some other =>
            rw [follower] at reached
            obtain ⟨address, rfl, here⟩ := Option.map_eq_some_iff.mp reached
            have apart := (Path.next?_apart present follower).2
            refine congrArg some ((erases.keyAt address).trans ?_)
            rw [here, if_neg fun same => apart (Option.some.inj same)]
        have erased : (path.erase (machine.iterators itr) : Code schema labelling Pointer).run machine.world =
            .ok (next, after) := by
          rw [Path.erase_eq, run_bind_ok met, run_bind_ok stepped, run_bind_ok ran]
          rfl
        rw [View.remove_own own present, Machine.run_keep erased]
        exact .answers _ ((loaded.erases erases).place (.refl erases.coherent) arrived)
      · have refused : (path.erase (machine.iterators itr) : Code schema labelling Pointer).run machine.world =
            fail "cannot erase objects in table of another contract" := by
          rw [Path.erase_eq, run_bind_ok met, run_bind_ok stepped]
          exact run_bind_error (loaded.coherent.erase_foreign (loaded.code_ne own) present still)
        rw [View.remove_foreign own, Machine.run_keep_error refused]
        exact .fails _

/-! Every command, and every program. -/

/-- An object is made anew, whatever the old one had loaded. -/
theorem Related.construct (represents : TableObject.Represents world.db view.table)
    (own : world.code = world.receiver ↔ view.own = true) :
    Related { view with next := MultiIndex.unsetNextPrimaryKey, cursors := fun _ => .finish }
      ⟨{ world with nextPrimaryKey := MultiIndex.unsetNextPrimaryKey, itemsVector := [] }, fun _ => none⟩ where
  coherent := {
    toRepresents := represents
    loaded := fun _ member => absurd member List.not_mem_nil
    keys := .nil
    addresses := .nil
    allocated := fun _ member => absurd member List.not_mem_nil
  }
  next := rfl
  own := own
  cursors _ := rfl

theorem Related.assign (related : Related view machine) (itr other : Nat) :
    Related { view with cursors := Function.update view.cursors itr (view.cursors other) }
      { machine with iterators := Function.update machine.iterators itr (machine.iterators other) } where
  coherent := related.coherent
  next := related.next
  own := related.own
  cursors place := by
    by_cases same : place = itr
    · subst same
      simp only [Function.update_self]
      exact related.cursors other
    · simp only [Function.update_of_ne same]
      exact related.cursors place

theorem Related.equal (related : Related view machine) (itr other : Nat) :
    Matches .undefined (Walks view machine) ((View.step (.equal itr other)).run view)
      ((Machine.step (.equal itr other)).run machine) := by
  change Matches _ _ (view.row? itr >>= fun _ => view.row? other >>= fun _ => _)
    ((Machine.answer (do
      TableObject.comparable (machine.iterators itr)
      TableObject.comparable (machine.iterators other)
      return decide (machine.iterators itr = machine.iterators other))).run machine)
  obtain dead | ⟨row?, at?, points, inside⟩ := related.at itr
  · rw [dead]
    exact .free _
  obtain dead | ⟨other?, also?, reached, within⟩ := related.at other
  · rw [at?, dead]
    exact .free _
  have alive {place : Nat} {row? : Option schema.Row} (there : view.row? place = .ok row?) :
      view.cursors place ≠ .dead := by
    intro dead
    rw [View.row?, dead] at there
    cases there
  have compared : (do
      TableObject.comparable (machine.iterators itr)
      TableObject.comparable (machine.iterators other)
      return decide (machine.iterators itr = machine.iterators other) :
        Code schema labelling Bool).run machine.world =
      .ok (decide (machine.iterators itr = machine.iterators other), machine.world) := by
    rw [run_bind_ok (comparable_of_points related.coherent inside points),
      run_bind_ok (comparable_of_points related.coherent within reached)]
    rfl
  have answered : (Machine.answer (do
      TableObject.comparable (machine.iterators itr)
      TableObject.comparable (machine.iterators other)
      return decide (machine.iterators itr = machine.iterators other))).run machine =
        .ok (decide (machine.iterators itr = machine.iterators other), machine) := by
    change (StateT.run _ machine.world >>= _) = _
    rw [compared]
    rfl
  rw [at?, also?, answered, decide_eq_decide.mpr (related.equal_iff (alive at?) (alive also?))]
  exact .answers _ related.walks

theorem Related.availablePrimaryKey (related : Related view machine) :
    Matches .undefined (Walks view machine) ((View.step .availablePrimaryKey).run view)
      ((Machine.step .availablePrimaryKey).run machine) := by
  change Matches _ _ (View.lift (MultiIndex.availablePrimaryKey view.next view.table) >>= _)
    ((Machine.answer TableObject.availablePrimaryKey).run machine)
  rw [← related.next]
  obtain ⟨key, after, granted, ran, loads⟩ | ⟨message, refused, stopped⟩ := related.coherent.availablePrimaryKey
  · rw [granted, Machine.run_answer ran]
    have loaded := related.loads loads
    exact .answers _ ⟨⟨loaded.coherent.renext key, rfl, loaded.own, loaded.cursors⟩, rfl, loads.grown⟩
  · rw [refused, Machine.run_answer_error stopped]
    exact .fails _

/-- A command that does not write leaves the table as it is. -/
theorem step_walks (command : Command schema) (reads : command.writes = false) (related : Related view machine) :
    Matches .undefined (Walks view machine) ((View.step command).run view) ((Machine.step command).run machine) := by
  have coherent := related.coherent
  cases command with
  | construct => exact .answers _ ⟨.construct coherent.toRepresents related.own, rfl, .refl _⟩
  | assign itr other => exact .answers _ ⟨related.assign itr other, rfl, .refl _⟩
  | finish itr => exact related.keepFound ⟨none, machine.world, rfl, .refl coherent, rfl⟩
  | find itr target => exact related.keepFound (target.finds coherent)
  | requireFind itr target errorMsg => exact related.keep (target.requires coherent errorMsg)
  | get target errorMsg => exact related.read (target.gets coherent errorMsg)
  | lowerBound itr target => exact related.keepFound (target.lowerBounds coherent)
  | upperBound itr target => exact related.keepFound (target.upperBounds coherent)
  | increment itr path =>
    change Matches _ _ (view.row? itr >>= fun row? => _)
      ((Machine.keep itr (path.forward (machine.iterators itr))).run machine)
    obtain dead | ⟨row?, at?, points, inside⟩ := related.at itr
    · rw [dead]
      exact .free _
    · rw [at?]
      exact related.keep (path.forwards coherent points inside)
  | decrement itr path =>
    change Matches _ _ (view.row? itr >>= fun row? => _)
      ((Machine.keep itr (path.backward (machine.iterators itr))).run machine)
    obtain dead | ⟨row?, at?, points, inside⟩ := related.at itr
    · rw [dead]
      exact .free _
    · rw [at?]
      exact related.keep (path.backwards coherent points inside)
  | read itr =>
    change Matches _ _ (view.row? itr >>= fun row? => _)
      ((Machine.answer ((fun ptr => ptr.item.obj) <$> TableObject.dereference (machine.iterators itr))).run machine)
    obtain dead | ⟨row?, at?, points, inside⟩ := related.at itr
    · rw [dead]
      exact .free _
    · rw [at?]
      cases row? with
      | none => exact .free _
      | some row =>
        obtain ⟨ptr, _, _, same, followed⟩ := coherent.dereference (inside row rfl) points
        have reads : Reads view.table machine.world (TableObject.dereference (machine.iterators itr)) (.ok row) :=
          ⟨ptr, machine.world, followed, .refl coherent, same⟩
        exact related.read reads
  | equal itr other => exact related.equal itr other
  | availablePrimaryKey => exact related.availablePrimaryKey
  | emplace itr fresh constructor | modify itr updater | erase itr path | eraseObject itr => cases reads

theorem step_refines (command : Command schema) :
    Refines .undefined (Related : View schema → Machine schema labelling → Prop) (View.step command)
      (Machine.step command) := by
  intro view machine related
  cases written : command.writes with
  | false => exact (step_walks command written related).weaken fun _ _ walks => walks.toRelated
  | true =>
    cases command with
    | emplace itr fresh constructor => exact related.emplace itr fresh constructor
    | modify itr updater => exact related.modify itr updater
    | erase itr path => exact related.erase itr path
    | eraseObject itr => exact related.eraseObject itr
    | _ => cases written

end LocalChain.Inery
