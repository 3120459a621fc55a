import LocalChain.Inery.TableCoherence
import LocalChain.Inery.TableView

/-! Walking through a `multi_index` object ends where walking the table ends. -/
namespace LocalChain.Inery.TableObject

open LocalChain.Store
open LocalChain.Refine (run_bind_ok run_bind_error)

variable {schema : Schema} {labelling : Labelling UInt64} {table : Table schema.primaryKey}
  {world after : World schema labelling} {row : schema.Row} {row? : Option schema.Row} {itr : Pointer}

theorem run_require {condition : Bool} {message : String} (met : condition = true) :
    (require condition message : Code schema labelling Unit).run world = .ok ((), world) := by
  rw [require, if_pos met]
  rfl

theorem run_require_error {condition : Bool} {message : String} (unmet : condition = false) :
    (require condition message : Code schema labelling Unit).run world = fail message := by
  rw [require, unmet, if_neg Bool.false_ne_true]
  rfl

/-- The code ends where the table says, or stops like it. -/
def Follows (table : Table schema.primaryKey) (world : World schema labelling) (code : Code schema labelling Pointer) :
    Except Fault (Option schema.Row) → Prop
  | .ok row? => Finds table world code row?
  | .error fault => code.run world = .error fault

theorem Follows.bind {α : Type} {first : Code schema labelling α} {next : α → Code schema labelling Pointer} {value : α}
    {outcome : Except Fault (Option schema.Row)} (ran : first.run world = .ok (value, after))
    (loads : Loads table world after) (follows : Follows table after (next value) outcome) :
    Follows table world (first >>= next) outcome := by
  cases outcome with
  | error fault => exact (run_bind_ok ran).trans follows
  | ok row? =>
    obtain ⟨itr, last, found, more, points⟩ := follows
    exact ⟨itr, last, (run_bind_ok ran).trans found, loads.trans more, points⟩

theorem Finds.bind {α : Type} {first : Code schema labelling α} {next : α → Code schema labelling Pointer} {value : α}
    (ran : first.run world = .ok (value, after)) (loads : Loads table world after)
    (finds : Finds table after (next value) row?) : Finds table world (first >>= next) row? := by
  have follows : Follows table after (next value) (.ok row?) := finds
  exact Follows.bind ran loads follows

/-! The primary table. -/

/-- The host is asked for a row of the primary table. -/
theorem Coherent.primaryCall (coherent : Coherent world table) {otherwise : Iterator}
    (call : Handled labelling Record.primary → Except Fault (Iterator × Handled labelling Record.primary))
    (called : call world.db.primary = .ok (iteratorTo world.db.primary (row?.map record) otherwise)) :
    ∃ itr after, (onPrimary call : Code schema labelling Iterator).run world = .ok (itr, after) ∧
      Loads table world after ∧ (row? = none → itr = otherwise) ∧
      ∀ row, row? = some row → Stands after.db.primary itr (schema.primaryKey row) := by
  refine ⟨_, _, run_onPrimary called, coherent.renumbered (rows_iteratorTo _ _) (extends_iteratorTo _ _), ?_, ?_⟩
  · rintro rfl
    rfl
  · rintro row rfl
    exact stands_iteratorTo (record row) otherwise

theorem Coherent.enter (coherent : Coherent world table) {itr : Iterator}
    (inside : ∀ row, row? = some row → row ∈ table.rows)
    (missing : row? = none → itr.negative = true)
    (stands : ∀ row, row? = some row → Stands world.db.primary itr (schema.primaryKey row)) :
    Finds table world (TableObject.enter itr) row? := by
  cases row? with
  | none =>
    refine ⟨none, world, ?_, .refl coherent, rfl⟩
    rw [TableObject.enter, if_pos (missing rfl)]
    rfl
  | some row =>
    obtain ⟨address, after, loaded, loads, points⟩ := coherent.load (inside row rfl) (stands row rfl)
    refine ⟨some address, after, ?_, loads, congrArg some points⟩
    rw [TableObject.enter, if_neg (Bool.eq_false_iff.mp (stands row rfl).not_negative), StateT.run_map, loaded]
    rfl

/-- The host is asked for a row, and the row is loaded. -/
theorem Coherent.enterCall (coherent : Coherent world table) (otherwise : Iterator)
    {call : Handled labelling Record.primary → Except Fault (Iterator × Handled labelling Record.primary)}
    (called : call world.db.primary = .ok (iteratorTo world.db.primary (row?.map record) otherwise))
    (negative : otherwise.negative = true) (inside : ∀ row, row? = some row → row ∈ table.rows) :
    Finds table world (onPrimary call >>= TableObject.enter) row? := by
  obtain ⟨itr, middle, ran, loads, missing, stands⟩ := coherent.primaryCall _ called
  obtain ⟨pointer, after, entered, more, points⟩ :=
    loads.coherent.enter inside (fun absent => missing absent ▸ negative) stands
  exact ⟨pointer, after, (run_bind_ok ran).trans entered, loads.trans more, points⟩

/-- A row that is loaded is found among the items. -/
theorem Coherent.search (coherent : Coherent world table) (primary : UInt64) :
    ∃ ptr?, (findLast fun ptr => schema.primaryKey ptr.item.obj = primary : Code schema labelling _).run world =
        .ok (ptr?, world) ∧
      ∀ ptr, ptr? = some ptr → ∃ row, table.find? primary = some row ∧ PointsTo world (some ptr.address) (some row) := by
  refine ⟨_, rfl, fun ptr found => ?_⟩
  have member : ptr ∈ world.itemsVector := List.mem_reverse.mp (List.mem_of_find?_eq_some found)
  have same : schema.primaryKey ptr.item.obj = primary := by simpa using List.find?_some found
  exact ⟨ptr.item.obj, Table.find?_eq_some.mpr ⟨(coherent.loaded ptr member).stored, same⟩,
    congrArg some (coherent.keyAt_of_mem member)⟩

theorem Coherent.dbFind_eq (coherent : Coherent world table) (primary : UInt64) :
    dbFind world.db.primary primary = iteratorTo world.db.primary ((table.find? primary).map record) .tableEnd := by
  rw [dbFind, coherent.records, Table.find?_image]

theorem Coherent.find (coherent : Coherent world table) (primary : UInt64) :
    Finds table world (TableObject.find primary) (table.find? primary) := by
  obtain ⟨ptr?, searched, loaded⟩ := coherent.search primary
  refine .bind searched (.refl coherent) ?_
  cases ptr? with
  | some ptr =>
    obtain ⟨row, held, points⟩ := loaded ptr rfl
    rw [held]
    exact ⟨some ptr.address, world, rfl, .refl coherent, points⟩
  | none =>
    exact coherent.enterCall .tableEnd (congrArg Except.ok (coherent.dbFind_eq primary)) rfl
      fun row found => (Table.find?_eq_some.mp found).1

theorem Coherent.lowerBound (coherent : Coherent world table) (primary : UInt64) :
    Finds table world (TableObject.lowerBound primary) (table.lowerBound primary) :=
  coherent.enterCall .tableEnd (by rw [dbLowerboundI64, coherent.records, Table.lowerBound_image]) rfl
    fun _ => Table.mem_of_lowerBound

theorem Coherent.upperBound (coherent : Coherent world table) (primary : UInt64) :
    Finds table world (TableObject.upperBound primary) (table.next? primary) :=
  coherent.enterCall .tableEnd (by rw [dbUpperboundI64, coherent.records, Table.next?_image]) rfl
    fun _ => Table.mem_of_next?

theorem Coherent.previousCall (coherent : Coherent world table) (otherwise : Iterator)
    {call : Handled labelling Record.primary → Except Fault (Iterator × Handled labelling Record.primary)}
    (called : call world.db.primary = .ok (iteratorTo world.db.primary (row?.map record) otherwise))
    (negative : otherwise.negative = true) (inside : ∀ row, row? = some row → row ∈ table.rows) (message : String) :
    Follows table world (do
      let prevItr ← onPrimary call
      require (!prevItr.negative) message
      some <$> loadObjectByPrimaryIterator prevItr) (found row? message) := by
  obtain ⟨prevItr, middle, ran, loads, missing, stands⟩ := coherent.primaryCall _ called
  cases row? with
  | none =>
    refine (run_bind_ok ran).trans (run_bind_error (run_require_error ?_))
    rw [missing rfl, negative]
    rfl
  | some row =>
    have there : prevItr.negative = false := (stands row rfl).not_negative
    obtain ⟨address, after, loaded, more, points⟩ := loads.coherent.load (inside row rfl) (stands row rfl)
    refine ⟨some address, after, ?_, loads.trans more, congrArg some points⟩
    rw [run_bind_ok ran, run_bind_ok (run_require (by rw [there]; rfl)), StateT.run_map, loaded]
    rfl

theorem increment_end : (TableObject.increment none : Code schema labelling Pointer).run world =
    fail "cannot increment end iterator" :=
  run_bind_error (run_require_error rfl)

theorem Coherent.increment (coherent : Coherent world table) (present : row ∈ table.rows)
    (points : PointsTo world itr (some row)) :
    Finds table world (TableObject.increment itr) (table.next? (schema.primaryKey row)) := by
  obtain ⟨ptr, member, rfl, rfl, followed⟩ := coherent.dereference present points
  have held := coherent.record_held present
  have asked : Finds table world
      ((onPrimary fun handled => dbNextI64 handled ptr.item.primaryItr) >>= TableObject.enter)
      (table.next? (schema.primaryKey ptr.item.obj)) := by
    refine coherent.enterCall .tableEnd ?_ rfl fun _ => Table.mem_of_next?
    rw [dbNextI64, (coherent.loaded ptr member).primaryItr.dereference held, coherent.records]
    exact congrArg (fun found => Except.ok (iteratorTo world.db.primary found .tableEnd)) (Table.next?_image _)
  obtain ⟨itr, after, entered, rest⟩ := asked
  have met : (require (some ptr.address ≠ none) "cannot increment end iterator" : Code schema labelling Unit).run world =
      .ok ((), world) := run_require rfl
  exact ⟨itr, after, (run_bind_ok met).trans ((run_bind_ok followed).trans entered), rest⟩

theorem dbEnd_image {ρ σ : Type} {key : ρ → UInt64} {codeKey : σ → UInt64} {handled : Handled labelling codeKey}
    {table : Table key} {encode : ρ → σ} {same : ∀ row, codeKey (encode row) = key row}
    (rows : handled.rows = table.image encode same) :
    dbEnd handled = if table.rows = [] then .missing else .tableEnd := by
  rw [dbEnd, rows, Table.image]
  simp only [List.isEmpty_map, List.isEmpty_iff]

theorem Coherent.decrement_end (coherent : Coherent world table) :
    Follows table world (TableObject.decrement none) (Path.primary.decrement table none) := by
  have ended : (onPrimary fun handled => .ok (dbEnd handled, handled) : Code schema labelling Iterator).run world =
      .ok (dbEnd world.db.primary, world) := run_onPrimary rfl
  have place := dbEnd_image coherent.records
  cases last : table.last? with
  | none =>
    rw [if_pos (Table.last?_eq_none.mp last)] at place
    rw [Path.decrement, Path.previous?, Option.elim_none, last]
    refine (run_bind_ok ended).trans (run_bind_error (run_require_error ?_))
    rw [place]
    rfl
  | some row =>
    rw [if_neg fun empty => by rw [Table.last?_eq_none.mpr empty] at last; cases last] at place
    have met : (require (dbEnd world.db.primary ≠ .missing) "cannot decrement end iterator when the table is empty" :
        Code schema labelling Unit).run world = .ok ((), world) := run_require (by rw [place]; rfl)
    refine .bind ended (.refl coherent) (.bind met (.refl coherent) ?_)
    refine coherent.previousCall .missing ?_ rfl (fun _ => Table.last?_mem) _
    rw [place, dbPreviousI64, coherent.records, Table.last?_image]
    rfl

theorem Coherent.decrement_row (coherent : Coherent world table) (present : row ∈ table.rows)
    (points : PointsTo world itr (some row)) :
    Follows table world (TableObject.decrement itr) (Path.primary.decrement table (some row)) := by
  obtain ⟨ptr, member, rfl, rfl, followed⟩ := coherent.dereference present points
  have held := coherent.record_held present
  refine .bind followed (.refl coherent) (coherent.previousCall .missing ?_ rfl (fun _ => Table.mem_of_previous?) _)
  have stands := (coherent.loaded ptr member).primaryItr
  rw [dbPreviousI64, stands.dereference held, coherent.records]
  · exact congrArg (fun found => Except.ok (iteratorTo world.db.primary found .missing)) (Table.previous?_image _)
  · exact stands.ne_tableEnd

/-! Indices. -/

variable {i : Fin schema.indices}

/-- The host is asked for a row of an index. -/
theorem Coherent.indexCall (coherent : Coherent world table) (otherwise : Iterator)
    {call : Handled labelling (Entry.primary (ν := schema.Secondary i)) →
      Except Fault ((Iterator × UInt64) × Handled labelling (Entry.primary (ν := schema.Secondary i)))}
    (called : call (world.db.secondary i) =
      .ok (entryTo (world.db.secondary i) (row?.map (entry i)) otherwise 0)) :
    ∃ itr primary after,
      (onIndex i call : Code schema labelling (Iterator × UInt64)).run world = .ok ((itr, primary), after) ∧
        Loads table world after ∧ (row? = none → itr = otherwise) ∧
        ∀ row, row? = some row →
          primary = schema.primaryKey row ∧ Stands (after.db.secondary i) itr (schema.primaryKey row) := by
  refine ⟨_, _, _, run_onIndex called, coherent.reindexed (rows_iteratorTo _ _) (extends_iteratorTo _ _), ?_, ?_⟩
  · rintro rfl
    rfl
  · rintro row rfl
    simp only [Function.update_self]
    exact ⟨rfl, stands_iteratorTo (entry i row) otherwise⟩

theorem Coherent.settle (coherent : Coherent world table) {itr : Iterator} (present : row ∈ table.rows)
    (stands : Stands (world.db.secondary i) itr (schema.primaryKey row)) :
    Finds table world (TableObject.settle i itr (schema.primaryKey row)) (some row) := by
  obtain ⟨found, middle, ran, loads, points⟩ := coherent.find (schema.primaryKey row)
  rw [Table.find?_self present] at points
  obtain ⟨ptr, member, rfl, rfl, followed⟩ := loads.coherent.dereference present points
  obtain ⟨after, wrote, more, pointed⟩ :=
    loads.coherent.setIter member (stands.extends (loads.secondary i))
  refine ⟨some ptr.address, after, ?_, loads.trans more, ?_⟩
  · rw [TableObject.settle, run_bind_ok ran, run_bind_ok followed, run_bind_ok wrote]
    rfl
  · refine congrArg some ((pointed ptr.address).trans (loads.coherent.keyAt_of_mem member))

/-- The host is asked for a row of the index, and the row is loaded. -/
theorem Coherent.settleCall (coherent : Coherent world table) (otherwise : Iterator)
    {call : Handled labelling (Entry.primary (ν := schema.Secondary i)) →
      Except Fault ((Iterator × UInt64) × Handled labelling (Entry.primary (ν := schema.Secondary i)))}
    (called : call (world.db.secondary i) =
      .ok (entryTo (world.db.secondary i) (row?.map (entry i)) otherwise 0))
    (negative : otherwise.negative = true) (inside : ∀ row, row? = some row → row ∈ table.rows) :
    Finds table world (do
      let (itr, primary) ← onIndex i call
      if itr.negative then return none else TableObject.settle i itr primary) row? := by
  obtain ⟨itr, primary, middle, ran, loads, missing, found⟩ := coherent.indexCall otherwise called
  cases row? with
  | none =>
    refine ⟨none, middle, (run_bind_ok ran).trans ?_, loads, rfl⟩
    dsimp only
    rw [missing rfl, if_pos negative]
    rfl
  | some row =>
    obtain ⟨rfl, stands⟩ := found row rfl
    obtain ⟨address, after, settled, more, points⟩ := loads.coherent.settle (inside row rfl) stands
    refine ⟨address, after, (run_bind_ok ran).trans ?_, loads.trans more, points⟩
    dsimp only
    rw [if_neg (Bool.eq_false_iff.mp stands.not_negative)]
    exact settled

theorem Coherent.indexLowerBound (coherent : Coherent world table) (secondary : schema.Secondary i) :
    Finds table world (TableObject.indexLowerBound i secondary)
      (table.indexLowerBound (schema.extractSecondaryKey i) secondary) :=
  coherent.settleCall .tableEnd
    (by rw [dbIdxLowerbound, coherent.entries, Table.indexLowerBound_image (entry_secondary i)]) rfl
    fun _ => Table.mem_of_leastWhere

theorem Coherent.indexUpperBound (coherent : Coherent world table) (secondary : schema.Secondary i) :
    Finds table world (TableObject.indexUpperBound i secondary)
      (table.indexUpperBound (schema.extractSecondaryKey i) secondary) :=
  coherent.settleCall .tableEnd
    (by rw [dbIdxUpperbound, coherent.entries, Table.indexUpperBound_image (entry_secondary i)]) rfl
    fun _ => Table.mem_of_leastWhere

theorem Coherent.indexIterator (coherent : Coherent world table) {ptr : ItemPtr schema} (member : ptr ∈ world.itemsVector) :
    ∃ itr after, (TableObject.indexIterator i ptr : Code schema labelling Iterator).run world = .ok (itr, after) ∧
      Loads table world after ∧ (∀ address, keyAt after address = keyAt world address) ∧
      Stands (after.db.secondary i) itr (schema.primaryKey ptr.item.obj) := by
  have loaded := coherent.loaded ptr member
  rw [TableObject.indexIterator]
  split
  · have called : dbFind (world.db.secondary i) (schema.primaryKey ptr.item.obj) =
        iteratorTo (world.db.secondary i) (some (entry i ptr.item.obj)) .tableEnd := by
      rw [dbFind, coherent.entry_held loaded.stored]
    have ran : (onIndex i fun handled => .ok (dbFind handled (schema.primaryKey ptr.item.obj)) :
        Code schema labelling Iterator).run world = _ := run_onIndex (congrArg Except.ok called)
    have loads := coherent.reindexed (rows_iteratorTo (some (entry i ptr.item.obj)) .tableEnd) (extends_iteratorTo _ _)
    have stands : Stands (iteratorTo (world.db.secondary i) (some (entry i ptr.item.obj)) .tableEnd).2 _
        (schema.primaryKey ptr.item.obj) := stands_iteratorTo (entry i ptr.item.obj) .tableEnd
    obtain ⟨after, wrote, more, pointed⟩ := loads.coherent.setIter (i := i) member (by
      simp only [Function.update_self]
      exact stands)
    refine ⟨_, after, (run_bind_ok ran).trans ((run_bind_ok wrote).trans rfl), loads.trans more, pointed, ?_⟩
    refine Stands.extends ?_ (more.secondary i)
    simp only [Function.update_self]
    exact stands
  · rename_i known
    exact ⟨_, world, rfl, .refl coherent, fun _ => rfl, loaded.iters i known⟩

theorem indexIncrement_end : (TableObject.indexIncrement i none : Code schema labelling Pointer).run world =
    fail "cannot increment end iterator" :=
  run_bind_error (run_require_error rfl)

theorem Coherent.indexIncrement (coherent : Coherent world table) (present : row ∈ table.rows)
    (points : PointsTo world itr (some row)) :
    Finds table world (TableObject.indexIncrement i itr)
      (table.indexNext (schema.extractSecondaryKey i) row) := by
  obtain ⟨ptr, member, rfl, rfl, followed⟩ := coherent.dereference present points
  have met : (require (some ptr.address ≠ none) "cannot increment end iterator" : Code schema labelling Unit).run world =
      .ok ((), world) := run_require rfl
  obtain ⟨idxitr, middle, ran, loads, _, stands⟩ := coherent.indexIterator (i := i) member
  refine .bind met (.refl coherent) (.bind followed (.refl coherent) (.bind ran loads ?_))
  refine loads.coherent.settleCall .tableEnd ?_ rfl fun _ => Table.mem_of_leastWhere
  rw [dbIdxNext, stands.dereference (loads.coherent.entry_held present i), loads.coherent.entries]
  exact congrArg (fun found => Except.ok (entryTo (middle.db.secondary i) found .tableEnd 0))
    (Table.indexNext_image (entry_secondary i) _)

/-- The host is asked for the row before, which must be there. -/
theorem Coherent.previousIndexCall (coherent : Coherent world table) (otherwise : Iterator)
    {call : Handled labelling (Entry.primary (ν := schema.Secondary i)) →
      Except Fault ((Iterator × UInt64) × Handled labelling (Entry.primary (ν := schema.Secondary i)))}
    (called : call (world.db.secondary i) =
      .ok (entryTo (world.db.secondary i) (row?.map (entry i)) otherwise 0))
    (negative : otherwise.negative = true) (inside : ∀ row, row? = some row → row ∈ table.rows) (message : String) :
    Follows table world (do
      let (prevItr, prevPk) ← onIndex i call
      require (!prevItr.negative) message
      TableObject.settle i prevItr prevPk) (found row? message) := by
  obtain ⟨prevItr, primary, middle, ran, loads, missing, found⟩ := coherent.indexCall otherwise called
  refine .bind ran loads ?_
  cases row? with
  | none =>
    refine run_bind_error (run_require_error ?_)
    rw [missing rfl, negative]
    rfl
  | some row =>
    obtain ⟨rfl, stands⟩ := found row rfl
    have there : (!prevItr.negative) = true := by rw [stands.not_negative]; rfl
    exact .bind (run_require there) (.refl loads.coherent) (loads.coherent.settle (inside row rfl) stands)

theorem Coherent.indexDecrement_end (coherent : Coherent world table) :
    Follows table world (TableObject.indexDecrement i none) ((Path.index i).decrement table none) := by
  have ended : (onIndex i fun handled => .ok (dbEnd handled, handled) : Code schema labelling Iterator).run world =
      .ok (dbEnd (world.db.secondary i), _) := run_onIndex rfl
  have same := coherent.reindexed (i := i) rfl (.refl _)
  have place := dbEnd_image (coherent.entries i)
  refine .bind ended same ?_
  by_cases empty : table.rows = []
  · rw [if_pos empty] at place
    have none : table.indexPrevious (schema.extractSecondaryKey i) none = none :=
      Table.greatestWhere_eq_none.mpr fun row present => by rw [empty] at present; cases present
    rw [Path.decrement, Path.previous?, none]
    refine run_bind_error (run_require_error ?_)
    rw [place]
    rfl
  · rw [if_neg empty] at place
    refine .bind (run_require (by rw [place]; rfl)) (.refl same.coherent) ?_
    refine same.coherent.previousIndexCall .missing ?_ rfl (fun _ => Table.mem_of_greatestWhere) _
    rw [place, dbIdxPrevious, same.coherent.entries]
    exact congrArg (fun found => Except.ok (entryTo _ found .missing 0))
      (Table.indexPrevious_image (entry_secondary i) none)

theorem Coherent.indexDecrement_row (coherent : Coherent world table) (present : row ∈ table.rows)
    (points : PointsTo world itr (some row)) :
    Follows table world (TableObject.indexDecrement i itr) ((Path.index i).decrement table (some row)) := by
  obtain ⟨ptr, member, rfl, rfl, followed⟩ := coherent.dereference present points
  obtain ⟨idxitr, middle, ran, loads, _, stands⟩ := coherent.indexIterator (i := i) member
  refine .bind followed (.refl coherent) (.bind ran loads ?_)
  refine loads.coherent.previousIndexCall .missing ?_ rfl (fun _ => Table.mem_of_greatestWhere) _
  rw [dbIdxPrevious, stands.dereference (loads.coherent.entry_held present i), loads.coherent.entries]
  · exact congrArg (fun found => Except.ok (entryTo (middle.db.secondary i) found .missing 0))
      (Table.indexPrevious_image (entry_secondary i) (some _))
  · exact stands.ne_tableEnd

/-! Lookups that must succeed. -/

theorem Coherent.indexFind (coherent : Coherent world table) (secondary : schema.Secondary i) :
    Finds table world (TableObject.indexFind i secondary)
      (table.indexFind (schema.extractSecondaryKey i) secondary) := by
  obtain ⟨lb, middle, ran, loads, points⟩ := coherent.indexLowerBound secondary
  refine .bind ran loads ?_
  cases bound : table.indexLowerBound (schema.extractSecondaryKey i) secondary with
  | none =>
    rw [bound, PointsTo.end_iff] at points
    rw [Table.indexFind, bound, if_pos points]
    exact ⟨none, middle, rfl, .refl loads.coherent, rfl⟩
  | some row =>
    rw [bound] at points
    have present := Table.mem_of_leastWhere bound
    obtain ⟨ptr, member, rfl, rfl, followed⟩ := loads.coherent.dereference present points
    rw [Table.indexFind, bound, if_neg (Option.some_ne_none _)]
    refine .bind followed (.refl loads.coherent) ?_
    dsimp only
    split
    · rename_i apart
      rw [if_neg (Ne.symm apart)]
      exact ⟨none, middle, rfl, .refl loads.coherent, rfl⟩
    · rename_i same
      rw [if_pos (not_not.mp same).symm]
      exact ⟨_, middle, rfl, .refl loads.coherent, points⟩

theorem Coherent.requireFind (coherent : Coherent world table) (primary : UInt64) (errorMsg : String) :
    Follows table world (TableObject.requireFind primary errorMsg) (found (table.find? primary) errorMsg) := by
  obtain ⟨ptr?, searched, loaded⟩ := coherent.search primary
  refine .bind searched (.refl coherent) ?_
  cases ptr? with
  | some ptr =>
    obtain ⟨row, held, points⟩ := loaded ptr rfl
    rw [held]
    exact ⟨some ptr.address, world, rfl, .refl coherent, points⟩
  | none =>
    obtain ⟨itr, middle, ran, loads, missing, stands⟩ := coherent.primaryCall
      (fun handled => .ok (dbFind handled primary)) (congrArg Except.ok (coherent.dbFind_eq primary))
    refine .bind ran loads ?_
    cases held : table.find? primary with
    | none => exact run_bind_error (run_require_error (by rw [missing held]; rfl))
    | some row =>
      refine .bind (run_require (by rw [(stands row held).not_negative]; rfl)) (.refl loads.coherent) ?_
      rw [held] at stands missing
      exact loads.coherent.enter (fun row same => (Table.find?_eq_some.mp (held.trans same)).1) nofun stands

theorem Coherent.indexRequireFind (coherent : Coherent world table) (secondary : schema.Secondary i) (errorMsg : String) :
    Follows table world (TableObject.indexRequireFind i secondary errorMsg)
      (found (table.indexFind (schema.extractSecondaryKey i) secondary) errorMsg) := by
  obtain ⟨lb, middle, ran, loads, points⟩ := coherent.indexLowerBound secondary
  refine .bind ran loads ?_
  cases bound : table.indexLowerBound (schema.extractSecondaryKey i) secondary with
  | none =>
    rw [bound, PointsTo.end_iff] at points
    rw [Table.indexFind, bound, points]
    exact run_bind_error (run_require_error rfl)
  | some row =>
    rw [bound] at points
    have present := Table.mem_of_leastWhere bound
    obtain ⟨ptr, member, rfl, rfl, followed⟩ := loads.coherent.dereference present points
    rw [Table.indexFind, bound]
    refine .bind (run_require rfl) (.refl loads.coherent) (.bind followed (.refl loads.coherent) ?_)
    dsimp only
    split
    · rename_i same
      exact .bind (run_require (decide_eq_true same.symm)) (.refl loads.coherent)
        ⟨_, middle, rfl, .refl loads.coherent, points⟩
    · rename_i apart
      exact run_bind_error (run_require_error (decide_eq_false (Ne.symm apart)))

/-- The code returns a row, or stops like the table. -/
def Reads (table : Table schema.primaryKey) (world : World schema labelling)
    (code : Code schema labelling (ItemPtr schema)) : Except Fault schema.Row → Prop
  | .ok row => ∃ ptr after, code.run world = .ok (ptr, after) ∧ Loads table world after ∧ ptr.item.obj = row
  | .error fault => code.run world = .error fault

/-- What `get` does with what it has found. -/
theorem Finds.get {search : Code schema labelling Pointer} (finds : Finds table world search row?)
    (inside : ∀ row, row? = some row → row ∈ table.rows) (errorMsg : String) :
    Reads table world (do
      let result ← search
      require (result ≠ none) errorMsg
      dereference result) (row?.elim (fail errorMsg) .ok) := by
  obtain ⟨itr, middle, ran, loads, points⟩ := finds
  cases row? with
  | none =>
    rw [PointsTo.end_iff] at points
    exact (run_bind_ok ran).trans (run_bind_error (run_require_error (by rw [points]; rfl)))
  | some row =>
    obtain ⟨ptr, member, rfl, same, followed⟩ := loads.coherent.dereference (inside row rfl) points
    exact ⟨ptr, middle, (run_bind_ok ran).trans ((run_bind_ok (run_require rfl)).trans followed), loads, same⟩

theorem Coherent.get (coherent : Coherent world table) (primary : UInt64) (errorMsg : String) :
    Reads table world (TableObject.get primary errorMsg) ((table.find? primary).elim (fail errorMsg) .ok) :=
  (coherent.find primary).get (fun _ held => (Table.find?_eq_some.mp held).1) errorMsg

theorem Coherent.indexGet (coherent : Coherent world table) (secondary : schema.Secondary i) (errorMsg : String) :
    Reads table world (TableObject.indexGet i secondary errorMsg)
      ((table.indexFind (schema.extractSecondaryKey i) secondary).elim (fail errorMsg) .ok) :=
  (coherent.indexFind secondary).get (fun _ held => (Table.indexFind_eq_some.mp held).1) errorMsg

end LocalChain.Inery.TableObject
