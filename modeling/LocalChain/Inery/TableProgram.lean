import LocalChain.Inery.TableClient
import LocalChain.Refine.Program

/-! The part of an action that works on one table, as a program of calls and checks. -/
namespace LocalChain.Inery

open LocalChain.Store
open LocalChain.Refine
open TableObject (Represents)

variable {schema : Schema} {labelling : Labelling UInt64} {α β : Type}

abbrev TableProgram (schema : Schema) := Program (Command schema) Command.Output Abort

namespace TableProgram

def call (command : Command schema) : TableProgram schema command.Output := Program.ask command

/-- Run on a fresh object for a table of the contract itself. -/
def onObject (program : TableProgram schema α) (self : Name) (db : Db schema labelling) :
    Except Fault (α × Db schema labelling) :=
  Prod.map id (fun machine => machine.world.db) <$> (program.run Machine.step .abort).run (Machine.start db self self)

/-! The variables of the contract: the iterator that the source calls `itr`, and the one that `end()` returns. -/

def itr : Nat := 0

def theEnd : Nat := 1

/-- `itr != end()` -/
def notEnd (itr : Nat) : TableProgram schema Bool := do
  call (.finish theEnd)
  let same ← call (.equal itr theEnd)
  return !same

/-- `auto itr = begin()` -/
def begin : TableProgram schema Unit := call (.lowerBound itr (.primary 0))

/-- `auto itr = find(primary);` and whether it is not `end()` -/
def lookup (primary : UInt64) : TableProgram schema Bool := do
  call (.find itr (.primary primary))
  notEnd itr

/-- Create a row under a key that must be free. -/
def addRow (spot : Nat) (primary : UInt64) (taken : String) (fresh : schema.Row)
    (constructor : schema.Row → schema.Row) : TableProgram schema Unit := do
  let there ← lookup primary
  check (!there) taken
  call (.emplace spot fresh constructor)

/-- Write to a row that must be there. -/
def changeRow (primary : UInt64) (missing : String) (updater : schema.Row → schema.Row) :
    TableProgram schema Unit := do
  let there ← lookup primary
  check there missing
  call (.modify itr updater)

/-- Erase a row that must be there. -/
def removeRow (primary : UInt64) (missing : String) : TableProgram schema Unit := do
  let there ← lookup primary
  check there missing
  call (.erase itr .primary)

/-- Find a row that must be there, and write what becomes of it. -/
def editRow (primary : UInt64) (missing : String) (updater : schema.Row → Except Abort schema.Row) :
    TableProgram schema Unit := do
  let there ← lookup primary
  check there missing
  let row ← call (.read itr)
  let updated ← updater row
  call (.modify itr fun _ => updated)

/-- `while (itr != end()) itr = erase(itr);` -/
def eraseAll (fuel : Nat) : TableProgram schema Unit := do
  begin
  Program.loop .deadline (notEnd itr) (call (.erase itr .primary)) fuel

/-! What a program does to the table decides what it does to the host. -/

/-- The value that a run on a view returns, and the table it leaves. -/
def outcome (ran : Except Fault (α × View schema)) : Except Fault (α × Table schema.primaryKey) :=
  Prod.map id View.table <$> ran

theorem outcome_eq_ok {ran : Except Fault (α × View schema)} {value : α} {table : Table schema.primaryKey} :
    outcome ran = .ok (value, table) ↔ ∃ later, ran = .ok (value, later) ∧ later.table = table := by
  cases ran with
  | error fault => exact iff_of_false (fun failed => by cases failed) fun held => by cases held.choose_spec.1
  | ok result =>
    obtain ⟨answer, view⟩ := result
    constructor
    · intro same
      obtain ⟨rfl, rfl⟩ := Prod.mk.inj (Except.ok.inj same)
      exact ⟨view, rfl, rfl⟩
    · rintro ⟨later, same, rfl⟩
      obtain ⟨rfl, rfl⟩ := Prod.mk.inj (Except.ok.inj same)
      rfl

theorem outcome_eq_error {ran : Except Fault (α × View schema)} {fault : Fault} :
    outcome ran = .error fault ↔ ran = .error fault := by
  cases ran with
  | error other => exact ⟨fun same => congrArg Except.error (Except.error.inj same), fun same =>
      congrArg Except.error (Except.error.inj same)⟩
  | ok result => exact iff_of_false nofun nofun

/-- The run of a program on the table of the contract itself. -/
def onTable (program : TableProgram schema α) (table : Table schema.primaryKey) :
    Except Fault (α × Table schema.primaryKey) :=
  outcome ((program.run View.step .abort).run (View.start table true))

theorem onObject_matches {db : Db schema labelling} {table : Table schema.primaryKey} (represents : Represents db table)
    (program : TableProgram schema α) (self : Name) :
    Matches .undefined (fun table db => Represents db table) (program.onTable table) (program.onObject self db) := by
  have related := Related.start represents self self
  rw [decide_eq_true rfl] at related
  have matched : Matches .undefined Related ((program.run View.step .abort).run (View.start table true))
      ((program.run Machine.step .abort).run (Machine.start db self self)) :=
    program.refines step_refines _ _ related
  exact matched.project id fun _ _ held => held.coherent.toRepresents

/-! Runs on a view. -/

theorem run_call {command : Command schema} {answer : command.Output} {view later : View schema}
    {next : command.Output → TableProgram schema α} (answered : (View.step command).run view = .ok (answer, later)) :
    ((call command >>= next).run View.step .abort).run view = ((next answer).run View.step .abort).run later := by
  rw [Program.run_bind, call, Program.run_ask]
  exact run_bind_ok answered

theorem run_call_error {command : Command schema} {fault : Fault} {view : View schema}
    {next : command.Output → TableProgram schema α} (failed : (View.step command).run view = .error fault) :
    ((call command >>= next).run View.step .abort).run view = .error fault := by
  rw [Program.run_bind, call, Program.run_ask]
  exact run_bind_error failed

theorem run_outcome {checked : Except Abort β} {value : β} {view : View schema} {next : β → TableProgram schema α}
    (met : checked = .ok value) :
    ((liftM checked >>= next).run View.step .abort).run view = ((next value).run View.step .abort).run view :=
  congrArg (StateT.run · view) (Program.run_lift_ok met next)

theorem run_outcome_error {checked : Except Abort β} {reason : Abort} {view : View schema}
    {next : β → TableProgram schema α} (unmet : checked = .error reason) :
    ((liftM checked >>= next).run View.step .abort).run view = .error (.abort reason) :=
  congrArg (StateT.run · view) (Program.run_lift_error unmet next)

theorem own_kept {program : TableProgram schema α} {view later : View schema} {value : α}
    (ran : (program.run View.step .abort).run view = .ok (value, later)) : later.own = view.own := by
  have kept (command : Command schema) : Keeps (fun other => other.own = view.own) (View.step command) :=
    fun _ _ _ same stepped => (View.step_effect stepped).2.trans same
  obtain ⟨answer, middle, walked, ended⟩ := run_bind_eq_ok.mp ran
  have same : middle.own = view.own := Client.keeps kept _ view answer middle rfl walked
  cases answer with
  | error reason => cases ended
  | ok value =>
    obtain ⟨_, rfl⟩ := Prod.mk.inj (Except.ok.inj ended)
    exact same

/-- A variable is at a row of the table, or at `end()`. -/
structure At (view : View schema) (itr : Nat) (row? : Option schema.Row) : Prop where
  cursor : view.cursors itr = row?.elim .finish fun row => .row (schema.primaryKey row)
  inside : ∀ row, row? = some row → row ∈ view.table.rows

variable {view : View schema} {row? : Option schema.Row} {row : schema.Row} {spot : Nat}

theorem At.found (here : At view spot row?) : view.row? spot = .ok row? := by
  rw [View.row?, here.cursor]
  cases row? with
  | none => rfl
  | some row => exact congrArg Except.ok (Table.find?_self (here.inside row rfl))

theorem At.place (inside : ∀ row, row? = some row → row ∈ view.table.rows) :
    At (view.place spot row?) spot row? where
  cursor := Function.update_self ..
  inside := inside

theorem At.elsewhere {other : Nat} {other? : Option schema.Row} (here : At view spot row?) (apart : spot ≠ other) :
    At (view.place other other?) spot row? where
  cursor := (Function.update_of_ne apart ..).trans here.cursor
  inside := here.inside

/-- The variable has not moved, and its row is still there. -/
theorem At.carry {later : View schema} (here : At view spot row?) (cursor : later.cursors spot = view.cursors spot)
    (inside : ∀ row, row? = some row → row ∈ later.table.rows) : At later spot row? :=
  ⟨cursor.trans here.cursor, inside⟩

theorem run_notEnd (here : At view spot row?) (apart : spot ≠ theEnd) :
    ((notEnd spot).run View.step .abort).run view = .ok (row?.isSome, view.place theEnd none) := by
  have at_spot : (view.place theEnd none).row? spot = .ok row? := (here.elsewhere apart).found
  have at_end : (view.place theEnd none).row? theEnd = .ok none := rfl
  have compared : (View.step (.equal spot theEnd)).run (view.place theEnd none) =
      .ok (decide ((view.place theEnd none).cursors spot = .finish), view.place theEnd none) := by
    change ((view.place theEnd none).row? spot >>= fun _ => (view.place theEnd none).row? theEnd >>= fun _ => _) = _
    rw [at_spot, at_end]
    rfl
  have finished : (View.step (.finish theEnd)).run view = .ok ((), view.place theEnd none) := rfl
  rw [notEnd, run_call finished, run_call compared, (here.elsewhere apart).cursor]
  cases row? with
  | none => rfl
  | some row => rfl

theorem run_begin : (begin.run View.step .abort).run view = .ok ((), view.place itr (view.table.lowerBound 0)) := by
  rw [begin, call, Program.run_ask]
  rfl

theorem run_find (primary : UInt64) :
    (View.step (.find spot (.primary primary))).run view = .ok ((), view.place spot (view.table.find? primary)) := rfl

theorem run_get {primary : UInt64} {errorMsg : String} (held : view.table.find? primary = some row) :
    (View.step (.get (.primary primary) errorMsg)).run view = .ok (row, view) := by
  change (view.table.find? primary).elim (fail errorMsg) .ok >>= _ = _
  rw [held]
  rfl

theorem run_get_missing {primary : UInt64} {errorMsg : String} (absent : view.table.find? primary = none) :
    (View.step (.get (.primary primary) errorMsg)).run view = fail errorMsg := by
  change (view.table.find? primary).elim (fail errorMsg) .ok >>= _ = _
  rw [absent]
  rfl

theorem run_available {key : UInt64} (granted : MultiIndex.availablePrimaryKey view.next view.table = .ok key) :
    (View.step .availablePrimaryKey).run view = .ok (key, { view with next := key }) := by
  change (View.lift (MultiIndex.availablePrimaryKey view.next view.table) >>= _) = _
  rw [granted]
  rfl

theorem run_available_error {reason : Abort}
    (refused : MultiIndex.availablePrimaryKey view.next view.table = .error reason) :
    (View.step .availablePrimaryKey).run view = .error (.abort reason) := by
  change (View.lift (MultiIndex.availablePrimaryKey view.next view.table) >>= _) = _
  rw [refused]
  rfl

theorem At.read (here : At view spot (some row)) : (View.step (.read spot)).run view = .ok (row, view) := by
  change (view.row? spot >>= fun at? => _) = _
  rw [here.found]
  rfl

theorem At.increment (here : At view spot (some row)) (path : Path schema) :
    (View.step (.increment spot path)).run view = .ok ((), view.place spot (path.next? view.table row)) := by
  change (view.row? spot >>= _) = _
  rw [here.found]
  rfl

theorem At.decrement {path : Path schema} (here : At view spot row?) (before : path.previous? view.table row? = some row) :
    (View.step (.decrement spot path)).run view = .ok ((), view.place spot (some row)) := by
  change (view.row? spot >>= fun at? => path.decrement view.table at? >>= _) = _
  rw [here.found]
  change (path.decrement view.table row? >>= _) = _
  rw [Path.decrement, before]
  rfl

theorem At.equal {other : Nat} {other? : Option schema.Row} (here : At view spot row?) (there : At view other other?) :
    (View.step (.equal spot other)).run view = .ok (decide (view.cursors spot = view.cursors other), view) := by
  change (view.row? spot >>= fun _ => view.row? other >>= fun _ => _) = _
  rw [here.found, there.found]
  rfl

theorem At.same_iff {other : Nat} {other? : Option schema.Row} (here : At view spot row?) (there : At view other other?) :
    view.cursors spot = view.cursors other ↔ row? = other? := by
  rw [here.cursor, there.cursor]
  cases row? with
  | none =>
    cases other? with
    | none => exact iff_of_true rfl rfl
    | some second => exact iff_of_false Cursor.noConfusion (Option.some_ne_none second).symm
  | some first =>
    cases other? with
    | none => exact iff_of_false Cursor.noConfusion (Option.some_ne_none first)
    | some second =>
      refine ⟨fun same => ?_, fun same => by rw [same]⟩
      exact congrArg some (view.table.key_injective (here.inside first rfl) (there.inside second rfl) (Cursor.row.inj same))

theorem run_assign (spot other : Nat) : (View.step (.assign spot other)).run view = .ok ((), view.copy spot other) := rfl

theorem At.copy {other : Nat} (there : At view other row?) : At (view.copy spot other) spot row? where
  cursor := by
    rw [← there.cursor]
    exact Function.update_self ..
  inside := there.inside

theorem At.besideCopy {target other : Nat} (here : At view spot row?) (apart : spot ≠ target) :
    At (view.copy target other) spot row? :=
  here.carry (Function.update_of_ne apart ..) here.inside

theorem At.modify (here : At view spot (some row)) (own : view.own = true) {updater : schema.Row → schema.Row}
    (same : schema.primaryKey row = schema.primaryKey (updater row)) (short : packSize (updater row) < 2 ^ 31) :
    (View.step (.modify spot updater)).run view = .ok ((), view.rewrite row updater) := by
  have held : (view.table.find? (schema.primaryKey (updater row))).isSome := by
    rw [← same, Table.find?_self (here.inside row rfl)]
    rfl
  change (view.row? spot >>= _) = _
  rw [here.found]
  change (view.owned _ >>= fun _ => View.lift (MultiIndex.modify view.table (some row) updater) >>= fun table =>
    View.packed (updater row) >>= fun _ => _) = _
  rw [View.owned, if_pos own, MultiIndex.modify_some.mpr ⟨same, held, rfl⟩, View.packed, if_pos short]
  rfl

theorem At.modify_moved (here : At view spot (some row)) (own : view.own = true) {updater : schema.Row → schema.Row}
    (moved : schema.primaryKey row ≠ schema.primaryKey (updater row)) :
    (View.step (.modify spot updater)).run view = fail "updater cannot change primary key when modifying an object" := by
  change (view.row? spot >>= _) = _
  rw [here.found]
  change (view.owned _ >>= fun _ => View.lift (MultiIndex.modify view.table (some row) updater) >>= fun table =>
    View.packed (updater row) >>= fun _ => _) = _
  rw [View.owned, if_pos own, MultiIndex.modify_moved moved]
  rfl

theorem At.erase {path : Path schema} (here : At view spot (some row)) (own : view.own = true) :
    (View.step (.erase spot path)).run view = .ok ((), View.place
      { view with
        table := view.table.erase (schema.primaryKey row)
        cursors := View.bury view.cursors (schema.primaryKey row) }
      spot (path.next? view.table row)) := by
  change (view.row? spot >>= _) = _
  rw [here.found]
  change (view.remove row >>= _) = _
  rw [View.remove_own own (here.inside row rfl)]
  rfl

theorem run_store (own : view.own = true) {fresh : schema.Row} {constructor : schema.Row → schema.Row}
    (short : packSize (constructor fresh) < 2 ^ 31) :
    (View.step (.emplace spot fresh constructor)).run view =
      (View.lift (MultiIndex.emplace view.table fresh constructor) >>= fun table => .ok ((), View.place
        { view with table, next := View.pass view.next (schema.primaryKey (constructor fresh)) } spot
        (some (constructor fresh)))) := by
  change (view.owned _ >>= fun _ => View.packed (constructor fresh) >>= fun _ => _) = _
  rw [View.owned, if_pos own, View.packed, if_pos short]
  rfl

/-- A row that is not there is created, if it can be packed. -/
theorem run_emplace (own : view.own = true) {fresh : schema.Row} {constructor : schema.Row → schema.Row}
    (absent : view.table.find? (schema.primaryKey (constructor fresh)) = none)
    (short : packSize (constructor fresh) < 2 ^ 31) :
    (View.step (.emplace spot fresh constructor)).run view = .ok ((), View.place
      { view with
        table := view.table.put (constructor fresh)
        next := View.pass view.next (schema.primaryKey (constructor fresh)) }
      spot (some (constructor fresh))) := by
  rw [run_store own short, MultiIndex.emplace_eq_ok.mpr ⟨absent, rfl⟩]
  rfl

/-- The view once a row was looked for. -/
def found (view : View schema) (primary : UInt64) : View schema :=
  (view.place itr (view.table.find? primary)).place theEnd none

theorem At.looked (view : View schema) (primary : UInt64) :
    At (TableProgram.found view primary) itr (view.table.find? primary) :=
  At.elsewhere (At.place fun _ held => (Table.find?_eq_some.mp held).1) (by decide)

theorem run_lookup (primary : UInt64) : ((lookup primary).run View.step .abort).run view =
    .ok ((view.table.find? primary).isSome, found view primary) := by
  rw [lookup, run_call (run_find primary)]
  exact run_notEnd (At.place fun _ held => (Table.find?_eq_some.mp held).1) (by decide)

theorem run_lookup_bind (primary : UInt64) {next : Bool → TableProgram schema α} :
    ((lookup primary >>= next).run View.step .abort).run view =
      ((next (view.table.find? primary).isSome).run View.step .abort).run (found view primary) := by
  rw [Program.run_bind, run_bind_ok (run_lookup primary)]

theorem check_met (message : String) : check true message = .ok () := rfl

theorem check_unmet (message : String) : check false message = .error (.check message) := rfl

section Rows

variable {primary : UInt64} {taken missing : String} {fresh : schema.Row} {constructor updater : schema.Row → schema.Row}

theorem addRow_taken (held : (view.table.find? primary).isSome) :
    ((addRow spot primary taken fresh constructor).run View.step .abort).run view = fail taken := by
  rw [addRow, run_lookup_bind, held]
  exact run_outcome_error (check_unmet _)

theorem addRow_outcome (own : view.own = true) (absent : view.table.find? primary = none)
    (keyed : schema.primaryKey (constructor fresh) = primary) (short : packSize (constructor fresh) < 2 ^ 31) :
    outcome (((addRow spot primary taken fresh constructor).run View.step .abort).run view) =
      .ok ((), view.table.put (constructor fresh)) := by
  have free : (found view primary).table.find? (schema.primaryKey (constructor fresh)) = none := by
    rw [keyed]
    exact absent
  have owned : (found view primary).own = true := own
  have created : (View.step (.emplace spot fresh constructor)).run (found view primary) = _ := run_emplace owned free short
  rw [addRow, run_lookup_bind, absent, Option.isSome_none, Bool.not_false, run_outcome (check_met _), call,
    Program.run_ask, created]
  rfl

theorem changeRow_missing (absent : view.table.find? primary = none) :
    ((changeRow primary missing updater).run View.step .abort).run view = fail missing := by
  rw [changeRow, run_lookup_bind, absent]
  exact run_outcome_error (check_unmet missing)

theorem changeRow_outcome (own : view.own = true) (held : view.table.find? primary = some row)
    (same : schema.primaryKey row = schema.primaryKey (updater row)) (short : packSize (updater row) < 2 ^ 31) :
    outcome (((changeRow primary missing updater).run View.step .abort).run view) =
      .ok ((), view.table.put (updater row)) := by
  have here := At.looked view primary
  rw [held] at here
  have written : (View.step (.modify itr updater)).run (found view primary) = _ := here.modify own same short
  rw [changeRow, run_lookup_bind, held, Option.isSome_some, run_outcome (check_met missing), call, Program.run_ask,
    written]
  rfl

theorem removeRow_missing (absent : view.table.find? primary = none) :
    (((removeRow primary missing : TableProgram schema Unit)).run View.step .abort).run view = fail missing := by
  rw [removeRow, run_lookup_bind, absent]
  exact run_outcome_error (check_unmet missing)

theorem removeRow_outcome (own : view.own = true) (held : view.table.find? primary = some row) :
    outcome (((removeRow primary missing : TableProgram schema Unit).run View.step .abort).run view) =
      .ok ((), view.table.erase primary) := by
  have here := At.looked view primary
  rw [held] at here
  have erased : (View.step (.erase itr .primary)).run (found view primary) = _ := here.erase own
  rw [removeRow, run_lookup_bind, held, Option.isSome_some, run_outcome (check_met missing), call, Program.run_ask,
    erased, Table.key_of_find? held]
  rfl

/-! The same on a table. -/

theorem addRow_onTable {table : Table schema.primaryKey} (keyed : schema.primaryKey (constructor fresh) = primary)
    (short : table.find? primary = none → packSize (constructor fresh) < 2 ^ 31) :
    (addRow spot primary taken fresh constructor).onTable table = Prod.mk () <$> View.lift (do
      check (table.find? primary).isNone taken
      MultiIndex.emplace table fresh constructor) := by
  rw [onTable]
  cases held : table.find? primary with
  | some row =>
    have there : ((View.start table true).table.find? primary).isSome := Option.isSome_of_eq_some held
    rw [addRow_taken there]
    rfl
  | none =>
    have free : table.find? (schema.primaryKey (constructor fresh)) = none := by rw [keyed, held]
    rw [addRow_outcome rfl held keyed (short held), MultiIndex.emplace_eq_ok.mpr ⟨free, rfl⟩]
    rfl

theorem changeRow_onTable {table : Table schema.primaryKey}
    (same : ∀ row, schema.primaryKey row = schema.primaryKey (updater row))
    (short : ∀ row, table.find? primary = some row → packSize (updater row) < 2 ^ 31) :
    (changeRow primary missing updater).onTable table = Prod.mk () <$> View.lift (do
      check (table.find? primary).isSome missing
      MultiIndex.modify table (table.find? primary) updater) := by
  rw [onTable]
  cases held : table.find? primary with
  | none =>
    rw [changeRow_missing held]
    rfl
  | some row =>
    have there : (table.find? (schema.primaryKey (updater row))).isSome := by
      rw [← same row, Table.key_of_find? held, held]
      rfl
    rw [changeRow_outcome rfl held (same row) (short row held), MultiIndex.modify_some.mpr ⟨same row, there, rfl⟩]
    rfl

theorem removeRow_onTable (table : Table schema.primaryKey) :
    (removeRow primary missing).onTable table = (fun removed => ((), removed.2)) <$> View.lift (do
      check (table.find? primary).isSome missing
      MultiIndex.erase table (table.find? primary)) := by
  rw [onTable]
  cases held : table.find? primary with
  | none =>
    rw [removeRow_missing held]
    rfl
  | some row =>
    have there : (table.find? (schema.primaryKey row)).isSome := by
      rw [Table.key_of_find? held, held]
      rfl
    rw [removeRow_outcome rfl held, MultiIndex.erase_some.mpr ⟨there, rfl⟩, Table.key_of_find? held]
    rfl

end Rows

section EditRow

variable {primary : UInt64} {missing : String} {updater : schema.Row → Except Abort schema.Row} {updated : schema.Row}

theorem editRow_missing (absent : view.table.find? primary = none) :
    ((editRow primary missing updater).run View.step .abort).run view = fail missing := by
  rw [editRow, run_lookup_bind, absent]
  exact run_outcome_error (check_unmet missing)

/-- The row is found and read. -/
theorem run_editRow (held : view.table.find? primary = some row) :
    ((editRow primary missing updater).run View.step .abort).run view =
      (((liftM (updater row) : TableProgram schema schema.Row) >>= fun updated =>
        call (.modify itr fun _ => updated)).run View.step .abort).run (found view primary) := by
  have here := At.looked view primary
  rw [held] at here
  rw [editRow, run_lookup_bind, held, Option.isSome_some, run_outcome (check_met missing), run_call here.read]

theorem editRow_refused {reason : Abort} (held : view.table.find? primary = some row)
    (refused : updater row = .error reason) :
    ((editRow primary missing updater).run View.step .abort).run view = .error (.abort reason) := by
  rw [run_editRow held, run_outcome_error refused]

theorem editRow_moved (own : view.own = true) (held : view.table.find? primary = some row)
    (edited : updater row = .ok updated) (moved : schema.primaryKey row ≠ schema.primaryKey updated) :
    ((editRow primary missing updater).run View.step .abort).run view =
      fail "updater cannot change primary key when modifying an object" := by
  have here := At.looked view primary
  rw [held] at here
  rw [run_editRow held, run_outcome edited, call, Program.run_ask]
  exact here.modify_moved own moved

theorem editRow_outcome (own : view.own = true) (held : view.table.find? primary = some row)
    (edited : updater row = .ok updated) (same : schema.primaryKey row = schema.primaryKey updated)
    (short : packSize updated < 2 ^ 31) :
    outcome (((editRow primary missing updater).run View.step .abort).run view) = .ok ((), view.table.put updated) := by
  have here := At.looked view primary
  rw [held] at here
  have written : (View.step (.modify itr fun _ => updated)).run (found view primary) = _ := here.modify own same short
  rw [run_editRow held, run_outcome edited, call, Program.run_ask, written]
  rfl

theorem editRow_onTable {table : Table schema.primaryKey}
    (short : ∀ row updated, table.find? primary = some row → updater row = .ok updated →
      schema.primaryKey row = schema.primaryKey updated → packSize updated < 2 ^ 31) :
    (editRow primary missing updater).onTable table = Prod.mk () <$> View.lift (
      (table.find? primary).elim (throw (.check missing)) fun row => do
        let updated ← updater row
        MultiIndex.modify table (some row) fun _ => updated) := by
  rw [onTable]
  cases held : table.find? primary with
  | none =>
    rw [editRow_missing held]
    rfl
  | some row =>
    change _ = Prod.mk () <$> View.lift (updater row >>= fun updated => MultiIndex.modify table (some row) fun _ => updated)
    cases edited : updater row with
    | error reason =>
      rw [editRow_refused held edited]
      rfl
    | ok updated =>
      change _ = Prod.mk () <$> View.lift (MultiIndex.modify table (some row) fun _ => updated)
      by_cases same : schema.primaryKey row = schema.primaryKey updated
      · have there : (table.find? (schema.primaryKey updated)).isSome := by
          rw [← same, Table.key_of_find? held, held]
          rfl
        rw [editRow_outcome rfl held edited same (short row updated held edited same),
          MultiIndex.modify_some.mpr ⟨same, there, rfl⟩]
        rfl
      · rw [editRow_moved rfl held edited same, MultiIndex.modify_moved same]
        rfl

end EditRow

/-- The rows go one by one, as they go from the table. -/
theorem eraseLoop_outcome (fuel : Nat) (here : At view itr row?) (own : view.own = true) :
    outcome (((Program.loop .deadline (notEnd itr) (call (.erase itr .primary)) fuel).run View.step .abort).run view) =
      Prod.mk () <$> View.lift (MultiIndex.eraseLoop fuel row? view.table) := by
  induction fuel generalizing view row? with
  | zero =>
    cases row? with
    | none => rw [Program.run_loop_stop (run_notEnd here (by decide))]; rfl
    | some row => rw [Program.run_loop_deadline (run_notEnd here (by decide))]; rfl
  | succ fuel ih =>
    cases row? with
    | none => rw [Program.run_loop_stop (run_notEnd here (by decide))]; rfl
    | some row =>
      have present := here.inside row rfl
      have held : (view.table.find? (schema.primaryKey row)).isSome := by rw [Table.find?_self present]; rfl
      have asked : At (view.place theEnd none) itr (some row) := here.elsewhere (by decide)
      rw [Program.run_loop_round (run_notEnd here (by decide)), call, Program.run_ask, run_bind_ok (asked.erase own),
        MultiIndex.eraseLoop, MultiIndex.erase_some.mpr ⟨held, rfl⟩]
      refine ih (At.place fun next follows => ?_) own
      exact Table.mem_erase.mpr ⟨Table.mem_of_next? follows, (Table.lt_of_next? follows).ne'⟩

theorem lowerBound_zero {ρ : Type} {key : ρ → UInt64} (table : Table key) : table.lowerBound 0 = table.first? := by
  obtain ⟨rows, _⟩ := table
  cases rows with
  | nil => rfl
  | cons row rows => exact List.find?_cons_of_pos (decide_eq_true (UInt64.le_iff_toNat_le.mpr (Nat.zero_le _)))

theorem eraseAll_onTable (table : Table schema.primaryKey) :
    (eraseAll table.rows.length : TableProgram schema Unit).onTable table = .ok ((), .empty) := by
  rw [onTable, eraseAll, Program.run_bind, run_bind_ok run_begin]
  refine (eraseLoop_outcome _ (At.place fun row => Table.mem_of_lowerBound) rfl).trans ?_
  have erased : MultiIndex.eraseLoop table.rows.length table.first? table = .ok .empty := MultiIndex.eraseAll_eq_ok table
  change Prod.mk () <$> View.lift (MultiIndex.eraseLoop table.rows.length (table.lowerBound 0) table) = _
  rw [lowerBound_zero, erased]
  rfl

end TableProgram

end LocalChain.Inery
