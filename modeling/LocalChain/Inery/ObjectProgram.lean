import LocalChain.Inery.Objects

/-! An action as a program on several objects. -/
namespace LocalChain.Inery

open LocalChain.Store LocalChain.Refine
open TableObject (Represents)

variable {ι : Type} [DecidableEq ι] {schema : ι → Schema} {labelling : Labelling UInt64} {α β : Type}

/-- An action also stops when one of its checks fails. -/
abbrev ObjectProgram (schema : ι → Schema) := Program (ObjectCall schema) ObjectCall.Output Abort

namespace ObjectProgram

/-- A program on one object. -/
def on (table : ι) (object : Nat) (program : TableProgram (schema table) α) : ObjectProgram schema α :=
  Program.embed (fun command => ⟨table, object, command⟩) program

def onObjects (program : ObjectProgram schema α) (self : Name) (tables : (table : ι) → Db (schema table) labelling) :
    Except Fault (α × ((table : ι) → Db (schema table) labelling)) :=
  Prod.map id Objects.tables <$> (program.run Objects.step .abort).run (Objects.start tables self)

def onTables (program : ObjectProgram schema α) (tables : (table : ι) → Table (schema table).primaryKey) :
    Except Fault (α × ((table : ι) → Table (schema table).primaryKey)) :=
  Prod.map id Views.tables <$> (program.run Views.step .abort).run (Views.start tables)

/-- The host has the tables. -/
def Hosts (tables : (table : ι) → Table (schema table).primaryKey) (dbs : (table : ι) → Db (schema table) labelling) :
    Prop :=
  ∀ table, Represents (dbs table) (tables table)

variable {tables : (table : ι) → Table (schema table).primaryKey} {dbs : (table : ι) → Db (schema table) labelling}

theorem onObjects_matches (hosts : Hosts tables dbs) (program : ObjectProgram schema α) (self : Name) :
    Matches .undefined Hosts (program.onTables tables) (program.onObjects self dbs) :=
  (program.refines Views.step_refines _ _ (Attends.start hosts self)).project id fun _ _ attends => attends.represents

theorem onTables_map (program : ObjectProgram schema α) (answer : α → β) :
    (program >>= fun value => pure (answer value)).onTables tables = Prod.map answer id <$> program.onTables tables := by
  rw [onTables, onTables, Program.run_bind]
  change Prod.map id _ <$> ((program.run Views.step .abort).run (Views.start tables) >>= _) = _
  cases (program.run Views.step .abort).run (Views.start tables) <;> rfl

/-! A program on one object. -/

section One

variable {views : Views schema} {table : ι} {object : Nat} {program : TableProgram (schema table) α} {value : α}
  {later : View (schema table)}

/-- The object alone has worked, and has written only if it may. -/
def Worked (views : Views schema) (table : ι) (object : Nat) (may : Bool) (later : View (schema table))
    (after : Views schema) : Prop :=
  later.own = true ∧ ∃ writes, (writes = true → may = true) ∧ after = views.settle table object writes later

theorem step_worked {may : Bool} (command : Command (schema table)) (allowed : command.writes = true → may = true) :
    Refines .undefined (Worked views table object may) (View.step command) (Views.step ⟨table, object, command⟩) := by
  intro later after worked
  obtain ⟨own, writes, known, rfl⟩ := worked
  have stepped : (Views.step ⟨table, object, command⟩).run (views.settle table object writes later) =
      Prod.map id (views.settle table object (writes || command.writes)) <$> (View.step command).run later := by
    rw [Views.step_current Views.stale_settle, Views.view_settle own, funext (Views.settle_settle later command.writes)]
  rw [stepped]
  cases ran : (View.step command).run later with
  | error fault => exact .fails fault
  | ok result =>
    refine .answers result.1 ⟨(View.step_effect ran).2.trans own, writes || command.writes, fun either => ?_, rfl⟩
    exact (Bool.or_eq_true_iff.mp either).elim known allowed

theorem on_matches {may : Bool} (only : program.Only fun command => command.writes = true → may = true)
    (current : views.stale table object = false) :
    Matches .undefined (Worked views table object may) ((program.run View.step .abort).run (views.view table object))
      (((on table object program).run Views.step .abort).run views) := by
  have start : Worked views table object may (views.view table object) views :=
    ⟨rfl, false, nofun, (Views.settle_view current).symm⟩
  let into (command : Command (schema table)) : ObjectCall schema := ⟨table, object, command⟩
  exact Program.embed_refines into View.step Views.step only step_worked _ _ start

theorem run_on_ok (current : views.stale table object = false)
    (ran : (program.run View.step .abort).run (views.view table object) = .ok (value, later)) :
    ∃ writes, ((on table object program).run Views.step .abort).run views =
      .ok (value, views.settle table object writes later) := by
  have matched := on_matches (Program.Only.all (fun _ _ => rfl) program) current
  rw [ran] at matched
  obtain ⟨_, ended, _, writes, _, rfl⟩ := matched.of_ok
  exact ⟨writes, ended⟩

/-- The other objects for the table miss nothing then. -/
theorem run_read_ok (only : program.Only fun command => command.writes = true → false = true)
    (current : views.stale table object = false)
    (ran : (program.run View.step .abort).run (views.view table object) = .ok (value, later)) :
    ((on table object program).run Views.step .abort).run views = .ok (value, views.settle table object false later) := by
  have matched := on_matches only current
  rw [ran] at matched
  obtain ⟨_, ended, _, writes, known, rfl⟩ := matched.of_ok
  rw [ended, Bool.eq_false_iff.mpr fun wrote => Bool.false_ne_true (known wrote)]

theorem run_on_error {reason : Abort} (current : views.stale table object = false)
    (failed : (program.run View.step .abort).run (views.view table object) = .error (.abort reason)) :
    ((on table object program).run Views.step .abort).run views = .error (.abort reason) := by
  have matched := on_matches (Program.Only.all (fun _ _ => rfl) program) current
  rw [failed] at matched
  exact matched.of_error Fault.noConfusion

theorem run_on_call (command : Command (schema table)) :
    ((on table object (TableProgram.call command)).run Views.step .abort).run views =
      (Views.step ⟨table, object, command⟩).run views := by
  let asked : ObjectCall schema := ⟨table, object, command⟩
  have same : on table object (TableProgram.call command) = Program.ask asked := rfl
  rw [same, Program.run_ask]

theorem onTables_on {result : Except Abort (α × Table (schema table).primaryKey)}
    (ended : program.onTable (tables table) = View.lift result) :
    (on table object program).onTables tables = View.lift (Prod.map id (Function.update tables table) <$> result) := by
  cases result with
  | error reason =>
    have failed : (program.run View.step .abort).run (View.start (tables table) true) = .error (.abort reason) :=
      TableProgram.outcome_eq_error.mp ended
    have stopped : ((on table object program).run Views.step .abort).run (Views.start tables) = _ :=
      run_on_error rfl failed
    rw [onTables, stopped]
    rfl
  | ok outcome =>
    obtain ⟨later, ran, same⟩ := TableProgram.outcome_eq_ok.mp ended
    have finished : ∃ writes, ((on table object program).run Views.step .abort).run (Views.start tables) = _ :=
      run_on_ok rfl ran
    obtain ⟨writes, finished⟩ := finished
    rw [onTables, finished]
    exact congrArg (fun rows => Except.ok (outcome.1, Function.update tables table rows)) same

end One

/-! The objects of an action. -/

/-- Every object has its table as it is. -/
structure Fresh (views : Views schema) (tables : (table : ι) → Table (schema table).primaryKey) : Prop where
  tables : views.tables = tables
  current : ∀ table object, views.stale table object = false

/-- One object for each table has it as it is. -/
structure Ready (chosen : ι → Nat) (views : Views schema) (tables : (table : ι) → Table (schema table).primaryKey) :
    Prop where
  tables : views.tables = tables
  current : ∀ table, views.stale table (chosen table) = false

section Objects

variable {views : Views schema} {chosen : ι → Nat} {table : ι} {object : Nat} {writes : Bool}
  {later : View (schema table)}

omit [DecidableEq ι] in
theorem Fresh.start (tables : (table : ι) → Table (schema table).primaryKey) : Fresh (Views.start tables) tables :=
  ⟨rfl, fun _ _ => rfl⟩

omit [DecidableEq ι] in
theorem Fresh.ready (fresh : Fresh views tables) (chosen : ι → Nat) : Ready chosen views tables :=
  ⟨fresh.tables, fun table => fresh.current table (chosen table)⟩

theorem Fresh.read (fresh : Fresh views tables) (same : later.table = tables table) :
    Fresh (views.settle table object false later) tables where
  tables := by
    have updated : (views.settle table object false later).tables = Function.update views.tables table later.table := rfl
    rw [updated, same, fresh.tables, Function.update_eq_self]
  current other place := by
    obtain rfl | apart := eq_or_ne other table
    · obtain rfl | beside := eq_or_ne place object
      · exact Views.stale_settle
      · rw [Views.stale_settle_beside beside, fresh.current, Bool.false_or]
    · rw [Views.stale_settle_apart apart, fresh.current]

theorem Ready.put (ready : Ready chosen views tables) (picked : object = chosen table) :
    Ready chosen (views.settle table object writes later) (Function.update tables table later.table) where
  tables := by
    rw [← ready.tables]
    rfl
  current other := by
    obtain rfl | apart := eq_or_ne other table
    · rw [← picked, Views.stale_settle]
    · rw [Views.stale_settle_apart apart, ready.current]

end Objects

end ObjectProgram

end LocalChain.Inery
