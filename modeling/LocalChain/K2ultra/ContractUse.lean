import LocalChain.K2ultra.ContractHosted

/-! Actions that use several objects, one after the other. -/
namespace LocalChain.K2ultra

open LocalChain.Inery LocalChain.Inery.MultiIndex LocalChain.Store LocalChain.Refine
open ObjectProgram (Fresh Ready)
open ContractProgram (first second onProfiles onRequests)

variable {context : Context} {state next : State} {owner contact : Name} {missing : String} {α β : Type}

theorem State.table_read (state : State) {name : TableName} {later : View name.schema}
    (same : later.table = state.table name) : state.table = Function.update state.table name later.table := by
  rw [same, Function.update_eq_self]

theorem State.setRequests_beside (apart : owner ≠ contact) (requests : RequestsTable) :
    (state.setRequests owner.value requests).requests contact.value = state.requests contact.value :=
  Function.update_of_ne (fun same => apart (Name.value_inj.mp same).symm) ..

theorem requests_apart (apart : owner ≠ contact) : TableName.requests contact.value ≠ .requests owner.value :=
  fun same => apart (Name.value_inj.mp (TableName.requests.inj same)).symm

/-- The program does so with objects that have been in use. -/
def PerformsOn (views : Views TableName.schema) (program : ContractProgram α)
    (outcome : Except Abort (α × State)) : Prop :=
  Prod.map id Views.tables <$> (program.run Views.step .abort).run views =
    View.lift (Prod.map id State.table <$> outcome)

variable {chosen : TableName → Nat} {views : Views TableName.schema} {name : TableName} {object : Nat} {value : α}
  {reason : Abort} {later : View name.schema} {program : TableProgram name.schema α} {following : α → ContractProgram β}
  {result : Except Abort (β × State)}

theorem Performs.ofStart {program : ContractProgram α} {outcome : Except Abort (α × State)}
    (performs : PerformsOn (Views.start state.table) program outcome) : Performs state program outcome := performs

theorem PerformsOn.stops (current : views.stale name object = false)
    (failed : (program.run View.step .abort).run (views.view name object) = .error (.abort reason)) :
    PerformsOn views (ObjectProgram.on name object program >>= following) (.error reason) := by
  rw [PerformsOn, Program.run_bind, run_bind_error (ObjectProgram.run_on_error current failed)]
  rfl

theorem PerformsOn.fails (current : views.stale name object = false)
    (failed : (program.run View.step .abort).run (views.view name object) = .error (.abort reason)) :
    PerformsOn views (ObjectProgram.on name object program) (.error reason) := by
  rw [PerformsOn, ObjectProgram.run_on_error current failed]
  rfl

/-- The action reads or writes a table last. -/
theorem PerformsOn.ends (current : views.stale name object = false)
    (ran : (program.run View.step .abort).run (views.view name object) = .ok (value, later))
    (left : next.table = Function.update views.tables name later.table) :
    PerformsOn views (ObjectProgram.on name object program) (.ok (value, next)) := by
  obtain ⟨writes, ended⟩ := ObjectProgram.run_on_ok current ran
  rw [PerformsOn, ended]
  exact congrArg (fun tables => Except.ok (value, tables)) left.symm

/-- The program reads or writes a table. The other tables are as they were. -/
theorem run_ready (picked : object = chosen name) (ready : Ready chosen views state.table)
    (ran : (program.run View.step .abort).run (views.view name object) = .ok (value, later))
    (left : next.table = Function.update state.table name later.table) :
    ∃ after, ((ObjectProgram.on name object program).run Views.step .abort).run views = .ok (value, after) ∧
      Ready chosen after next.table ∧ after.view name object = later ∧
      ∀ other, other ≠ name → ∀ place, after.view other place = views.view other place := by
  obtain ⟨writes, ended⟩ := ObjectProgram.run_on_ok (picked ▸ ready.current name) ran
  have own : later.own = true := TableProgram.own_kept ran
  exact ⟨_, ended, left ▸ ready.put picked, Views.view_settle own, fun other apart place =>
    Views.view_settle_apart apart place⟩

theorem run_onRequests {program : TableProgram requestsSchema α} {later : View requestsSchema}
    (picked : object = chosen (.requests owner.value)) (ready : Ready chosen views state.table)
    (ran : (program.run View.step .abort).run (views.view (.requests owner.value) object) = .ok (value, later))
    (left : next.table = Function.update state.table (.requests owner.value) later.table) :
    ∃ after, ((onRequests object owner program).run Views.step .abort).run views = .ok (value, after) ∧
      Ready chosen after next.table ∧ after.view (.requests owner.value) object = later ∧
      ∀ other, other ≠ .requests owner.value → ∀ place, after.view other place = views.view other place :=
  run_ready picked ready ran left

theorem PerformsOn.on (picked : object = chosen name) (ready : Ready chosen views state.table)
    (ran : (program.run View.step .abort).run (views.view name object) = .ok (value, later))
    (left : next.table = Function.update state.table name later.table)
    (rest : ∀ after, Ready chosen after next.table → after.view name object = later →
      (∀ other, other ≠ name → ∀ place, after.view other place = views.view other place) →
      PerformsOn after (following value) result) :
    PerformsOn views (ObjectProgram.on name object program >>= following) result := by
  obtain ⟨after, ended, readyAfter, here, apart⟩ := run_ready picked ready ran left
  rw [PerformsOn, Program.run_bind, run_bind_ok ended]
  exact rest after readyAfter here apart

section Writes

variable {put : Table name.schema.primaryKey → State} {written : Except Abort (Table name.schema.primaryKey)}
  {program : TableProgram name.schema Unit}

theorem PerformsOn.writes {following : Unit → ContractProgram Unit}
    {outcome : Table name.schema.primaryKey → Except Abort State}
    (table_put : ∀ rows, (put rows).table = Function.update state.table name rows) (picked : object = chosen name)
    (ready : Ready chosen views state.table)
    (ended : TableProgram.outcome ((program.run View.step .abort).run (views.view name object)) =
      Prod.mk () <$> View.lift written)
    (rest : ∀ rows after, Ready chosen after (put rows).table → PerformsOn after (following ()) (quietly (outcome rows))) :
    PerformsOn views (ObjectProgram.on name object program >>= following) (quietly (written >>= outcome)) := by
  cases written with
  | error reason => exact .stops (picked ▸ ready.current name) (TableProgram.outcome_eq_error.mp ended)
  | ok rows =>
    obtain ⟨later, ran, same⟩ := TableProgram.outcome_eq_ok.mp ended
    refine .on picked ready ran ?_ fun after ready _ _ => rest rows after ready
    rw [same, table_put]

theorem PerformsOn.writesLast (table_put : ∀ rows, (put rows).table = Function.update state.table name rows)
    (current : views.stale name object = false) (tables : views.tables = state.table)
    (ended : TableProgram.outcome ((program.run View.step .abort).run (views.view name object)) =
      Prod.mk () <$> View.lift written) :
    PerformsOn views (ObjectProgram.on name object program) (quietly (put <$> written)) := by
  cases written with
  | error reason => exact .fails current (TableProgram.outcome_eq_error.mp ended)
  | ok rows =>
    obtain ⟨later, ran, same⟩ := TableProgram.outcome_eq_ok.mp ended
    refine .ends current ran ?_
    rw [same, tables, table_put]

end Writes

/-- The action reads a table while no object has missed anything. -/
theorem PerformsOn.reads (only : program.Only fun command => command.writes = true → false = true)
    (fresh : Fresh views state.table)
    (ran : (program.run View.step .abort).run (views.view name object) = .ok (value, later))
    (same : later.table = state.table name)
    (rest : ∀ after, Fresh after state.table →
      (∀ other, other ≠ name → ∀ place, after.view other place = views.view other place) →
      PerformsOn after (following value) result) :
    PerformsOn views (ObjectProgram.on name object program >>= following) result := by
  have ended := ObjectProgram.run_read_ok only (fresh.current name object) ran
  rw [PerformsOn, Program.run_bind, run_bind_ok ended]
  exact rest _ (fresh.read same) fun other apart place => Views.view_settle_apart apart place

theorem PerformsOn.done (tables : views.tables = state.table) : PerformsOn views (pure ()) (quietly (.ok state)) :=
  congrArg (fun tables => Except.ok ((), tables)) tables

theorem PerformsOn.assoc {γ : Type} {program : ContractProgram α} {between : α → ContractProgram β}
    {following : β → ContractProgram γ} {outcome : Except Abort (γ × State)}
    (performs : PerformsOn views (program >>= fun value => between value >>= following) outcome) :
    PerformsOn views (program >>= between >>= following) outcome := by
  rw [PerformsOn, Program.run_bind, Program.run_bind, bind_assoc]
  rw [PerformsOn, Program.run_bind] at performs
  simp only [Program.run_bind] at performs
  exact performs

theorem PerformsOn.guard {checked : Except Abort Unit} {following : Unit → ContractProgram Unit}
    {outcome : Unit → Except Abort State}
    (rest : checked = .ok () → PerformsOn views (following ()) (quietly (outcome ()))) :
    PerformsOn views (liftM checked >>= following) (quietly (checked >>= outcome)) := by
  cases checked with
  | error reason => rfl
  | ok _ => exact rest rfl

/-- An action that makes one object for each table. -/
def firstOnly (_ : TableName) : Nat := first

/-! What the actions on requests do first. -/

section Accounts

variable {following : Unit → ContractProgram Unit} {outcome : Unit → Except Abort State}

theorem requireProfile_only : (requireProfile owner missing).Only fun command => command.writes = true → false = true := by
  refine ⟨id, fun _ => ⟨id, fun _ => ⟨id, fun same => ?_⟩⟩⟩
  cases same <;> exact trivial

theorem seekContact_only : (seekContact contact).Only fun command => command.writes = true → false = true :=
  ⟨id, fun _ => ⟨id, fun _ => ⟨id, fun _ => trivial⟩⟩⟩

/-- A profile must be there. -/
theorem PerformsOn.require (fresh : Fresh views state.table)
    (rest : ∀ after, Fresh after state.table →
      (∀ other, other ≠ .profiles → ∀ place, after.view other place = views.view other place) →
      PerformsOn after (following ()) (quietly (outcome ()))) :
    PerformsOn views (onProfiles (requireProfile owner missing) >>= following)
      (quietly (check (state.profiles.find? owner.value).isSome missing >>= outcome)) := by
  have table : (views.view .profiles first).table = state.profiles := congrFun fresh.tables .profiles
  have asked : ((requireProfile owner missing).run View.step .abort).run (views.view .profiles first) = _ :=
    run_requireProfile (views.view .profiles first) missing
  rw [table] at asked
  cases there : (state.profiles.find? owner.value).isSome with
  | false =>
    rw [there] at asked
    exact .stops (fresh.current .profiles first) asked
  | true =>
    rw [there] at asked
    exact .reads requireProfile_only fresh asked table rest

theorem PerformsOn.validate {from' : Name} (fresh : Fresh views state.table)
    (rest : ∀ after, Fresh after state.table →
      (∀ other, other ≠ .profiles → ∀ place, after.view other place = views.view other place) →
      PerformsOn after (following ()) (quietly (outcome ()))) :
    PerformsOn views (ContractProgram.validateAccounts owner from' >>= following)
      (quietly (validateAccounts owner from' state >>= outcome)) := by
  rw [validateAccounts, bind_assoc]
  refine .assoc (.require fresh fun _ fresh first => .require fresh fun after fresh second => rest after fresh ?_)
  exact fun other apart place => (second other apart place).trans (first other apart place)

end Accounts

end LocalChain.K2ultra
