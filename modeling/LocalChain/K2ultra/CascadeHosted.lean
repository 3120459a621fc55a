import LocalChain.K2ultra.RequestsHosted

/-! The actions that delete many rows. -/
namespace LocalChain.K2ultra

open LocalChain.Inery LocalChain.Inery.MultiIndex LocalChain.Store LocalChain.Refine
open TableProgram (At call itr eraseAll notEnd outcome removeRow run_call run_notEnd theEnd)
open ObjectProgram (Fresh Ready)
open ContractProgram (first second onRequests)

variable {context : Context} {state : State} {owner contact : Name} {views : Views TableName.schema}

/-! Deletions. -/

theorem deleteuser_performs {rows : TableName → Nat}
    (counted : rows (.requests owner.value) = (state.requests owner.value).rows.length) :
    Performs state (ContractProgram.deleteuser context rows owner) (quietly (deleteuser context owner state)) := by
  refine .ofStart (.guard fun _ => ?_)
  have ready : Ready firstOnly (Views.start state.table) state.table := (Fresh.start _).ready _
  cases held : state.profiles.find? owner.value with
  | none =>
    have absent : (View.start state.profiles true : View profilesSchema).table.find? owner.value = none := held
    exact .stops rfl (TableProgram.removeRow_missing absent)
  | some row =>
    have there : (state.profiles.find? (Profiles.primaryKey row)).isSome := by
      rw [Table.key_of_find? held, held]
      rfl
    let view : View profilesSchema := View.start state.profiles true
    have removed : outcome (((removeRow owner.value "User doesn't exist").run View.step .abort).run view) =
        .ok ((), state.profiles.erase owner.value) := TableProgram.removeRow_outcome rfl held
    have emptied : outcome (((eraseAll (rows (.requests owner.value))).run View.step .abort).run
        (View.start (state.requests owner.value) true : View requestsSchema)) = .ok ((), .empty) := by
      rw [counted]
      exact TableProgram.eraseAll_onTable (state.table (.requests owner.value))
    obtain ⟨later, ran, gone⟩ := TableProgram.outcome_eq_ok.mp removed
    obtain ⟨last, erased, empty⟩ := TableProgram.outcome_eq_ok.mp emptied
    change PerformsOn _ _ (quietly (erase state.profiles (some row) >>= _))
    rw [erase_some.mpr ⟨there, rfl⟩, Table.key_of_find? held]
    change PerformsOn _ _ (quietly (MultiIndex.eraseAll (state.requests owner.value) >>= _))
    rw [eraseAll_eq_ok]
    have left : { state with profiles := state.profiles.erase owner.value }.table =
        Function.update state.table .profiles later.table := by rw [gone, State.table_profiles]
    refine .on rfl ready ran left fun after ready _ apart => ?_
    have untouched : after.view (.requests owner.value) first = View.start (state.requests owner.value) true :=
      apart (.requests owner.value) TableName.noConfusion first
    refine .ends (ready.current _) (untouched ▸ erased) ?_
    rw [empty, ready.tables]
    exact State.table_setRequests ..

/-! The cascade of `deletereqs`. -/

section Cascade

variable {row : Requests} {fuel : Nat}

/-- The state after a round of the loop. -/
def State.dropBoth (state : State) (owner : Name) (row : Requests) : State :=
  let erased := state.setRequests owner.value ((state.requests owner.value).erase row.scope)
  if ((state.requests row.contact.value).find? row.scope).isSome then
    erased.setRequests row.contact.value ((state.requests row.contact.value).erase row.scope)
  else erased

theorem deletereqsLoop_succ (present : row ∈ (state.requests owner.value).rows) (apart : owner ≠ row.contact) :
    deletereqsLoop owner (fuel + 1) (some row) state =
      deletereqsLoop owner fuel ((state.requests owner.value).next? row.scope) (state.dropBoth owner row) := by
  have held : (state.requests owner.value).find? row.scope = some row := Table.find?_self present
  have erased := erase_found held
  rw [held] at erased
  rw [deletereqsLoop, erased]
  change (if ((state.requests row.contact.value).find? row.scope).isSome then
    erase ((state.setRequests owner.value _).requests row.contact.value) _ >>= _ else _) = _
  rw [State.setRequests_beside apart, State.dropBoth]
  cases theirs : (state.requests row.contact.value).find? row.scope with
  | none => rfl
  | some other =>
    have gone := erase_found theirs
    rw [theirs] at gone
    rw [Option.isSome_some, if_pos rfl, gone, if_pos rfl]
    rfl

/-- The first object is the one for the requests of an account. -/
def firstFor (account : Name) (name : TableName) : Nat := if name = .requests account.value then first else second

theorem firstFor_self : first = firstFor account (.requests account.value) := (if_pos rfl).symm

theorem firstFor_apart (apart : account ≠ contact) : second = firstFor account (.requests contact.value) :=
  (if_neg (requests_apart apart)).symm

/-- The second object when it has looked for a row. -/
def lookedAnew (view : View requestsSchema) (scope : UInt64) : View requestsSchema :=
  View.place { view with next := unsetNextPrimaryKey, cursors := fun _ => .finish } itr (view.table.find? scope)

theorem at_lookedAnew (view : View requestsSchema) (scope : UInt64) :
    At (lookedAnew view scope) itr (view.table.find? scope) :=
  TableProgram.At.place fun _ found => (Table.find?_eq_some.mp found).1

/-- The view of the first object when its row is erased. -/
def passed (view : View requestsSchema) (row : Requests) : View requestsSchema :=
  View.place { view with table := view.table.erase row.scope, cursors := View.bury view.cursors row.scope } itr
    (view.table.next? row.scope)

theorem at_passed (view : View requestsSchema) (row : Requests) : At (passed view row) itr (view.table.next? row.scope) :=
  TableProgram.At.place fun _ follows =>
    Table.mem_erase.mpr ⟨Table.mem_of_next? follows, (Table.lt_of_next? follows).ne'⟩

theorem run_deleteRequest (ready : Ready (firstFor owner) views state.table)
    (here : At (views.view (.requests owner.value) first) itr (some row)) (apart : owner ≠ row.contact) :
    ∃ after, ((ContractProgram.deleteRequest owner).run Views.step .abort).run views = .ok ((), after) ∧
      Ready (firstFor owner) after (state.dropBoth owner row).table ∧
      At (after.view (.requests owner.value) first) itr ((state.requests owner.value).next? row.scope) := by
  have mine : first = firstFor owner (.requests owner.value) := firstFor_self
  have theirs : second = firstFor owner (.requests row.contact.value) := firstFor_apart apart
  have scopes := requests_apart apart
  have mineTable : (views.view (.requests owner.value) first).table = state.requests owner.value := congrFun ready.tables _
  have theirsTable : (views.view (.requests row.contact.value) second).table = state.requests row.contact.value :=
    congrFun ready.tables _
  have read : ((call (.read itr) : TableProgram requestsSchema Requests).run View.step .abort).run
      (views.view (.requests owner.value) first) = .ok (row, views.view (.requests owner.value) first) := by
    rw [call, Program.run_ask]
    exact here.read
  obtain ⟨asked, ranRead, readyRead, mineRead, otherRead⟩ := run_onRequests mine ready read (state.table_read mineTable)
  have theirsRead := otherRead _ scopes second
  have looked : ((do
        call .construct
        call (.find itr (.primary row.scope)) : TableProgram requestsSchema Unit).run View.step .abort).run
      (asked.view (.requests row.contact.value) second) = .ok ((), lookedAnew (asked.view (.requests row.contact.value) second)
        row.scope) := by
    rw [run_call rfl, call, Program.run_ask]
    rfl
  rw [← theirsRead] at theirsTable
  have lookedTable : (lookedAnew (asked.view (.requests row.contact.value) second) row.scope).table =
      state.requests row.contact.value := theirsTable
  obtain ⟨sought, ranLook, readyLook, theirsLook, otherLook⟩ :=
    run_onRequests theirs readyRead looked (state.table_read lookedTable)
  have mineLook := (otherLook _ scopes.symm first).trans mineRead
  have erased : ((call (.erase itr .primary) : TableProgram requestsSchema Unit).run View.step .abort).run
      (sought.view (.requests owner.value) first) = .ok ((), passed (views.view (.requests owner.value) first) row) := by
    rw [call, Program.run_ask, mineLook]
    exact here.erase rfl
  have left : (state.setRequests owner.value ((state.requests owner.value).erase row.scope)).table = Function.update
      state.table (.requests owner.value) (passed (views.view (.requests owner.value) first) row).table := by
    rw [State.table_setRequests, ← mineTable]
    rfl
  obtain ⟨gone, ranErase, readyErase, mineErase, otherErase⟩ := run_onRequests mine readyLook erased left
  have beside := state.setRequests_beside apart ((state.requests owner.value).erase row.scope)
  have at_theirs := at_lookedAnew (asked.view (.requests row.contact.value) second) row.scope
  rw [theirsTable, ← theirsLook, ← otherErase _ scopes second] at at_theirs
  have goneTable : (gone.view (.requests row.contact.value) second).table =
      (state.setRequests owner.value ((state.requests owner.value).erase row.scope)).requests row.contact.value :=
    congrFun readyErase.tables _
  have compared := run_notEnd at_theirs (by decide)
  obtain ⟨last, ranEnd, readyEnd, theirsEnd, otherEnd⟩ :=
    run_onRequests theirs readyErase compared (State.table_read _ goneTable)
  have mineEnd := (otherEnd _ scopes.symm first).trans mineErase
  have at_mine := at_passed (views.view (.requests owner.value) first) row
  rw [mineTable, ← mineEnd] at at_mine
  rw [ContractProgram.deleteRequest, Program.run_bind, run_bind_ok ranRead, Program.run_bind, run_bind_ok ranLook,
    Program.run_bind, run_bind_ok ranErase, Program.run_bind, run_bind_ok ranEnd, State.dropBoth]
  cases found : (state.requests row.contact.value).find? row.scope with
  | none => exact ⟨last, rfl, readyEnd, at_mine⟩
  | some other =>
    rw [found] at at_theirs
    have still : At (last.view (.requests row.contact.value) second) itr (some other) := by
      rw [theirsEnd]
      exact at_theirs.elsewhere (by decide)
    have dropped : ((call (.erase itr .primary) : TableProgram requestsSchema Unit).run View.step .abort).run
        (last.view (.requests row.contact.value) second) =
          .ok ((), passed (last.view (.requests row.contact.value) second) other) := by
      rw [call, Program.run_ask]
      exact still.erase rfl
    have lastTable : (last.view (.requests row.contact.value) second).table = state.requests row.contact.value :=
      (congrFun readyEnd.tables _).trans beside
    have key : other.scope = row.scope := Table.key_of_find? found
    have leftBoth : ((state.setRequests owner.value ((state.requests owner.value).erase row.scope)).setRequests
        row.contact.value ((state.requests row.contact.value).erase row.scope)).table = Function.update
          (state.setRequests owner.value ((state.requests owner.value).erase row.scope)).table (.requests row.contact.value)
          (passed (last.view (.requests row.contact.value) second) other).table := by
      rw [State.table_setRequests, ← lastTable, ← key]
      rfl
    obtain ⟨after, ranBoth, readyBoth, _, otherBoth⟩ := run_onRequests theirs readyEnd dropped leftBoth
    rw [← otherBoth _ scopes.symm first] at at_mine
    exact ⟨after, ranBoth, readyBoth, at_mine⟩

theorem State.dropBoth_requests (apart : owner ≠ row.contact) :
    (state.dropBoth owner row).requests owner.value = (state.requests owner.value).erase row.scope := by
  rw [State.dropBoth]
  split
  · exact (State.setRequests_beside apart.symm _).trans (Function.update_self ..)
  · exact Function.update_self ..

/-- Each round of the loop takes one row from the table and its counterpart from another. -/
theorem deletereqsLoop_performs {row? : Option Requests} (ready : Ready (firstFor owner) views state.table)
    (here : At (views.view (.requests owner.value) first) itr row?)
    (distinct : ∀ row ∈ (state.requests owner.value).rows, owner ≠ row.contact) :
    PerformsOn views
      (Program.loop .deadline (onRequests first owner (notEnd itr)) (ContractProgram.deleteRequest owner) fuel)
      (quietly (deletereqsLoop owner fuel row? state)) := by
  have table {views : Views TableName.schema} {state : State} (ready : Ready (firstFor owner) views state.table) :
      (views.view (.requests owner.value) first).table = state.requests owner.value := congrFun ready.tables _
  induction fuel generalizing views state row? with
  | zero =>
    refine .on firstFor_self ready (run_notEnd here (by decide)) (state.table_read (table ready))
      fun after ready _ _ => ?_
    cases row? with
    | none => exact .done ready.tables
    | some row => rfl
  | succ fuel ih =>
    refine .on firstFor_self ready (run_notEnd here (by decide)) (state.table_read (table ready))
      fun after later same _ => ?_
    cases row? with
    | none => exact .done later.tables
    | some row =>
      have present : row ∈ (state.requests owner.value).rows := table ready ▸ here.inside row rfl
      have apart := distinct row present
      have still : At (after.view (.requests owner.value) first) itr (some row) := by
        rw [same]
        exact here.elsewhere (by decide)
      obtain ⟨last, ran, readyLast, at_last⟩ := run_deleteRequest later still apart
      rw [deletereqsLoop_succ present apart]
      change PerformsOn after (ContractProgram.deleteRequest owner >>= fun _ => Program.loop _ _ _ fuel) _
      rw [PerformsOn, Program.run_bind, run_bind_ok ran]
      refine ih readyLast at_last fun other member => ?_
      rw [State.dropBoth_requests apart] at member
      exact distinct other (Table.mem_erase.mp member).1

theorem deletereqs_performs {rows : TableName → Nat} (neat : state.Neat)
    (counted : rows (.requests owner.value) = (state.requests owner.value).rows.length) :
    Performs state (ContractProgram.deletereqs rows owner) (quietly (deletereqs owner state)) := by
  have fresh : Fresh (Views.start state.table) state.table := .start _
  have ready : Ready (firstFor owner) (Views.start state.table) state.table := fresh.ready _
  refine .ofStart (.on firstFor_self ready TableProgram.run_begin (state.table_read rfl) fun after ready here _ => ?_)
  rw [counted, deletereqs]
  have started : At (after.view (.requests owner.value) first) itr (state.requests owner.value).first? := by
    rw [here, ← TableProgram.lowerBound_zero]
    exact TableProgram.At.place fun row => Table.mem_of_lowerBound
  refine deletereqsLoop_performs ready started fun row present => ?_
  have held : (state.requests owner.value).find? row.scope = some row := Table.find?_self present
  exact (neat.apart owner row.scope row held).symm

end Cascade

end LocalChain.K2ultra
