import LocalChain.K2ultra.ContractHosted

/-! What the programs do to one table of requests. -/
namespace LocalChain.K2ultra

open LocalChain.Inery LocalChain.Inery.MultiIndex LocalChain.Store LocalChain.Refine
open TableProgram

variable {state : State} {owner contact : Name} {missing : String}

section Table

variable {view : View requestsSchema} {row : Requests} {updater : Requests → Requests} {scope : UInt64}

/-- The view once a contact was looked for. -/
def sought (view : View requestsSchema) (contact : Name) : View requestsSchema :=
  (view.place itr (view.table.indexFind Requests.byContact contact.value)).place theEnd none

theorem at_sought (view : View requestsSchema) (contact : Name) :
    At (sought view contact) itr (view.table.indexFind Requests.byContact contact.value) :=
  At.elsewhere (At.place fun _ found => (Table.indexFind_eq_some.mp found).1) (by decide)

theorem run_seekContact (view : View requestsSchema) (contact : Name) :
    ((seekContact contact).run View.step .abort).run view =
      .ok ((view.table.indexFind Requests.byContact contact.value).isSome, sought view contact) := by
  have looked : (View.step (.find itr (.index contactIndex contact.value))).run view =
      .ok ((), view.place itr (view.table.indexFind Requests.byContact contact.value)) := rfl
  rw [seekContact, run_call looked]
  exact run_notEnd (At.place fun _ found => (Table.indexFind_eq_some.mp found).1) (by decide)

theorem run_contactScope (view : View requestsSchema) (contact : Name) :
    ((contactScope contact missing).run View.step .abort).run view =
      match view.table.indexFind Requests.byContact contact.value with
      | none => fail missing
      | some row => .ok (row.scope, sought view contact) := by
  rw [contactScope, Program.run_bind, run_bind_ok (run_seekContact view contact)]
  have here := at_sought view contact
  cases found : view.table.indexFind Requests.byContact contact.value with
  | none => exact run_outcome_error (check_unmet missing)
  | some row =>
    rw [found] at here
    rw [Option.isSome_some, run_outcome (check_met missing), run_call here.read]
    rfl

/-- The view once a row was looked for by its key. -/
def keyed (view : View requestsSchema) (scope : UInt64) : View requestsSchema :=
  view.place byKey (view.table.find? scope)

theorem run_findByKey : ((findByKey scope).run View.step .abort).run view = .ok ((), keyed view scope) := by
  rw [findByKey, call, Program.run_ask]
  rfl

theorem at_keyed (held : view.table.find? scope = some row) : At (keyed view scope) byKey (some row) := by
  rw [keyed, held]
  exact At.place fun _ found => Option.some.inj found ▸ (Table.find?_eq_some.mp held).1

theorem run_modifyByKey (own : view.own = true) (held : view.table.find? scope = some row)
    (same : (updater row).scope = row.scope) (short : packSize (updater row) < 2 ^ 31) :
    ((modifyByKey scope updater).run View.step .abort).run view = .ok ((), (keyed view scope).rewrite row updater) := by
  have owned : (keyed view scope).own = true := own
  rw [modifyByKey, Program.run_bind, run_bind_ok run_findByKey, call, Program.run_ask]
  exact (at_keyed held).modify owned same.symm short

theorem modify_found {requests : RequestsTable} (present : row ∈ requests.rows) (same : (updater row).scope = row.scope) :
    modify requests (some row) updater = .ok (requests.put (updater row)) := by
  refine modify_some.mpr ⟨same.symm, ?_, rfl⟩
  change (requests.find? (updater row).scope).isSome
  exact Option.isSome_of_mem ((congrArg requests.find? same).trans (Table.find?_self present))

theorem erase_found {requests : RequestsTable} (held : requests.find? scope = some row) :
    erase requests (requests.find? scope) = .ok (requests.next? scope, requests.erase scope) := by
  have key : row.scope = scope := Table.key_of_find? held
  rw [held]
  refine erase_some.mpr ⟨?_, ?_⟩
  · exact Option.isSome_of_mem ((congrArg requests.find? key).trans held)
  · exact congrArg (fun scope => (requests.next? scope, requests.erase scope)) key

theorem eraseByKey_outcome (own : view.own = true) :
    outcome ((eraseByKey.run View.step .abort).run (keyed view scope)) =
      (fun erased => ((), erased.2)) <$> View.lift (erase view.table (view.table.find? scope)) := by
  rw [eraseByKey, call, Program.run_ask]
  cases held : view.table.find? scope with
  | none =>
    have here : At (keyed view scope) byKey none := by
      rw [keyed, held]
      exact At.place fun _ absent => absurd absent.symm (Option.some_ne_none _)
    change outcome ((keyed view scope).row? byKey >>= _) = _
    rw [here.found]
    rfl
  | some row =>
    have owned : (keyed view scope).own = true := own
    have erased : (View.step (.erase byKey .primary)).run (keyed view scope) = _ := (at_keyed held).erase owned
    rw [erased, ← held, erase_found held]
    exact congrArg (fun scope => Except.ok ((), view.table.erase scope)) (Table.key_of_find? held)

theorem dropByKey_outcome (own : view.own = true) :
    outcome (((dropByKey scope).run View.step .abort).run view) =
      (fun erased => ((), erased.2)) <$> View.lift (erase view.table (view.table.find? scope)) := by
  rw [dropByKey, Program.run_bind, run_bind_ok run_findByKey]
  exact eraseByKey_outcome own

/-- The row of a contact is found by the index, and once more by its key. -/
theorem run_changeContact (own : view.own = true) (same : ∀ row, (updater row).scope = row.scope)
    (short : ∀ row, view.table.indexFind Requests.byContact contact.value = some row → packSize (updater row) < 2 ^ 31) :
    ((changeContact contact missing updater).run View.step .abort).run view =
      match view.table.indexFind Requests.byContact contact.value with
      | none => fail missing
      | some row => .ok ((), (keyed (sought view contact) row.scope).rewrite row updater) := by
  have asked : ((contactScope contact missing).run View.step .abort).run view = _ := run_contactScope view contact
  rw [changeContact, Program.run_bind]
  cases there : view.table.indexFind Requests.byContact contact.value with
  | none =>
    rw [there] at asked
    exact run_bind_error asked
  | some row =>
    rw [there] at asked
    have owned : (sought view contact).own = true := own
    have held : (sought view contact).table.find? row.scope = some row :=
      Table.find?_self (Table.indexFind_eq_some.mp there).1
    rw [run_bind_ok asked]
    exact run_modifyByKey owned held (same row) (short row there)

theorem dropContact_onTable (requests : RequestsTable) :
    (dropContact owner).onTable requests =
      match requests.indexFind Requests.byContact owner.value with
      | none => fail "Contact does not have owner as request"
      | some row => .ok ((), requests.erase row.scope) := by
  let view : View requestsSchema := View.start requests true
  have looked := run_seekContact view owner
  rw [onTable, dropContact, Program.run_bind, run_bind_ok looked]
  have here := at_sought view owner
  cases there : requests.indexFind Requests.byContact owner.value with
  | none =>
    have absent : view.table.indexFind Requests.byContact owner.value = none := there
    rw [absent]
    exact congrArg outcome (run_outcome_error (check_unmet _))
  | some row =>
    have held : view.table.indexFind Requests.byContact owner.value = some row := there
    have owned : (sought view owner).own = true := rfl
    rw [held] at here ⊢
    have erased : (View.step (.erase itr (.index contactIndex))).run (sought view owner) = _ := here.erase owned
    rw [Option.isSome_some, run_outcome (check_met _), call, Program.run_ask, erased]
    rfl

end Table

theorem deletereqs2_performs : Performs state (ContractProgram.deletereqs2 owner contact)
    (quietly (deletereqs2 owner contact state)) := by
  have ended : (dropContact owner).onTable (state.table (.requests contact.value)) = _ :=
    dropContact_onTable (state.requests contact.value)
  refine Performs.single ended (state.table_setRequests contact.value) ?_
  rw [deletereqs2]
  dsimp only
  cases there : (state.requests contact.value).indexFind Requests.byContact owner.value with
  | none => rfl
  | some row =>
    have held : (state.requests contact.value).find? row.scope = some row :=
      Table.find?_self (Table.indexFind_eq_some.mp there).1
    change _ = View.lift (quietly (erase (state.requests contact.value) (some row) >>= _))
    rw [erase_some.mpr ⟨Option.isSome_of_mem held, rfl⟩]
    rfl

end LocalChain.K2ultra
