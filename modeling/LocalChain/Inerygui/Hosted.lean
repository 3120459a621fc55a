import LocalChain.Inerygui.Objects
import LocalChain.Inerygui.Storage
import Mathlib.Data.List.Infix

/-! The contract on its objects does what it does on tables. -/
namespace LocalChain.Inerygui

open LocalChain.Inery LocalChain.Store LocalChain.Refine
open LocalChain.K2ultra (Host)
open TableObject (Represents)
open TableProgram

variable {labelling : Labelling UInt64} {schema : Schema} {context : Context} {version : ByteString}

/-! The programs on a view. -/

section Programs

variable {row? : Option User} {view : View userSchema}

theorem upgradeLoop_outcome (fuel : Nat) (here : At view itr row?) (own : view.own = true)
    (short : ∀ row ∈ view.table.rows, packSize (row.setVersion version) < 2 ^ 31) :
    outcome (((upgradeLoop version fuel).run View.step .abort).run view) =
      Prod.mk () <$> View.lift (waversionLoop version fuel row? view.table) := by
  induction fuel generalizing view row? with
  | zero =>
    cases row? with
    | none => rw [upgradeLoop, Program.run_loop_stop (run_notEnd here (by decide))]; rfl
    | some row => rw [upgradeLoop, Program.run_loop_deadline (run_notEnd here (by decide))]; rfl
  | succ fuel ih =>
    cases row? with
    | none => rw [upgradeLoop, Program.run_loop_stop (run_notEnd here (by decide))]; rfl
    | some row =>
      have present := here.inside row rfl
      have held : (view.table.find? (row.setVersion version).primaryKey).isSome := by
        rw [User.primaryKey_eq, User.setVersion_id, ← User.primaryKey_eq, Table.find?_self present]
        rfl
      have modified : MultiIndex.modify view.table (some row) (User.setVersion version) =
          .ok (view.table.put (row.setVersion version)) := MultiIndex.modify_some.mpr ⟨rfl, held, rfl⟩
      have asked : At (view.place theEnd none) itr (some row) := here.elsewhere (by decide)
      have written : (View.step (.modify itr (User.setVersion version))).run (view.place theEnd none) =
          .ok ((), (view.place theEnd none).rewrite row (User.setVersion version)) :=
        asked.modify own rfl (short row present)
      have still : At ((view.place theEnd none).rewrite row (User.setVersion version)) itr
          (some (row.setVersion version)) :=
        ⟨asked.cursor, fun other same => Option.some.inj same ▸ Table.mem_put.mpr (.inl rfl)⟩
      have round : ((do
            call (.modify itr (User.setVersion version))
            call (.increment itr .primary) : TableProgram userSchema Unit).run View.step .abort).run
          (view.place theEnd none) = .ok ((), ((view.place theEnd none).rewrite row (User.setVersion version)).place itr
            ((view.table.put (row.setVersion version)).next? row.primaryKey)) := by
        rw [run_call written, call, Program.run_ask]
        exact still.increment .primary
      rw [upgradeLoop, Program.run_loop_round (run_notEnd here (by decide)), run_bind_ok round, waversionLoop, modified]
      refine ih (At.place fun next follows => Table.mem_of_next? follows) own fun other member => ?_
      rcases Table.mem_put.mp member with rfl | ⟨old, _⟩
      · exact short row present
      · exact short other old

theorem upgradeUsers_onTable (user : UserTable)
    (short : ∀ row ∈ user.rows, packSize (row.setVersion version) < 2 ^ 31) :
    onTable (do
      begin
      upgradeLoop version user.rows.length : TableProgram userSchema Unit) user =
      Prod.mk () <$> View.lift (waversionLoop version user.rows.length user.first? user) := by
  rw [onTable, Program.run_bind, run_bind_ok run_begin]
  have here : At ((View.start user true : View userSchema).place itr (user.lowerBound 0)) itr (user.lowerBound 0) :=
    At.place fun row => Table.mem_of_lowerBound
  refine (upgradeLoop_outcome _ here rfl short).trans ?_
  change Prod.mk () <$> View.lift (waversionLoop version user.rows.length (user.lowerBound 0) user) = _
  rw [lowerBound_zero]

end Programs

section Upsert

variable {view : View schema} {fresh : schema.Row} {payer composition : Name}
  {constructor updater : schema.Row → schema.Row}

/-- What `addhistory` and `linkperm` do to a table. -/
def upserted {ρ : Type} [Serialize ρ] {key : ρ → UInt64} (context : Context) (payer composition : Name) (fresh : ρ)
    (constructor updater : ρ → ρ) (table : Table key) : Except Abort (Table key) :=
  match table.find? composition.value with
  | none => do
    context.bill payer 0 (Inery.packSize (constructor fresh))
    MultiIndex.emplace table fresh constructor
  | some row => do
    context.bill payer (Inery.packSize row) (Inery.packSize (updater row))
    MultiIndex.modify table (some row) updater

theorem upsert_outcome (own : view.own = true) (keyed : schema.primaryKey (constructor fresh) = composition.value)
    (same : ∀ row, schema.primaryKey row = schema.primaryKey (updater row))
    (short : ∀ table, upserted context payer composition fresh constructor updater view.table = .ok table →
      ∀ row ∈ table.rows, Inery.packSize row < 2 ^ 31) :
    outcome (((upsert context payer composition fresh constructor updater).run View.step .abort).run view) =
      Prod.mk () <$> View.lift (upserted context payer composition fresh constructor updater view.table) := by
  rw [upserted] at short ⊢
  cases held : view.table.find? composition.value with
  | none =>
    rw [held] at short
    dsimp only at short ⊢
    have entered : ((upsert context payer composition fresh constructor updater).run View.step .abort).run view =
        ((liftM (context.bill payer 0 (Inery.packSize (constructor fresh))) >>= fun _ =>
          call (.emplace newRow fresh constructor) : TableProgram schema Unit).run View.step .abort).run
          (found view composition.value) := by
      rw [upsert, run_lookup_bind, held]
      rfl
    cases paid : context.bill payer 0 (Inery.packSize (constructor fresh)) with
    | error reason =>
      rw [entered, run_outcome_error paid]
      rfl
    | ok _ =>
      have absent : view.table.find? (schema.primaryKey (constructor fresh)) = none := by rw [keyed]; exact held
      have stored : MultiIndex.emplace view.table fresh constructor = .ok (view.table.put (constructor fresh)) :=
        MultiIndex.emplace_eq_ok.mpr ⟨absent, rfl⟩
      rw [paid, stored] at short
      have small : Inery.packSize (constructor fresh) < 2 ^ 31 := short _ rfl _ (Table.mem_put.mpr (.inl rfl))
      have owned : (found view composition.value).own = true := own
      have free : (found view composition.value).table.find? (schema.primaryKey (constructor fresh)) = none := absent
      have created : (View.step (.emplace newRow fresh constructor)).run (found view composition.value) = _ :=
        run_emplace owned free small
      rw [entered, run_outcome paid, call, Program.run_ask, created, stored]
      rfl
  | some row =>
    rw [held] at short
    dsimp only at short ⊢
    have here := At.looked view composition.value
    rw [held] at here
    have entered : ((upsert context payer composition fresh constructor updater).run View.step .abort).run view =
        ((liftM (context.bill payer (Inery.packSize row) (Inery.packSize (updater row))) >>= fun _ =>
          call (.modify itr updater) : TableProgram schema Unit).run View.step .abort).run
          (found view composition.value) := by
      rw [upsert, run_lookup_bind, held]
      change ((call (.read itr) >>= _ : TableProgram schema Unit).run View.step .abort).run _ = _
      rw [run_call here.read]
    cases paid : context.bill payer (Inery.packSize row) (Inery.packSize (updater row)) with
    | error reason =>
      rw [entered, run_outcome_error paid]
      rfl
    | ok _ =>
      have present : (view.table.find? (schema.primaryKey (updater row))).isSome := by
        rw [← same, Table.key_of_find? held, held]
        rfl
      have stored : MultiIndex.modify view.table (some row) updater = .ok (view.table.put (updater row)) :=
        MultiIndex.modify_some.mpr ⟨same row, present, rfl⟩
      rw [paid, stored] at short
      have small : Inery.packSize (updater row) < 2 ^ 31 := short _ rfl _ (Table.mem_put.mpr (.inl rfl))
      have written : (View.step (.modify itr updater)).run (found view composition.value) = _ :=
        here.modify own (same row) small
      rw [entered, run_outcome paid, call, Program.run_ask, written, stored]
      rfl

theorem upsert_matches {db : Db schema labelling} {table : Table schema.primaryKey} (represents : Represents db table)
    (keyed : schema.primaryKey (constructor fresh) = composition.value)
    (same : ∀ row, schema.primaryKey row = schema.primaryKey (updater row))
    (short : ∀ next, upserted context payer composition fresh constructor updater table = .ok next →
      ∀ row ∈ next.rows, Inery.packSize row < 2 ^ 31) :
    Matches .undefined (fun table db => Represents db table)
      (Prod.mk () <$> View.lift (upserted context payer composition fresh constructor updater table))
      ((upsert context payer composition fresh constructor updater).onObject context.self db) := by
  have written : (upsert context payer composition fresh constructor updater).onTable table = _ :=
    upsert_outcome rfl keyed same short
  have matched := onObject_matches represents (upsert context payer composition fresh constructor updater) context.self
  rw [written] at matched
  exact matched

end Upsert

/-! Tables, and the tables of the host. -/

structure HostsTables (tables : Tables) (hosted : HostTables labelling) : Prop where
  user : Represents hosted.user tables.user
  history : ∀ scope, Represents (hosted.history scope) (tables.history scope)
  permissions : ∀ scope, Represents (hosted.permissions scope) (tables.permissions scope)

structure HostsContract (contract : Contract) (hosted : HostContract labelling) : Prop
    extends HostsTables contract.toTables hosted.toHostTables where
  gstate : hosted.gstate = contract.gstate

/-- Every row can be packed. -/
structure Tables.Short (tables : Tables) : Prop where
  user : ∀ row ∈ tables.user.rows, Inery.packSize row < 2 ^ 31
  history : ∀ scope, ∀ row ∈ (tables.history scope).rows, Inery.packSize row < 2 ^ 31
  permissions : ∀ scope, ∀ row ∈ (tables.permissions scope).rows, Inery.packSize row < 2 ^ 31

variable {contract : Contract} {hosted : HostContract labelling} {action : Except Abort (Contract × List Printed)}
  {printed : List Printed} {program : TableProgram userSchema Unit}

theorem HostsContract.setUser (hosts : HostsContract contract hosted) {user : UserTable} {db : Db userSchema labelling}
    (represents : Represents db user) : HostsContract { contract with user } { hosted with user := db } where
  user := represents
  history := hosts.history
  permissions := hosts.permissions
  gstate := hosts.gstate

/-- An action on the table of users, which the contract has to sign. -/
theorem HostsContract.onUser (hosts : HostsContract contract hosted)
    (refused : ∀ reason, context.requireAuth context.self = .error reason → action = .error reason)
    (acts : context.requireAuth context.self = .ok () → ∃ outcome : Except Abort UserTable,
      action = (fun user => ({ contract with user }, printed)) <$> outcome ∧
        program.onTable contract.user = Prod.mk () <$> View.lift outcome) :
    Matches .undefined HostsContract (Prod.swap <$> View.lift action) (hosted.onUser context printed program) := by
  rw [HostContract.onUser]
  cases signed : context.requireAuth context.self with
  | error reason =>
    rw [refused reason signed]
    exact .fails _
  | ok _ =>
    obtain ⟨outcome, rfl, does⟩ := acts signed
    have matched := onObject_matches hosts.user program context.self
    rw [does] at matched
    have shown := matched.project (fun _ => printed) (f := fun user => { contract with user })
      (g := fun user => { hosted with user }) fun _ _ represents => hosts.setUser represents
    cases outcome with
    | error reason => exact shown
    | ok user => exact shown

theorem rmusers_hosted (hosts : HostsContract contract hosted) :
    Matches .undefined HostsContract (Prod.swap <$> View.lift (rmusers context contract)) (hosted.rmusers context) := by
  refine hosts.onUser (fun reason refused => ?_) fun signed => ⟨.ok .empty, ?_, ?_⟩
  · rw [rmusers, refused]
    rfl
  · rw [rmusers, signed, MultiIndex.eraseAll_eq_ok]
    rfl
  · rw [HostContract.rowCount, hosts.user.length_rows, eraseAll_onTable]
    rfl

theorem waversion_hosted (hosts : HostsContract contract hosted)
    (short : ∀ next, waversion context contract = .ok next → next.toTables.Short) :
    Matches .undefined HostsContract (Prod.swap <$> View.lift (silent (waversion context contract)))
      (hosted.waversion context) := by
  obtain ⟨user, walked, rows⟩ := waversionLoop_rows contract.gstate.version (List.nil_append contract.user.rows).symm
  rw [HostContract.waversion, hosts.gstate, HostContract.rowCount, hosts.user.length_rows]
  refine hosts.onUser (fun reason refused => ?_) fun signed => ⟨.ok user, ?_, ?_⟩
  · rw [waversion, refused]
    rfl
  · have walked' : waversionLoop contract.gstate.version contract.user.rows.length contract.user.first? contract.user =
        .ok user := walked
    rw [waversion, signed]
    change silent (waversionLoop contract.gstate.version contract.user.rows.length contract.user.first?
      contract.user >>= _) = _
    rw [walked']
    rfl
  · have committed : waversion context contract = .ok { contract with user } := by
      rw [waversion, signed]
      exact bind_eq_ok.mpr ⟨(), rfl, bind_eq_ok.mpr ⟨user, walked, rfl⟩⟩
    have written : ∀ row ∈ contract.user.rows, Inery.packSize (row.setVersion contract.gstate.version) < 2 ^ 31 := by
      intro row present
      apply (short _ committed).user
      rw [rows]
      exact List.mem_map_of_mem present
    rw [upgradeUsers_onTable contract.user written]
    exact congrArg (Prod.mk () <$> View.lift ·) walked

/-- What `adduser` does to the table. -/
def addedUser (context : Context) (guiname : ByteString) (password : Checksum256) (version : ByteString)
    (user : UserTable) : Except Abort UserTable := do
  check (user.find? (context.stringToUInt64 guiname)).isNone "User with that id already exists!"
  MultiIndex.emplace user (User.fresh context.memory)
    (User.registered (context.stringToUInt64 guiname) guiname password version)

theorem adduser_eq {guiname version : ByteString} {password : Checksum256}
    (signed : context.requireAuth context.self = .ok ()) :
    adduser context guiname password version contract =
      (fun user => ({ contract with user }, [.hash (context.sha256 guiname)])) <$>
        addedUser context guiname password version contract.user := by
  rw [adduser, addedUser, signed]
  change (check (contract.user.find? (context.stringToUInt64 guiname)).isNone _ >>= fun _ =>
    MultiIndex.emplace contract.user _ _ >>= _) = _ <$> (check _ _ >>= fun _ => MultiIndex.emplace _ _ _)
  cases check (contract.user.find? (context.stringToUInt64 guiname)).isNone "User with that id already exists!" <;> rfl

theorem addedUser_of_absent {guiname version : ByteString} {password : Checksum256} {user : UserTable}
    (absent : user.find? (context.stringToUInt64 guiname) = none) :
    addedUser context guiname password version user = .ok (user.put ((User.fresh context.memory).registered
      (context.stringToUInt64 guiname) guiname password version)) :=
  bind_eq_ok.mpr ⟨(), by rw [absent]; rfl, MultiIndex.emplace_eq_ok.mpr ⟨absent, rfl⟩⟩

theorem adduser_hosted (hosts : HostsContract contract hosted) {guiname version : ByteString} {password : Checksum256}
    (short : ∀ next printed, adduser context guiname password version contract = .ok (next, printed) →
      next.toTables.Short) :
    Matches .undefined HostsContract (Prod.swap <$> View.lift (adduser context guiname password version contract))
      (hosted.adduser context guiname password version) := by
  refine hosts.onUser (fun reason refused => ?_) fun signed => ⟨_, adduser_eq signed, ?_⟩
  · rw [adduser, refused]
    rfl
  · refine addRow_onTable rfl fun absent => ?_
    have called : adduser context guiname password version contract = _ := adduser_eq signed
    rw [addedUser_of_absent absent] at called
    exact (short _ _ called).user _ (Table.mem_put.mpr (.inl rfl))

/-- What an action on one user does to the table. -/
def editedUser (context : Context) (guiname : ByteString) (missing : String) (updater : User → Except Abort User)
    (user : UserTable) : Except Abort UserTable :=
  (user.find? (context.stringToUInt64 guiname)).elim (throw (.check missing)) fun row => do
    let updated ← updater row
    MultiIndex.modify user (some row) fun _ => updated

theorem editUser_eq {guiname : ByteString} {missing : String} {updater : User → Except Abort User}
    (signed : context.requireAuth context.self = .ok ()) :
    editUser context guiname missing updater contract =
      (fun user => ({ contract with user }, [.hash (context.sha256 guiname)])) <$>
        editedUser context guiname missing updater contract.user := by
  rw [editUser, editedUser, signed]
  dsimp only
  cases contract.user.find? (context.stringToUInt64 guiname) with
  | none => rfl
  | some row =>
    change (updater row >>= _) = _ <$> (updater row >>= fun updated =>
      MultiIndex.modify contract.user (some row) fun _ => updated)
    cases updater row <;> rfl

theorem editUser_hosted (hosts : HostsContract contract hosted) {guiname : ByteString} {missing : String}
    {updater : User → Except Abort User}
    (short : ∀ next printed, editUser context guiname missing updater contract = .ok (next, printed) →
      next.toTables.Short) :
    Matches .undefined HostsContract (Prod.swap <$> View.lift (editUser context guiname missing updater contract))
      (hosted.editUser context guiname missing updater) := by
  refine hosts.onUser (fun reason refused => ?_) fun signed => ⟨_, editUser_eq signed, editRow_onTable ?_⟩
  · rw [editUser, refused]
    rfl
  · intro row updated (found : contract.user.find? _ = some row) kept
      (same : row.primaryKey = updated.primaryKey)
    have held : (contract.user.find? updated.primaryKey).isSome := by
      rw [← same, Table.key_of_find? found, found]
      rfl
    have written : editedUser context guiname missing updater contract.user = .ok (contract.user.put updated) := by
      rw [editedUser, found]
      exact bind_eq_ok.mpr ⟨updated, kept, MultiIndex.modify_some.mpr ⟨same, held, rfl⟩⟩
    have called : editUser context guiname missing updater contract = _ := editUser_eq signed
    rw [written] at called
    exact (short _ _ called).user updated (Table.mem_put.mpr (.inl rfl))

theorem addhistory_eq (owner composition : Name) (object : HistoryObject) (type : ByteString) :
    addhistory context owner composition object type contract =
      (fun result => contract.setHistory owner.value result) <$>
        upserted context owner composition History.fresh (History.opened composition object type)
          (History.record object type) (contract.history owner.value) := by
  rw [addhistory, upserted]
  cases (contract.history owner.value).find? composition.value with
  | none =>
    dsimp only
    rw [History.packSize_packed, map_bind]
    rfl
  | some itr =>
    dsimp only
    rw [History.packSize_packed, History.packSize_packed, map_bind]
    rfl

theorem linkperm_eq (owner composition permName : Name) :
    linkperm context owner composition permName contract =
      (fun result => contract.setPermissions owner.value result) <$>
        upserted context owner composition Permissions.fresh (Permissions.linked composition permName)
          (Permissions.setPermName permName) (contract.permissions owner.value) := by
  rw [linkperm, upserted]
  cases (contract.permissions owner.value).find? composition.value with
  | none =>
    dsimp only
    rw [Permissions.packSize_packed, map_bind]
    rfl
  | some itr =>
    dsimp only
    rw [Permissions.packSize_packed, Permissions.packSize_packed, map_bind]
    rfl

theorem HostsContract.setHistory (hosts : HostsContract contract hosted) {scope : UInt64} {history : HistoryTable}
    {db : Db historySchema labelling} (represents : Represents db history) :
    HostsContract (contract.setHistory scope history)
      { hosted with history := Function.update hosted.history scope db } where
  user := hosts.user
  history other := by
    by_cases same : other = scope
    · subst same
      simpa [Contract.setHistory] using represents
    · simpa [Contract.setHistory, same] using hosts.history other
  permissions := hosts.permissions
  gstate := hosts.gstate

theorem HostsContract.setPermissions (hosts : HostsContract contract hosted) {scope : UInt64}
    {permissions : PermissionsTable} {db : Db permissionsSchema labelling} (represents : Represents db permissions) :
    HostsContract (contract.setPermissions scope permissions)
      { hosted with permissions := Function.update hosted.permissions scope db } where
  user := hosts.user
  history := hosts.history
  permissions other := by
    by_cases same : other = scope
    · subst same
      simpa [Contract.setPermissions] using represents
    · simpa [Contract.setPermissions, same] using hosts.permissions other
  gstate := hosts.gstate

theorem History.record_primaryKey (object : HistoryObject) (type : ByteString) (row : History) :
    row.primaryKey = (row.record object type).primaryKey := by
  rw [History.record]
  split
  · rfl
  · split
    · rfl
    · split <;> rfl

theorem addhistory_hosted (hosts : HostsContract contract hosted) {owner composition : Name} {object : HistoryObject}
    {type : ByteString}
    (short : ∀ next, addhistory context owner composition object type contract = .ok next → next.toTables.Short) :
    Matches .undefined HostsContract
      (Prod.swap <$> View.lift (silent (addhistory context owner composition object type contract)))
      (hosted.addhistory context owner composition object type) := by
  rw [addhistory_eq] at short ⊢
  have keyed : (History.fresh.opened composition object type).primaryKey = composition.value :=
    (History.record_primaryKey object type { History.fresh with composition }).symm
  have matched : Matches .undefined (fun table db => Represents db table)
      (Prod.mk () <$> View.lift (upserted context owner composition History.fresh
        (History.opened composition object type) (History.record object type) (contract.history owner.value)))
      ((upsert context owner composition History.fresh (History.opened composition object type)
        (History.record object type) : TableProgram historySchema Unit).onObject context.self
          (hosted.history owner.value)) := by
    refine upsert_matches (hosts.history owner.value) keyed (History.record_primaryKey object type) ?_
    intro next stored row present
    apply (short (contract.setHistory owner.value next) (by rw [stored]; rfl)).history owner.value
    simpa [Contract.setHistory] using present
  have shown := matched.project (fun _ => ([] : List Printed))
    (f := fun result => contract.setHistory owner.value result) fun _ _ represents => hosts.setHistory represents
  generalize upserted context owner composition History.fresh _ _ _ = stored at shown ⊢
  cases stored with
  | error reason => exact shown
  | ok result => exact shown

theorem linkperm_hosted (hosts : HostsContract contract hosted) {owner composition permName : Name}
    (short : ∀ next, linkperm context owner composition permName contract = .ok next → next.toTables.Short) :
    Matches .undefined HostsContract
      (Prod.swap <$> View.lift (silent (linkperm context owner composition permName contract)))
      (hosted.linkperm context owner composition permName) := by
  rw [linkperm_eq] at short ⊢
  have matched : Matches .undefined (fun table db => Represents db table)
      (Prod.mk () <$> View.lift (upserted context owner composition Permissions.fresh
        (Permissions.linked composition permName) (Permissions.setPermName permName)
        (contract.permissions owner.value)))
      ((upsert context owner composition Permissions.fresh (Permissions.linked composition permName)
        (Permissions.setPermName permName) : TableProgram permissionsSchema Unit).onObject context.self
          (hosted.permissions owner.value)) := by
    refine upsert_matches (hosts.permissions owner.value) rfl (fun _ => rfl) ?_
    intro next stored row present
    apply (short (contract.setPermissions owner.value next) (by rw [stored]; rfl)).permissions owner.value
    simpa [Contract.setPermissions] using present
  have shown := matched.project (fun _ => ([] : List Printed))
    (f := fun result => contract.setPermissions owner.value result) fun _ _ represents => hosts.setPermissions represents
  generalize upserted context owner composition Permissions.fresh _ _ _ = stored at shown ⊢
  cases stored with
  | error reason => exact shown
  | ok result => exact shown

/-- The actions that use no table. -/
def Action.tableless (action : Action) : Bool := action.configures || action.reads

theorem dispatch_alone {action : Action} (alone : action.tableless) :
    dispatch context contract action =
      (fun outcome => ({ contract with gstate := outcome.1.gstate }, outcome.2)) <$>
        dispatch context ⟨⟨.empty, fun _ => .empty, fun _ => .empty⟩, contract.gstate⟩ action := by
  cases action
  case sti => rfl
  case checkoff accountName =>
    rw [dispatch, dispatch, checkoff, checkoff]
    cases context.requireAuth accountName <;> rfl
  case addtemplateg =>
    rw [dispatch, dispatch, addtemplateg, addtemplateg]
    cases context.requireAuth context.self <;> rfl
  case addpluging =>
    rw [dispatch, dispatch, addpluging, addpluging]
    cases context.requireAuth context.self <;> rfl
  case upversiong =>
    rw [dispatch, dispatch, upversiong, upversiong]
    cases context.requireAuth context.self <;> rfl
  case rmpluging =>
    rw [dispatch, dispatch, rmpluging, rmpluging]
    cases context.requireAuth context.self <;> rfl
  all_goals cases alone

theorem alone_hosted (hosts : HostsContract contract hosted) {action : Action} (alone : action.tableless) :
    Matches .undefined HostsContract (Prod.swap <$> View.lift (dispatch context contract action))
      (hosted.alone context action) := by
  rw [dispatch_alone alone, HostContract.alone, hosts.gstate]
  cases dispatch context ⟨⟨.empty, fun _ => .empty, fun _ => .empty⟩, contract.gstate⟩ action with
  | error reason => exact .fails _
  | ok outcome => exact .answers outcome.2 ⟨⟨hosts.user, hosts.history, hosts.permissions⟩, rfl⟩

theorem dispatch_hosted (hosts : HostsContract contract hosted) (action : Action)
    (short : ∀ next printed, dispatch context contract action = .ok (next, printed) → next.toTables.Short) :
    Matches .undefined HostsContract (Prod.swap <$> View.lift (dispatch context contract action))
      (hosted.dispatch context action) := by
  have quiet {outcome : Except Abort Contract} (silenced : dispatch context contract action = silent outcome) (next)
      (committed : outcome = .ok next) : next.toTables.Short :=
    short next [] (silenced.trans (by rw [committed]; rfl))
  cases action
  case waversion => exact waversion_hosted hosts (quiet rfl)
  case adduser => exact adduser_hosted hosts short
  case rmusers => exact rmusers_hosted hosts
  case addhistory => exact addhistory_hosted hosts (quiet rfl)
  case linkperm => exact linkperm_hosted hosts (quiet rfl)
  case upversionu guiname =>
    rw [HostContract.dispatch, hosts.gstate]
    exact editUser_hosted hosts short
  case addtemplateg | addpluging | upversiong | rmpluging | sti | checkoff => exact alone_hosted hosts rfl
  all_goals exact editUser_hosted hosts short

/-! Transactions, and runs of them. -/

/-- The host keeps the tables and the global row. -/
structure Hosts (state : State) (hosted : HostState labelling) : Prop
    extends HostsTables state.toTables hosted.toHostTables where
  global : Represents hosted.global (Singleton.table globalName state.global)

structure State.Short (state : State) : Prop extends Tables.Short state.toTables where
  global : ∀ gstate, state.global = some gstate → Inery.packSize gstate < 2 ^ 31

/-- The constructor loads the global row, or takes the default one. -/
theorem run_loadGlobal {global : Option GlobalInfo} {object : World globalSchema labelling}
    (held : Singleton.Held ⟨global, true⟩ object) :
    ∃ after, loadGlobal.run object = .ok (global.getD {}, after) ∧ Singleton.Held ⟨global, true⟩ after := by
  obtain ⟨middle, asked, kept⟩ := (Singleton.exists_refines _ _ held).of_ok
  rw [loadGlobal, run_bind_ok asked]
  cases global with
  | none => exact ⟨middle, rfl, kept⟩
  | some gstate => exact (Singleton.get_refines _ _ kept).of_ok

/-- The destructor stores it. -/
theorem run_storeGlobal {global : Option GlobalInfo} {gstate : GlobalInfo} {object : World globalSchema labelling}
    (held : Singleton.Held ⟨global, true⟩ object) (short : Inery.packSize gstate < 2 ^ 31) :
    ∃ after, (Singleton.set gstate).run object = .ok ((), after) ∧ Singleton.Held ⟨some gstate, true⟩ after := by
  have stored : (Singleton.Cell.set gstate).run ⟨global, true⟩ = .ok ((), ⟨some gstate, true⟩) := by
    change Singleton.Cell.set gstate ⟨global, true⟩ = _
    rw [Singleton.Cell.set, if_pos rfl, if_pos short]
  have matched := Singleton.set_refines gstate _ _ held
  rw [stored] at matched
  exact matched.of_ok

theorem step_hosted {host : Host} {state : State} {hosted : HostState labelling} (hosts : Hosts state hosted) (tx : Tx)
    (short : ∀ next, step host state tx = some next → next.Short) :
    Option.Rel Hosts (step host state tx) (hosted.step host tx) := by
  have constructed : Singleton.Held ⟨state.global, true⟩ (hosted.global.object host.self host.self) :=
    ⟨hosts.global.object host.self host.self, iff_of_true rfl rfl⟩
  obtain ⟨object, loaded, held⟩ := run_loadGlobal constructed
  have tables : HostsContract (Contract.construct state) ⟨hosted.toHostTables, state.global.getD {}⟩ :=
    ⟨hosts.toHostsTables, rfl⟩
  have committed {contract : Contract} {printed : List Printed}
      (ran : dispatch (tx.context host) (Contract.construct state) tx.action = .ok (contract, printed)) :
      step host state tx = some contract.destruct := by
    rw [step, ran]
  have matched : Matches .undefined HostsContract
      (Prod.swap <$> View.lift (dispatch (tx.context host) (Contract.construct state) tx.action))
      (HostContract.dispatch (tx.context host) ⟨hosted.toHostTables, state.global.getD {}⟩ tx.action) :=
    dispatch_hosted tables tx.action fun next printed ran => (short _ (committed ran)).toShort
  cases outcome : dispatch (tx.context host) (Contract.construct state) tx.action with
  | error reason =>
    rw [outcome] at matched
    have stopped : HostContract.dispatch (tx.context host) ⟨hosted.toHostTables, state.global.getD {}⟩ tx.action =
        .error (.abort reason) := matched.of_error Fault.noConfusion
    have executed : hosted.execute host tx = .error (.abort reason) := by
      rw [HostState.execute, loaded]
      change (HostContract.dispatch (tx.context host) ⟨hosted.toHostTables, state.global.getD {}⟩ tx.action >>= _) = _
      rw [stopped]
      rfl
    rw [step, outcome, HostState.step, executed]
    exact .none
  | ok result =>
    obtain ⟨contract, printed⟩ := result
    rw [outcome] at matched
    obtain ⟨later, ran, kept⟩ := matched.of_ok
    obtain ⟨last, stored, keeps⟩ := run_storeGlobal held ((short _ (committed outcome)).global _ rfl)
    rw [← kept.gstate] at stored keeps
    have executed : hosted.execute host tx = .ok (printed, ⟨later.toHostTables, last.db⟩) := by
      rw [HostState.execute, loaded]
      change (HostContract.dispatch (tx.context host) ⟨hosted.toHostTables, state.global.getD {}⟩ tx.action >>= _) = _
      rw [ran]
      change ((Singleton.set later.gstate).run object >>= _) = _
      rw [stored]
      rfl
    have represents := keeps.coherent.toRepresents
    rw [kept.gstate] at represents
    rw [committed outcome, HostState.step, executed]
    exact .some ⟨kept.toHostsTables, represents⟩

theorem Hosts.initial (numbers : labelling.State) : Hosts State.initial (HostState.initial numbers) where
  user := .empty numbers
  history _ := .empty numbers
  permissions _ := .empty numbers
  global := .empty numbers

/-- Every run of the contract on its objects ends with the tables of the run without them, and commits the
same transactions on the way. -/
theorem reached_hosted (host : Host) (numbers : labelling.State) (txs : List Tx)
    (short : ∀ earlier, earlier <+: txs → (reached host earlier).Short) :
    Hosts (reached host txs) (run (HostState.step host) (HostState.initial numbers) txs) ∧
      List.Forall₂ (fun entry copy => entry.tx = copy.tx ∧ Hosts entry.after copy.after) (history host txs)
        (journal (HostState.step host) (HostState.initial numbers) txs) := by
  have each (state : State) (hosted : HostState labelling) (tx : Tx) (hosts : Hosts state hosted)
      (small : ∀ next, step host state tx = some next → next.Short) :
      Option.Rel Hosts (step host state tx) (HostState.step host hosted tx) := step_hosted hosts tx small
  exact run_related each (.initial numbers) short

/-! Runs whose rows stay short. -/

theorem Effect.elsewhere {action : Action} {next : Contract} {owner : Name}
    (effect : Effect context action contract next) (other : action.owner? ≠ some owner) :
    next.history owner.value = contract.history owner.value ∧
      next.permissions owner.value = contract.permissions owner.value := by
  cases effect with
  | @recorded owner' _ _ _ called _ result =>
    have apart : owner.value ≠ owner'.value := fun same => other (by rw [called, Name.value_inj.mp same]; rfl)
    rw [result, Contract.setHistory_history, if_neg apart]
    exact ⟨rfl, rfl⟩
  | @linked owner' _ _ called _ result =>
    have apart : owner.value ≠ owner'.value := fun same => other (by rw [called, Name.value_inj.mp same]; rfl)
    rw [result, Contract.setPermissions_permissions, if_neg apart]
    exact ⟨rfl, rfl⟩
  | registered _ _ _ result | edited _ _ _ _ _ result | upgraded _ _ _ result | cleared _ _ result
  | configured _ _ result | idle _ result =>
    subst result
    exact ⟨rfl, rfl⟩

/-- Who has never been the owner in an action has empty tables. -/
theorem reached_elsewhere {host : Host} {txs : List Tx} {owner : Name}
    (others : ∀ tx ∈ txs, tx.action.owner? ≠ some owner) :
    (reached host txs).history owner.value = .empty ∧ (reached host txs).permissions owner.value = .empty := by
  refine run_invariant (motive := fun (state : State) =>
      state.history owner.value = .empty ∧ state.permissions owner.value = .empty)
    (fun (entry : Transition State Tx) => entry.tx.action.owner? ≠ some owner) ⟨rfl, rfl⟩ ?_ ?_
  · rintro state tx next ⟨history, permissions⟩ committed other
    obtain ⟨contract, effect, rfl⟩ := step_effect committed
    have kept := effect.elsewhere other
    exact ⟨kept.1.trans history, kept.2.trans permissions⟩
  · intro entry member
    exact others _ (step_of_mem_journal member).1

/-- It is enough to look at the users and at the tables of the owners. -/
theorem reached_short {host : Host} {txs : List Tx} {owners : List Name}
    (listed : ∀ tx ∈ txs, ∀ owner ∈ tx.action.owner?, owner ∈ owners)
    (user : ∀ row ∈ (reached host txs).user.rows, Inery.packSize row < 2 ^ 31)
    (history : ∀ owner ∈ owners, ∀ row ∈ ((reached host txs).history owner.value).rows, Inery.packSize row < 2 ^ 31)
    (permissions : ∀ owner ∈ owners, ∀ row ∈ ((reached host txs).permissions owner.value).rows,
      Inery.packSize row < 2 ^ 31)
    (global : ∀ gstate ∈ (reached host txs).global, Inery.packSize gstate < 2 ^ 31) : (reached host txs).Short := by
  have nothing (scope : UInt64) (unlisted : ⟨scope⟩ ∉ owners) :
      (reached host txs).history scope = .empty ∧ (reached host txs).permissions scope = .empty :=
    @reached_elsewhere host txs ⟨scope⟩ fun tx member owns => unlisted (listed tx member _ owns)
  refine ⟨⟨user, fun scope => ?_, fun scope => ?_⟩, global⟩
  · by_cases owns : ⟨scope⟩ ∈ owners
    · exact history ⟨scope⟩ owns
    · rw [(nothing scope owns).1]
      exact fun _ member => absurd member List.not_mem_nil
  · by_cases owns : ⟨scope⟩ ∈ owners
    · exact permissions ⟨scope⟩ owns
    · rw [(nothing scope owns).2]
      exact fun _ member => absurd member List.not_mem_nil

/-- Two users register and one of them gets a server, while Alice and Bob record what they did. -/
def staffed : List Tx :=
  [.signed registry.self (.adduser gui password "V-1.0.0"), .signed alice (.addhistory alice bob ⟨1, "t1", ⟨0⟩⟩ "create"),
    .signed registry.self (.adduser second otherPassword "V-1.0.0"), .signed bob (.linkperm bob alice alice),
    .signed bob (.addhistory bob bob ⟨2, "t2", ⟨0⟩⟩ "update"), .signed registry.self (.addserver gui "server"),
    .signed alice (.addhistory alice bob ⟨3, "t3", ⟨0⟩⟩ "delete")]

theorem staffed_short (earlier : List Tx) (before : earlier <+: staffed) : (reached registry earlier).Short := by
  have each : ∀ earlier ∈ staffed.inits,
      (∀ row ∈ (reached registry earlier).user.rows, Inery.packSize row < 2 ^ 31) ∧
      (∀ owner ∈ [alice, bob], ∀ row ∈ ((reached registry earlier).history owner.value).rows,
        Inery.packSize row < 2 ^ 31) ∧
      (∀ owner ∈ [alice, bob], ∀ row ∈ ((reached registry earlier).permissions owner.value).rows,
        Inery.packSize row < 2 ^ 31) ∧
      ∀ gstate ∈ (reached registry earlier).global, Inery.packSize gstate < 2 ^ 31 := by decide +kernel
  obtain ⟨user, history, permissions, global⟩ := each earlier ((List.mem_inits _ _).mpr before)
  refine reached_short (fun tx member => ?_) user history permissions global
  exact (by decide : ∀ tx ∈ staffed, ∀ owner ∈ tx.action.owner?, owner ∈ [alice, bob]) tx (before.subset member)

theorem staffed_hosted :
    Hosts (reached registry staffed) (run (HostState.step registry) (HostState.initial noNumbers) staffed) ∧
      List.Forall₂ (fun entry copy => entry.tx = copy.tx ∧ Hosts entry.after copy.after) (history registry staffed)
        (journal (HostState.step registry) (HostState.initial noNumbers) staffed) ∧
      (history registry staffed).length = 7 :=
  have hosted := reached_hosted registry noNumbers staffed staffed_short
  ⟨hosted.1, hosted.2, by decide +kernel⟩

end LocalChain.Inerygui
