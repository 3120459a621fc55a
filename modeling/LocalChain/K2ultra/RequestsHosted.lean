import LocalChain.K2ultra.ContractUse
import LocalChain.K2ultra.RequestsTable

/-! The actions on requests, which use an object for each of two tables. -/
namespace LocalChain.K2ultra

open LocalChain.Inery LocalChain.Inery.MultiIndex LocalChain.Store LocalChain.Refine
open TableProgram (At call itr outcome run_store run_lookup lookup)
open ObjectProgram (Fresh Ready)
open ContractProgram (first second onAdresses onRequests)

variable {context : Context} {state : State} {owner contact account : Name} {missing : String}
  {chosen : TableName → Nat} {views : Views TableName.schema} {object : Nat}

/-! Edits of one row. -/

theorem PerformsOn.edit {updater : Requests → Requests} (ready : Ready firstOnly views state.table) (neat : state.Neat)
    (same : ∀ row, (updater row).scope = row.scope) (small : ∀ row : Requests, row.Small → (updater row).Small) :
    PerformsOn views (onRequests first owner (changeContact contact missing updater))
      (quietly (editContact owner contact missing updater state)) := by
  have current : views.stale (.requests owner.value) first = false := ready.current _
  have table : (views.view (.requests owner.value) first).table = state.requests owner.value := congrFun ready.tables _
  have short (row : Requests) (there : (views.view (.requests owner.value) first).table.indexFind Requests.byContact
      contact.value = some row) : packSize (updater row) < 2 ^ 31 := by
    rw [table] at there
    exact (small row (neat.requests owner row.scope row (State.book_of_lookup there).1)).packSize_lt
  have ran : ((changeContact contact missing updater).run View.step .abort).run
      (views.view (.requests owner.value) first) = _ :=
    run_changeContact rfl same short
  rw [table] at ran
  rw [editContact]
  cases there : (state.requests owner.value).indexFind Requests.byContact contact.value with
  | none =>
    rw [there] at ran
    exact .fails current ran
  | some row =>
    rw [there] at ran
    have held : (state.requests owner.value).find? row.scope = some row :=
      Table.find?_self (Table.indexFind_eq_some.mp there).1
    dsimp only
    rw [held, modify_found (Table.find?_eq_some.mp held).1 (same row)]
    refine .ends current ran ?_
    rw [State.table_setRequests, ready.tables, ← table]
    rfl

theorem flagContact_performs {updater : Requests → Requests} (neat : state.Neat)
    (same : ∀ row, (updater row).scope = row.scope) (small : ∀ row : Requests, row.Small → (updater row).Small) :
    Performs state (ContractProgram.flagContact context owner contact updater)
      (quietly (flagContact context owner contact updater state)) := by
  refine .ofStart (.validate (.start _) fun after fresh _ => .guard fun _ => ?_)
  exact .edit (fresh.ready _) neat same small

theorem changealias_performs (neat : state.Neat) {newAlias : ByteString} (brief : Brief newAlias) :
    Performs state (ContractProgram.changealias context owner contact newAlias)
      (quietly (changealias context owner contact newAlias state)) := by
  refine .ofStart (.guard fun _ => ?_)
  exact .edit ((Fresh.start _).ready _) neat (fun _ => rfl) fun row small => ⟨brief, small.key⟩

/-! Requests between two accounts. -/

/-- The second object is the one for the requests of an account. -/
def secondFor (account : Name) (name : TableName) : Nat := if name = .requests account.value then second else first

theorem secondFor_self : second = secondFor account (.requests account.value) := (if_pos rfl).symm

theorem secondFor_apart (apart : owner ≠ account) : first = secondFor account (.requests owner.value) :=
  (if_neg fun same => apart (Name.value_inj.mp (TableName.requests.inj same))).symm

theorem secondFor_adresses : first = secondFor account .adresses := (if_neg TableName.noConfusion).symm

section Stores

variable {scope : UInt64} {fresh : Requests} {constructor : Requests → Requests}

theorem run_storeRow (scope : UInt64) (object : Nat) (tables : views.tables = state.table)
    (short : packSize (constructor fresh) < 2 ^ 31) :
    ((call (.emplace newRow fresh constructor) : TableProgram requestsSchema Unit).run View.step .abort).run
        (views.view (.requests scope) object) =
      (View.lift (emplace (state.requests scope) fresh constructor) >>= fun requests => .ok ((), View.place
        { views.view (.requests scope) object with
          table := requests
          next := View.pass (views.view (.requests scope) object).next (constructor fresh).scope } newRow
        (some (constructor fresh)))) := by
  have table : (views.view (.requests scope) object).table = state.requests scope := congrFun tables (.requests scope)
  rw [call, Program.run_ask, ← table]
  exact run_store rfl short

theorem storeRow_outcome (tables : views.tables = state.table) (short : packSize (constructor fresh) < 2 ^ 31) :
    outcome (((call (.emplace newRow fresh constructor) : TableProgram requestsSchema Unit).run View.step .abort).run
      (views.view (.requests scope) object)) =
      Prod.mk () <$> View.lift (emplace (state.requests scope) fresh constructor) := by
  rw [run_storeRow scope object tables short]
  exact outcome_written fun _ => rfl

theorem PerformsOn.store {following : Unit → ContractProgram Unit} {outcome : RequestsTable → Except Abort State}
    (picked : object = chosen (.requests scope)) (ready : Ready chosen views state.table)
    (short : packSize (constructor fresh) < 2 ^ 31)
    (rest : ∀ requests after, Ready chosen after (state.setRequests scope requests).table →
      PerformsOn after (following ()) (quietly (outcome requests))) :
    PerformsOn views
      (ObjectProgram.on (.requests scope) object (call (.emplace newRow fresh constructor)) >>= following)
      (quietly (emplace (state.requests scope) fresh constructor >>= outcome)) :=
  .writes (state.table_setRequests scope) picked ready (storeRow_outcome ready.tables short) rest

theorem PerformsOn.storeLast (current : views.stale (.requests scope) object = false) (tables : views.tables = state.table)
    (short : packSize (constructor fresh) < 2 ^ 31) :
    PerformsOn views (ObjectProgram.on (.requests scope) object (call (.emplace newRow fresh constructor)))
      (quietly (state.setRequests scope <$> emplace (state.requests scope) fresh constructor)) :=
  .writesLast (state.table_setRequests scope) current tables (storeRow_outcome tables short)

theorem PerformsOn.storeId (current : views.stale .adresses first = false) (tables : views.tables = state.table)
    (fresh : Adresses) :
    PerformsOn views (onAdresses (storeAdress fresh scope))
      (quietly ((fun adresses => { state with adresses }) <$>
        emplace state.adresses fresh fun row => { row with scope := scope })) := by
  have table : (views.view .adresses first).table = state.adresses := congrFun tables .adresses
  refine .writesLast state.table_adresses current tables ?_
  have ran : ((storeAdress fresh scope).run View.step .abort).run (views.view .adresses first) = _ :=
    run_storeAdress rfl fresh scope
  rw [ran, table]
  exact outcome_written fun _ => rfl

/-- The second object for the table misses the row. -/
theorem PerformsOn.storeBeside {following : Unit → ContractProgram Unit} {outcome : RequestsTable → Except Abort State}
    (current : views.stale (.requests scope) first = false) (tables : views.tables = state.table)
    (short : packSize (constructor fresh) < 2 ^ 31)
    (rest : ∀ requests after, emplace (state.requests scope) fresh constructor = .ok requests →
      after.tables = (state.setRequests scope requests).table → after.stale (.requests scope) second = true →
      PerformsOn after (following ()) (quietly (outcome requests))) :
    PerformsOn views
      (ObjectProgram.on (.requests scope) first (call (.emplace newRow fresh constructor)) >>= following)
      (quietly (emplace (state.requests scope) fresh constructor >>= outcome)) := by
  have ran := run_storeRow scope first tables short
  cases stored : emplace (state.requests scope) fresh constructor with
  | error reason =>
    rw [stored] at ran
    exact .stops current ran
  | ok requests =>
    rw [stored, call, Program.run_ask] at ran
    have ended := Views.step_current current (.emplace newRow fresh constructor)
    rw [ran, ← ObjectProgram.run_on_call] at ended
    rw [PerformsOn, Program.run_bind, run_bind_ok ended]
    refine rest requests _ stored ?_ ?_
    · rw [State.table_setRequests, ← tables]
      rfl
    · rw [Views.stale_settle_beside (by decide)]
      exact Bool.or_true _

theorem stored_held {requests : RequestsTable} {other : Requests}
    (stored : emplace (state.requests scope) fresh constructor = .ok requests)
    (same : other.scope = (constructor fresh).scope) :
    (((state.setRequests scope requests).requests scope).find? other.scope).isSome := by
  obtain ⟨_, rfl⟩ := emplace_eq_ok.mp stored
  have put : (state.setRequests scope ((state.requests scope).put (constructor fresh))).requests scope =
      (state.requests scope).put (constructor fresh) := Function.update_self ..
  have held : ((state.requests scope).put (constructor fresh)).find? (constructor fresh).scope = some (constructor fresh) :=
    Table.find?_put_self (state.requests scope) (constructor fresh)
  rw [put, same, held]
  rfl

/-- An object that has missed a row cannot store it again. -/
theorem run_storeAgain (stale : views.stale (.requests scope) second = true) (tables : views.tables = state.table)
    (short : packSize (constructor fresh) < 2 ^ 31)
    (held : ((state.requests scope).find? (constructor fresh).scope).isSome) :
    ((ObjectProgram.on (.requests scope) second (call (.emplace newRow fresh constructor)) : ContractProgram Unit).run
      Views.step .abort).run views = .error (.abort .duplicateKey) := by
  have table : views.tables (.requests scope) = state.requests scope := congrFun tables (.requests scope)
  rw [ObjectProgram.run_on_call, Views.step_stale stale rfl, Views.refuse, table, if_pos ⟨short, held⟩]

theorem PerformsOn.storeAgain {following : Unit → ContractProgram Unit} {outcome : RequestsTable → Except Abort State}
    (stale : views.stale (.requests scope) second = true) (tables : views.tables = state.table)
    (short : packSize (constructor fresh) < 2 ^ 31)
    (held : ((state.requests scope).find? (constructor fresh).scope).isSome) :
    PerformsOn views
      (ObjectProgram.on (.requests scope) second (call (.emplace newRow fresh constructor)) >>= following)
      (quietly (emplace (state.requests scope) fresh constructor >>= outcome)) := by
  have taken : emplace (state.requests scope) fresh constructor = .error .duplicateKey := emplace_taken held
  rw [PerformsOn, Program.run_bind, run_bind_error (run_storeAgain stale tables short held), taken]
  rfl

theorem PerformsOn.storeAgainLast {outcome : RequestsTable → State}
    (stale : views.stale (.requests scope) second = true) (tables : views.tables = state.table)
    (short : packSize (constructor fresh) < 2 ^ 31)
    (held : ((state.requests scope).find? (constructor fresh).scope).isSome) :
    PerformsOn views (ObjectProgram.on (.requests scope) second (call (.emplace newRow fresh constructor)))
      (quietly (outcome <$> emplace (state.requests scope) fresh constructor)) := by
  have taken : emplace (state.requests scope) fresh constructor = .error .duplicateKey := emplace_taken held
  rw [PerformsOn, run_storeAgain stale tables short held, taken]
  rfl

end Stores

theorem forcerequest_performs {scope : UInt64} {key1 key2 : ByteString} (brief1 : Brief key1) (brief2 : Brief key2) :
    Performs state (ContractProgram.forcerequest context scope owner contact key1 key2)
      (quietly (forcerequest context scope owner contact key1 key2 state)) := by
  have one : (Requests.forced scope contact key2 (Requests.fresh (context.heap 0))).Small := .forced brief2
  have two : (Requests.forced scope owner key1 (Requests.fresh (context.heap 1))).Small := .forced brief1
  have fresh : Fresh (Views.start state.table) state.table := .start _
  obtain rfl | apart := eq_or_ne owner contact
  · refine .ofStart (.storeBeside (fresh.current _ _) fresh.tables one.packSize_lt
        fun requests after stored tables stale => ?_)
    exact .storeAgainLast stale tables two.packSize_lt (stored_held stored rfl)
  · refine .ofStart (.store (secondFor_apart apart) (fresh.ready _) one.packSize_lt fun requests after ready => ?_)
    exact .storeLast (secondFor_self ▸ ready.current _) ready.tables two.packSize_lt

/-- No row may name the contact. -/
theorem PerformsOn.seekNone {message : String} {following : Unit → ContractProgram Unit}
    {outcome : Unit → Except Abort State} (fresh : Fresh views state.table)
    (rest : ∀ after, Fresh after state.table → PerformsOn after (following ()) (quietly (outcome ()))) :
    PerformsOn views (onRequests object owner (seekContact contact) >>= fun there =>
        liftM (check (!there) message) >>= following)
      (quietly (check ((state.requests owner.value).indexFind Requests.byContact contact.value).isNone message >>=
        outcome)) := by
  have table : (views.view (.requests owner.value) object).table = state.requests owner.value := congrFun fresh.tables _
  have ran := run_seekContact (views.view (.requests owner.value) object) contact
  rw [table] at ran
  refine .reads seekContact_only fresh ran table fun after fresh _ => ?_
  rw [Option.not_isSome]
  exact .guard fun _ => rest after fresh

theorem sendrequest_performs {key : ByteString} (brief : Brief key) :
    Performs state (ContractProgram.sendrequest context owner contact key)
      (quietly (sendrequest context owner contact key state)) := by
  have own (scope : UInt64) : (Requests.sent scope contact (Requests.fresh (context.heap 1))).Small := .sent
  have theirs (scope : UInt64) : (Requests.received scope owner key (Requests.fresh (context.heap 0))).Small :=
    .received brief
  refine .ofStart (.guard fun _ => .validate (.start _) fun views fresh same => ?_)
  have started : views.view .adresses first = View.start state.adresses true := same .adresses TableName.noConfusion first
  generalize granted : availablePrimaryKey unsetNextPrimaryKey state.adresses = answer
  cases answer with
  | error reason =>
    have refused : ((call .availablePrimaryKey : TableProgram adressesSchema UInt64).run View.step .abort).run
        (views.view .adresses first) = .error (.abort reason) := by
      rw [started, call, Program.run_ask]
      exact TableProgram.run_available_error granted
    exact .stops (fresh.current .adresses first) refused
  | ok scope =>
    have asked : ((call .availablePrimaryKey : TableProgram adressesSchema UInt64).run View.step .abort).run
        (views.view .adresses first) =
          .ok (scope, { (views.view .adresses first : View adressesSchema) with next := scope }) := by
      rw [started, call, Program.run_ask]
      exact TableProgram.run_available granted
    have only : (call .availablePrimaryKey : TableProgram adressesSchema UInt64).Only
        fun command => command.writes = true → false = true := ⟨id, fun _ => trivial⟩
    refine .reads only fresh asked (congrFun fresh.tables .adresses) fun after fresh _ => ?_
    refine .seekNone fresh fun after fresh => .seekNone fresh fun after fresh => ?_
    obtain rfl | apart := eq_or_ne owner contact
    · refine .storeBeside (fresh.current _ _) fresh.tables (theirs scope).packSize_lt
        fun requests after stored tables stale => ?_
      exact .storeAgain stale tables (own scope).packSize_lt (stored_held stored rfl)
    · refine .store (secondFor_apart apart.symm) (fresh.ready _) (theirs scope).packSize_lt fun requests after ready => ?_
      refine .store secondFor_self ready (own scope).packSize_lt fun requests after ready => ?_
      exact .storeId (secondFor_adresses ▸ ready.current .adresses) ready.tables _

/-! Answers. -/

section Erasures

variable {scope : UInt64} {program : TableProgram requestsSchema Unit}

/-- A row goes, if it is there. -/
theorem PerformsOn.erases {following : Unit → ContractProgram Unit}
    {rest : Option Requests × RequestsTable → Except Abort State} (picked : object = chosen (.requests owner.value))
    (ready : Ready chosen views state.table)
    (ended : outcome ((program.run View.step .abort).run (views.view (.requests owner.value) object)) =
      (fun erased => ((), erased.2)) <$> View.lift
        (erase (state.requests owner.value) ((state.requests owner.value).find? scope)))
    (goes : ∀ erased after, Ready chosen after (state.setRequests owner.value erased.2).table →
      (∀ other, other ≠ .requests owner.value → ∀ place, after.view other place = views.view other place) →
      PerformsOn after (following ()) (quietly (rest erased))) :
    PerformsOn views (onRequests object owner program >>= following)
      (quietly (erase (state.requests owner.value) ((state.requests owner.value).find? scope) >>= rest)) := by
  cases erased : erase (state.requests owner.value) ((state.requests owner.value).find? scope) with
  | error reason =>
    rw [erased] at ended
    exact .stops (picked ▸ ready.current _) (TableProgram.outcome_eq_error.mp ended)
  | ok result =>
    rw [erased] at ended
    obtain ⟨later, ran, gone⟩ := TableProgram.outcome_eq_ok.mp ended
    refine .on picked ready ran ?_ fun after ready _ kept => goes result after ready kept
    rw [gone, State.table_setRequests]

theorem PerformsOn.erasesLast (current : views.stale (.requests owner.value) object = false)
    (tables : views.tables = state.table)
    (ended : outcome ((program.run View.step .abort).run (views.view (.requests owner.value) object)) =
      (fun erased => ((), erased.2)) <$> View.lift
        (erase (state.requests owner.value) ((state.requests owner.value).find? scope))) :
    PerformsOn views (onRequests object owner program)
      (quietly (erase (state.requests owner.value) ((state.requests owner.value).find? scope) >>= fun erased =>
        .ok (state.setRequests owner.value erased.2))) := by
  cases erased : erase (state.requests owner.value) ((state.requests owner.value).find? scope) with
  | error reason =>
    rw [erased] at ended
    exact .fails current (TableProgram.outcome_eq_error.mp ended)
  | ok result =>
    rw [erased] at ended
    obtain ⟨later, ran, gone⟩ := TableProgram.outcome_eq_ok.mp ended
    refine .ends current ran ?_
    rw [gone, tables, State.table_setRequests]

end Erasures

/-- The accounts of a contact row are two. -/
theorem State.Neat.distinct (neat : state.Neat) {row : Requests}
    (there : (state.requests owner.value).indexFind Requests.byContact contact.value = some row) : owner ≠ contact := by
  obtain ⟨held, rfl⟩ := State.book_of_lookup there
  exact (neat.apart owner row.scope row held).symm

theorem PerformsOn.seekScope {following : UInt64 → ContractProgram Unit} {row : Requests}
    {result : Except Abort (Unit × State)}
    (picked : first = chosen (.requests owner.value)) (ready : Ready chosen views state.table)
    (there : (state.requests owner.value).indexFind Requests.byContact contact.value = some row)
    (rest : ∀ after, Ready chosen after state.table → PerformsOn after (following row.scope) result) :
    PerformsOn views (onRequests first owner (contactScope contact missing) >>= following) result := by
  have table : (views.view (.requests owner.value) first).table = state.requests owner.value := congrFun ready.tables _
  have asked : ((contactScope contact missing).run View.step .abort).run (views.view (.requests owner.value) first) = _ :=
    run_contactScope (views.view (.requests owner.value) first) contact
  rw [table, there] at asked
  exact .on picked ready asked (state.table_read table) fun after ready _ _ => rest after ready

theorem PerformsOn.seekNowhere {following : UInt64 → ContractProgram Unit} (fresh : Fresh views state.table)
    (absent : (state.requests owner.value).indexFind Requests.byContact contact.value = none) :
    PerformsOn views (onRequests first owner (contactScope contact missing) >>= following) (.error (.check missing)) := by
  have table : (views.view (.requests owner.value) first).table = state.requests owner.value := congrFun fresh.tables _
  have asked : ((contactScope contact missing).run View.step .abort).run (views.view (.requests owner.value) first) = _ :=
    run_contactScope (views.view (.requests owner.value) first) contact
  rw [table, absent] at asked
  exact .stops (fresh.current _ _) asked

theorem rmcontact_performs (neat : state.Neat) : Performs state (ContractProgram.rmcontact context owner contact)
    (quietly (rmcontact context owner contact state)) := by
  refine .ofStart (.guard fun _ => ?_)
  have fresh : Fresh (Views.start state.table) state.table := .start _
  dsimp only
  cases there : (state.requests owner.value).indexFind Requests.byContact contact.value with
  | none => exact .seekNowhere fresh there
  | some row =>
    have apart := neat.distinct there
    have mine : first = secondFor contact (.requests owner.value) := secondFor_apart apart
    refine .seekScope mine (fresh.ready _) there fun views ready => ?_
    have mineTable : (views.view (.requests owner.value) first).table = state.requests owner.value :=
      congrFun ready.tables _
    refine .on mine ready run_findByKey (state.table_read mineTable) fun both ready here _ => ?_
    have theirsTable : (both.view (.requests contact.value) second).table = state.requests contact.value :=
      congrFun ready.tables _
    refine .on secondFor_self ready run_findByKey (state.table_read theirsTable) fun after ready there same => ?_
    have mineKeyed : after.view (.requests owner.value) first =
        keyed (views.view (.requests owner.value) first) row.scope :=
      (same _ (requests_apart apart).symm first).trans here
    dsimp only
    refine .erases mine ready ?_ fun erased last ready kept => ?_
    · rw [mineKeyed, ← mineTable]
      exact eraseByKey_outcome rfl
    · have theirsKeyed : last.view (.requests contact.value) second =
          keyed (both.view (.requests contact.value) second) row.scope :=
        (kept _ (requests_apart apart) second).trans there
      have beside := state.setRequests_beside apart erased.2
      rw [← beside] at theirsTable ⊢
      refine .erasesLast (secondFor_self ▸ ready.current _) ready.tables ?_
      rw [theirsKeyed, ← theirsTable]
      exact eraseByKey_outcome rfl

/-- The rows of both accounts are written. -/
theorem accept_performs {key : ByteString} {scope : UInt64} {row : Requests} (neat : state.Neat) (brief : Brief key)
    (apart : owner ≠ contact) (ready : Ready (secondFor contact) views state.table)
    (held : (state.requests owner.value).find? scope = some row) :
    PerformsOn views (do
        let there ← onRequests second contact (lookup scope)
        check there "Request dont exists"
        let row ← onRequests second contact (call (.read itr))
        check (!row.cntct) "You are already contacts"
        onRequests second contact (call (.modify itr (Requests.answered key)))
        onRequests first owner (modifyByKey scope Requests.confirmed))
      (quietly (match (state.requests contact.value).find? scope with
        | none => throw (.check "Request dont exists")
        | some newReqIt => do
          check (!newReqIt.cntct) "You are already contacts"
          let responders ← modify (state.requests contact.value) (some newReqIt) (Requests.answered key)
          let answered := state.setRequests contact.value responders
          let owners ← modify (answered.requests owner.value) (some row) Requests.confirmed
          return answered.setRequests owner.value owners)) := by
  have theirsTable : (views.view (.requests contact.value) second).table = state.requests contact.value :=
    congrFun ready.tables _
  have looked : ((lookup scope).run View.step .abort).run (views.view (.requests contact.value) second) = _ :=
    run_lookup scope
  rw [theirsTable] at looked
  have at_theirs := TableProgram.At.looked (views.view (.requests contact.value) second) scope
  rw [theirsTable] at at_theirs
  refine .on secondFor_self ready looked (state.table_read theirsTable) fun middle ready here kept => ?_
  rw [← here] at at_theirs
  have mineTable : (middle.view (.requests owner.value) first).table = state.requests owner.value := congrFun ready.tables _
  have sameTable : (middle.view (.requests contact.value) second).table = state.requests contact.value :=
    congrFun ready.tables _
  cases theirs : (state.requests contact.value).find? scope with
  | none => rfl
  | some other =>
    rw [theirs] at at_theirs
    have read : ((call (.read itr) : TableProgram requestsSchema Requests).run View.step .abort).run
        (middle.view (.requests contact.value) second) = .ok (other, middle.view (.requests contact.value) second) := by
      rw [call, Program.run_ask]
      exact at_theirs.read
    change PerformsOn middle (onRequests second contact (call (.read itr)) >>= fun row =>
      liftM (check (!row.cntct) "You are already contacts") >>= _) (quietly (check (!other.cntct) _ >>= _))
    refine .on secondFor_self ready read (state.table_read sameTable) fun last ready there same => .guard fun _ => ?_
    have shortTheirs : packSize (other.answered key) < 2 ^ 31 :=
      ((neat.requests contact scope other theirs).answered brief).packSize_lt
    have shortMine : packSize row.confirmed < 2 ^ 31 := (neat.requests owner scope row held).confirmed.packSize_lt
    have written : ((call (.modify itr (Requests.answered key)) : TableProgram requestsSchema Unit).run View.step .abort).run
        (last.view (.requests contact.value) second) =
          .ok ((), (middle.view (.requests contact.value) second).rewrite other (Requests.answered key)) := by
      rw [call, Program.run_ask, there]
      exact at_theirs.modify rfl rfl shortTheirs
    rw [modify_found (Table.find?_eq_some.mp theirs).1 rfl]
    have left : (state.setRequests contact.value ((state.requests contact.value).put (other.answered key))).table =
        Function.update state.table (.requests contact.value)
          ((middle.view (.requests contact.value) second).rewrite other (Requests.answered key)).table := by
      rw [State.table_setRequests, ← sameTable]
      rfl
    refine .on secondFor_self ready written left fun after ready _ kept => ?_
    have beside := state.setRequests_beside apart.symm ((state.requests contact.value).put (other.answered key))
    have mineTable : (after.view (.requests owner.value) first).table = state.requests owner.value :=
      (congrFun ready.tables _).trans beside
    have found := held
    rw [← mineTable] at found
    have confirmed := run_modifyByKey rfl found rfl shortMine
    change PerformsOn after _ (quietly (modify ((state.setRequests contact.value _).requests owner.value)
      (some row) _ >>= _))
    rw [beside, modify_found (Table.find?_eq_some.mp held).1 rfl]
    refine .ends (secondFor_apart apart ▸ ready.current _) confirmed ?_
    have rewritten : ((keyed (after.view (.requests owner.value) first) scope).rewrite row Requests.confirmed).table =
        (state.requests owner.value).put row.confirmed := congrArg (Table.put · row.confirmed) mineTable
    rw [ready.tables, rewritten]
    exact State.table_setRequests ..

/-- The rows of both accounts go. -/
theorem refuse_performs {scope : UInt64} (apart : owner ≠ contact) (ready : Ready (secondFor contact) views state.table) :
    PerformsOn views (do
        onRequests first owner (dropByKey scope)
        onRequests second contact (dropByKey scope))
      (quietly (do
        let (_, owners) ← erase (state.requests owner.value) ((state.requests owner.value).find? scope)
        let erased := state.setRequests owner.value owners
        let responders := erased.requests contact.value
        let (_, responders) ← erase responders (responders.find? scope)
        return erased.setRequests contact.value responders)) := by
  have mineTable : (views.view (.requests owner.value) first).table = state.requests owner.value := congrFun ready.tables _
  dsimp only
  refine .erases (secondFor_apart apart) ready ?_ fun erased after ready kept => ?_
  · rw [← mineTable]
    exact dropByKey_outcome rfl
  · have theirsTable : (after.view (.requests contact.value) second).table =
        (state.setRequests owner.value erased.2).requests contact.value := congrFun ready.tables _
    refine .erasesLast (secondFor_self ▸ ready.current _) ready.tables ?_
    rw [← theirsTable]
    exact dropByKey_outcome rfl

theorem resprequest_performs {key : ByteString} {accept : Bool} (neat : state.Neat) (brief : Brief key) :
    Performs state (ContractProgram.resprequest context owner contact key accept)
      (quietly (resprequest context owner contact key accept state)) := by
  refine .ofStart (.guard fun _ => .require (.start _) fun _ fresh _ => .require fresh fun views fresh _ => ?_)
  dsimp only
  cases there : (state.requests owner.value).indexFind Requests.byContact contact.value with
  | none => exact .seekNowhere fresh there
  | some row =>
    have apart := neat.distinct there
    refine .seekScope (secondFor_apart apart) (fresh.ready _) there fun after ready => ?_
    cases accept with
    | true =>
      have held : (state.requests owner.value).find? row.scope = some row :=
        Table.find?_self (Table.indexFind_eq_some.mp there).1
      have accepted := accept_performs neat brief apart ready held
      rw [← held] at accepted
      exact accepted
    | false => exact refuse_performs apart ready

end LocalChain.K2ultra
