import LocalChain.K2ultra.MessagesRun
import LocalChain.K2ultra.ProfilesObject
import LocalChain.K2ultra.Recovery
import Mathlib.Data.List.Infix

/-! The actions on profiles do on the object what they do on the table, along every run. -/
namespace LocalChain.K2ultra

open LocalChain.Inery LocalChain.Inery.MultiIndex LocalChain.Store LocalChain.Refine
open TableObject (Represents)
open TableProgram

variable {labelling : Labelling UInt64} {host : Host} {context : Context} {action : Action} {state next : State}
  {table : ProfileTable labelling} {owner : Name}

/-- The host keeps the profiles. -/
def HostsProfiles (state : State) (table : ProfileTable labelling) : Prop := Represents table state.profiles

/-- Every profile can be packed. -/
def State.ShortProfiles (state : State) : Prop := ∀ row ∈ state.profiles.rows, packSize row < 2 ^ 31

/-- The actions that write to `_profiles`, or answer from it alone. -/
def Action.onProfiles : Action → Bool
  | .login .. | .getuserbyhash .. => true
  | action => action.writesProfiles

/-! Programs on the table. -/

theorem run_requireProfile (view : View profilesSchema) (missing : String) :
    ((requireProfile owner missing).run View.step .abort).run view =
      (fun _ => ((), found view owner.value)) <$> View.lift (check (view.table.find? owner.value).isSome missing) := by
  rw [requireProfile, run_lookup_bind]
  change (Program.run View.step .abort (liftM (check (view.table.find? owner.value).isSome missing))).run _ = _
  cases (view.table.find? owner.value).isSome <;> rfl

theorem requireProfile_onTable (profiles : ProfilesTable) (missing : String) :
    (requireProfile owner missing).onTable profiles =
      (fun _ => ((), profiles)) <$> View.lift (check (profiles.find? owner.value).isSome missing) := by
  rw [onTable, run_requireProfile]
  change outcome ((fun _ => _) <$> View.lift (check (profiles.find? owner.value).isSome missing)) = _
  cases check (profiles.find? owner.value).isSome missing <;> rfl

/-- The owner whose words have a hash. -/
def foundOwner (profiles : ProfilesTable) (stivalue : UInt64) : Except Abort Name :=
  match profiles.indexFind Profiles.byTwords stivalue with
  | none => throw (.check "User not found")
  | some itr =>
    match profiles.find? itr.owner.value with
    | none => throw (.check "unable to find key")
    | some foundUser => return foundUser.owner

/-- The profile that the index finds is looked up once more, by its owner. -/
theorem ownerByHash_onTable (profiles : ProfilesTable) (stivalue : UInt64) :
    (ownerByHash stivalue).onTable profiles =
      (fun owner => (owner, profiles)) <$> View.lift (foundOwner profiles stivalue) := by
  rw [foundOwner]
  let view : View profilesSchema := View.start profiles true
  generalize sought : profiles.indexFind Profiles.byTwords stivalue = found?
  have looked : (View.step (.find itr (.index twordsIndex stivalue))).run view = .ok ((), view.place itr found?) := by
    rw [← sought]
    rfl
  have here : At (view.place itr found?) itr found? :=
    At.place fun row same => (Table.indexFind_eq_some.mp (sought.trans same)).1
  rw [onTable, ownerByHash, run_call looked, Program.run_bind, run_bind_ok (run_notEnd here (by decide))]
  cases found? with
  | none =>
    rw [Option.isSome_none, run_outcome_error (check_unmet _)]
    rfl
  | some row =>
    have asked : At ((view.place itr (some row)).place theEnd none) itr (some row) := here.elsewhere (by decide)
    rw [Option.isSome_some, run_outcome (check_met _), run_call asked.read]
    dsimp only
    cases again : profiles.find? row.owner.value with
    | none =>
      rw [run_call_error (run_get_missing again)]
      rfl
    | some foundUser =>
      rw [run_call (run_get again)]
      rfl

/-! The eight actions. -/

/-- A program that leaves the profiles of an action does to the object what the action does. -/
theorem silently_matches (hosts : HostsProfiles state table) {signer : Name} {program : TableProgram profilesSchema Unit}
    {body : Except Abort State}
    (does : context.requireAuth signer = .ok () →
      program.onTable state.profiles = (fun next => ((), next.profiles)) <$> View.lift body) :
    Matches .undefined HostsProfiles (Prod.swap <$> View.lift (silent (context.requireAuth signer >>= fun _ => body)))
      (table.silently context signer program) := by
  rw [ProfileTable.silently]
  cases signed : context.requireAuth signer with
  | error reason => exact .fails _
  | ok _ =>
    have matched : Matches .undefined _ (program.onTable state.profiles) (program.onObject context.self table) :=
      onObject_matches hosts program context.self
    rw [does signed] at matched
    change Matches _ _ _ (Prod.map (fun _ => []) id <$> program.onObject context.self table)
    cases body with
    | error reason =>
      rw [matched.of_error Fault.noConfusion]
      exact .fails _
    | ok next =>
      obtain ⟨later, ran, held⟩ := matched.of_ok
      rw [ran]
      exact .answers [] held

theorem reguser_hosted (hosts : HostsProfiles state table) {password twordhash rsaPub : ByteString}
    (short : ∀ next, reguser context owner password twordhash rsaPub state = .ok next → next.ShortProfiles) :
    Matches .undefined HostsProfiles
      (Prod.swap <$> View.lift (silent (reguser context owner password twordhash rsaPub state)))
      (table.dispatch context (.reguser owner password twordhash rsaPub)) := by
  refine silently_matches hosts fun signed => ?_
  let row := (Profiles.fresh (context.heap 0)).registered owner password (context.stringToUInt64 twordhash) rsaPub
  have small (absent : state.profiles.find? owner.value = none) : packSize row < 2 ^ 31 := by
    have stored : emplace state.profiles (Profiles.fresh (context.heap 0)) (Profiles.registered owner password
        (context.stringToUInt64 twordhash) rsaPub) = .ok (state.profiles.put row) := emplace_eq_ok.mpr ⟨absent, rfl⟩
    have free : check (state.profiles.find? owner.value).isNone
        "Account with that name is already registered!" = .ok () := by
      rw [absent]
      rfl
    have registered : reguser context owner password twordhash rsaPub state =
        .ok { state with profiles := state.profiles.put row } :=
      bind_eq_ok.mpr ⟨(), signed, bind_eq_ok.mpr ⟨(), free, bind_eq_ok.mpr ⟨_, stored, rfl⟩⟩⟩
    exact short _ registered _ (Table.mem_put.mpr (.inl rfl))
  have keyed : profilesSchema.primaryKey row = owner.value := rfl
  refine (addRow_onTable keyed small).trans ?_
  change _ = _ <$> View.lift (check (state.profiles.find? owner.value).isNone _ >>= fun _ =>
    emplace state.profiles (Profiles.fresh (context.heap 0)) (Profiles.registered owner password
      (context.stringToUInt64 twordhash) rsaPub) >>= fun profiles => return { state with profiles })
  generalize check (state.profiles.find? owner.value).isNone _ = checked
  generalize emplace state.profiles _ _ = stored
  cases checked <;> cases stored <;> rfl

theorem login_hosted (hosts : HostsProfiles state table) :
    Matches .undefined HostsProfiles (Prod.swap <$> View.lift (silent (login context owner state)))
      (table.dispatch context (.login owner)) := by
  refine silently_matches hosts fun _ => ?_
  rw [requireProfile_onTable]
  cases check (state.profiles.find? owner.value).isSome "Account is not registered" <;> rfl

theorem getuserbyhash_eq (s : ByteString) : getuserbyhash context s state = context.requireAuth context.self >>= fun _ =>
    (fun owner => (state, [.name owner])) <$> foundOwner state.profiles (context.stringToUInt64 s) := by
  rw [getuserbyhash, foundOwner]
  cases context.requireAuth context.self with
  | error reason => rfl
  | ok _ =>
    change (match state.profiles.indexFind Profiles.byTwords (context.stringToUInt64 s) with
      | none => _
      | some itr => _) = _
    cases state.profiles.indexFind Profiles.byTwords (context.stringToUInt64 s) with
    | none => rfl
    | some itr =>
      dsimp only
      cases state.profiles.find? itr.owner.value <;> rfl

theorem getuserbyhash_hosted (hosts : HostsProfiles state table) (s : ByteString) :
    Matches .undefined HostsProfiles (Prod.swap <$> View.lift (getuserbyhash context s state))
      (table.getuserbyhash context s) := by
  rw [ProfileTable.getuserbyhash, getuserbyhash_eq]
  cases context.requireAuth context.self with
  | error reason => exact .fails _
  | ok _ =>
    have matched : Matches .undefined _ _ ((ownerByHash (context.stringToUInt64 s)).onObject context.self table) :=
      onObject_matches hosts (ownerByHash (context.stringToUInt64 s)) context.self
    rw [ownerByHash_onTable] at matched
    change Matches _ _ (Prod.swap <$> View.lift ((fun owner => (state, [Printed.name owner])) <$>
        foundOwner state.profiles (context.stringToUInt64 s)))
      (Prod.map (fun owner => [Printed.name owner]) id <$> TableProgram.onObject _ context.self table)
    cases found : foundOwner state.profiles (context.stringToUInt64 s) with
    | error reason =>
      rw [found] at matched
      rw [matched.of_error Fault.noConfusion]
      exact .fails _
    | ok owner =>
      rw [found] at matched
      obtain ⟨later, ran, held⟩ := matched.of_ok
      rw [ran]
      exact .answers _ held

theorem deleteuser_hosted (hosts : HostsProfiles state table) :
    Matches .undefined HostsProfiles (Prod.swap <$> View.lift (silent (deleteuser context owner state)))
      (table.dispatch context (.deleteuser owner)) := by
  refine silently_matches hosts fun _ => ?_
  rw [removeRow_onTable, eraseAll_eq_ok]
  dsimp only
  generalize check (state.profiles.find? owner.value).isSome "User doesn't exist" = checked
  generalize erase state.profiles (state.profiles.find? owner.value) = removed
  cases checked <;> cases removed <;> rfl

theorem editProfile_hosted (hosts : HostsProfiles state table) {missing : String} {updater : Profiles → Profiles}
    (same : ∀ row, Profiles.primaryKey row = Profiles.primaryKey (updater row))
    (short : ∀ next, editProfile context owner missing updater state = .ok next → next.ShortProfiles) :
    Matches .undefined HostsProfiles
      (Prod.swap <$> View.lift (silent (editProfile context owner missing updater state)))
      (table.silently context owner (changeRow owner.value missing updater)) := by
  refine silently_matches hosts fun signed => ?_
  have small (row : Profiles) (held : state.profiles.find? owner.value = some row) : packSize (updater row) < 2 ^ 31 := by
    have there : (state.profiles.find? (Profiles.primaryKey (updater row))).isSome := by
      rw [← same row, Table.key_of_find? held, held]
      rfl
    have edited : editProfile context owner missing updater state = .ok { state with
        profiles := state.profiles.put (updater row) } := by
      rw [editProfile, signed, held]
      change (modify state.profiles (some row) updater >>= _) = _
      rw [modify_some.mpr ⟨same row, there, rfl⟩]
      rfl
    exact short _ edited _ (Table.mem_put.mpr (.inl rfl))
  rw [changeRow_onTable same small]
  dsimp only
  generalize check (state.profiles.find? owner.value).isSome missing = checked
  generalize modify state.profiles (state.profiles.find? owner.value) updater = written
  cases checked <;> cases written <;> rfl

theorem rrprofiles_hosted (hosts : HostsProfiles state table) :
    Matches .undefined HostsProfiles (Prod.swap <$> View.lift (silent (rrprofiles state)))
      (table.dispatch context .rrprofiles) := by
  have matched : Matches .undefined _ _
      ((eraseAll table.primary.rows.rows.length : TableProgram profilesSchema Unit).onObject context.self table) :=
    onObject_matches hosts _ context.self
  have counted : table.primary.rows.rows.length = state.profiles.rows.length := hosts.length_rows
  rw [counted, eraseAll_onTable] at matched
  obtain ⟨later, ran, held⟩ := matched.of_ok
  rw [ProfileTable.dispatch, counted, ran, rrprofiles, eraseAll_eq_ok]
  exact .answers [] held

theorem dispatch_profiles (hosts : HostsProfiles state table) (concerned : action.onProfiles)
    (short : ∀ next printed, dispatch context state action = .ok (next, printed) → next.ShortProfiles) :
    Matches .undefined HostsProfiles (Prod.swap <$> View.lift (dispatch context state action))
      (table.dispatch context action) := by
  have silently {outcome : Except Abort State} (same : dispatch context state action = silent outcome) (next : State)
      (committed : outcome = .ok next) : next.ShortProfiles := short next [] (by rw [same, committed]; rfl)
  cases action
  case reguser => exact reguser_hosted hosts (silently rfl)
  case login => exact login_hosted hosts
  case getuserbyhash s => exact getuserbyhash_hosted hosts s
  case deleteuser => exact deleteuser_hosted hosts
  case changersa => exact editProfile_hosted hosts (fun _ => rfl) (silently rfl)
  case setoffname => exact editProfile_hosted hosts (fun _ => rfl) (silently rfl)
  case changepsw => exact editProfile_hosted hosts (fun _ => rfl) (silently rfl)
  case rrprofiles => exact rrprofiles_hosted hosts
  all_goals cases concerned

/-! Runs. -/

theorem Action.writesProfiles_of_onProfiles (elsewhere : action.onProfiles = false) : action.writesProfiles = false := by
  cases action <;> first | exact elsewhere | rfl

theorem ProfileTable.step_eq (host : Host) (table : ProfileTable labelling) (tx : Tx) :
    ProfileTable.step host table tx = Prod.snd <$> (table.dispatch (tx.context host) tx.action).toOption := by
  rw [ProfileTable.step]
  cases table.dispatch (tx.context host) tx.action <;> rfl

theorem exec_profiles (hosts : HostsProfiles state table) (tx : Tx)
    (short : ∀ next, step host state tx = some next → next.ShortProfiles) :
    HostsProfiles (exec (step host) state tx) (exec (ProfileTable.step host) table tx) := by
  cases concerned : tx.action.onProfiles with
  | true =>
    exact exec_of_matches (ProfileTable.step_eq host table tx) (dispatch_profiles hosts concerned
      fun next printed committed => short next (step_eq_some.mpr ⟨printed, committed⟩)) hosts
  | false =>
    have ignored : table.dispatch (tx.context host) tx.action = .ok ([], table) := by
      cases action : tx.action <;> rw [action] at concerned <;> first | rfl | cases concerned
    rw [exec, exec, ProfileTable.step_eq, ignored]
    cases committed : step host state tx with
    | none => exact hosts
    | some next =>
      change Represents table next.profiles
      rw [(step_effect committed).profiles (Action.writesProfiles_of_onProfiles concerned)]
      exact hosts

theorem reached_profiles (host : Host) (numbers : labelling.State) (txs : List Tx)
    (short : ∀ earlier, earlier <+: txs → (reached host earlier).ShortProfiles) :
    HostsProfiles (reached host txs) (ProfileTable.reached host numbers txs) := by
  have start : HostsProfiles State.initial (.empty numbers) := .empty numbers
  rw [reached, ProfileTable.reached]
  exact run_alongside HostsProfiles State.ShortProfiles (fun _ _ tx hosts _ short => exec_profiles hosts tx short)
    start short

/-- In every run the object leaves the host with the profiles of the table, and an action on profiles
prints what it prints on the table or stops with the same message. -/
theorem profiles_on_objects (host : Host) (numbers : labelling.State) (txs : List Tx)
    (short : ∀ earlier, earlier <+: txs → (reached host earlier).ShortProfiles) :
    HostsProfiles (reached host txs) (ProfileTable.reached host numbers txs) ∧
      ∀ tx : Tx, tx.action.onProfiles → (∀ next, step host (reached host txs) tx = some next → next.ShortProfiles) →
        Matches .undefined HostsProfiles
          (Prod.swap <$> View.lift (dispatch (tx.context host) (reached host txs) tx.action))
          ((ProfileTable.reached host numbers txs).dispatch (tx.context host) tx.action) := by
  have hosts := reached_profiles host numbers txs short
  refine ⟨hosts, fun tx concerned small => dispatch_profiles hosts concerned fun next printed committed => ?_⟩
  exact small next (step_eq_some.mpr ⟨printed, committed⟩)

/-- Alice and Bob register, she changes her password, and he sets his name while Carol registers too. -/
def profiled : List Tx :=
  [.signed alice (.reguser alice "pw" "words" "rsa"), .signed bob (.reguser bob "wp" "other words" "key"),
    .signed alice (.changepsw alice "new"), .signed carol (.reguser carol "" "" ""),
    .signed bob (.setoffname bob "Bob")]

theorem profiled_short (earlier : List Tx) (before : earlier <+: profiled) :
    (reached chain earlier).ShortProfiles := by
  have each : ∀ earlier ∈ profiled.inits, ∀ row ∈ (reached chain earlier).profiles.rows, packSize row < 2 ^ 31 := by
    decide +kernel
  exact each earlier ((List.mem_inits _ _).mpr before)

/-- The host that they leave lets Bob in. -/
theorem profiled_login :
    ∃ table, (ProfileTable.reached chain noNumbers profiled).dispatch
        ((Tx.signed bob (.login bob)).context chain) (.login bob) = .ok ([], table) ∧
      HostsProfiles (reached chain profiled) table ∧
      (reached chain profiled).profiles.rows.map (fun row => (row.owner, row.password, row.officialName)) =
        ([(alice, "new", ""), (bob, "wp", "Bob"), (carol, "", "")] : List (Name × ByteString × ByteString)) := by
  have entered : dispatch ((Tx.signed bob (.login bob)).context chain) (reached chain profiled) (.login bob) =
      .ok (reached chain profiled, []) := rfl
  have unchanged (next : State) (committed : step chain (reached chain profiled) (.signed bob (.login bob)) = some next) :
      next.ShortProfiles := by
    obtain ⟨_, done⟩ := step_eq_some.mp committed
    obtain ⟨rfl, _⟩ := Prod.mk.inj (Except.ok.inj (entered.symm.trans done))
    exact profiled_short profiled List.prefix_rfl
  have answered : Matches .undefined HostsProfiles (Prod.swap <$> View.lift (dispatch _ (reached chain profiled) _)) _ :=
    (profiles_on_objects chain noNumbers profiled profiled_short).2 (.signed bob (.login bob)) rfl unchanged
  obtain ⟨table, ran, hosts⟩ := answered.of_ok
  exact ⟨table, ran, hosts, by decide +kernel⟩

end LocalChain.K2ultra
