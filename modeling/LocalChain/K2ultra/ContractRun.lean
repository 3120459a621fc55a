import LocalChain.K2ultra.CascadeHosted

/-! Every run leaves the host with the tables of the run on states, and answers alike. -/
namespace LocalChain.K2ultra

open LocalChain.Inery LocalChain.Inery.MultiIndex LocalChain.Store LocalChain.Refine
open TableObject (Represents)

variable {labelling : Labelling UInt64} {host : Host} {context : Context} {action : Action} {state : State}
  {tables : ContractTables labelling} {txs : List Tx}

/-- The host has every table of the contract. -/
def HostsContract (state : State) (tables : ContractTables labelling) : Prop := ObjectProgram.Hosts state.table tables

/-! Every action. -/

theorem Performs.silently {program : ContractProgram Unit} {outcome : Except Abort State}
    (performs : Performs state program (quietly outcome)) :
    Performs state (ContractProgram.silently program) (Prod.swap <$> silent outcome) := by
  have silenced := performs.map fun _ => ([] : List Printed)
  cases outcome <;> exact silenced

/-- The objects of an action do what it does to the state. -/
theorem dispatch_performs {rows : TableName → Nat} (neat : state.Neat)
    (counted : ∀ name, rows name = (state.table name).rows.length) (brief : action.brief) :
    Performs state (ContractProgram.dispatch context rows action) (Prod.swap <$> dispatch context state action) := by
  cases action
  case reguser owner password twordhash rsaPub =>
    exact (reguser_performs (brief _ List.mem_cons_self) (brief _ (List.mem_cons_of_mem _ List.mem_cons_self))).silently
  case login => exact login_performs.silently
  case getuserbyhash s => exact getuserbyhash_performs s
  case deleteuser owner => exact (deleteuser_performs (counted (.requests owner.value))).silently
  case deletereqs owner => exact (deletereqs_performs neat (counted (.requests owner.value))).silently
  case deletereqs2 => exact deletereqs2_performs.silently
  case changersa owner rsaPub =>
    have edited : Performs state _ (quietly (changersa context owner rsaPub state)) :=
      editProfile_performs neat (fun row => { row with rsaPub }) (fun _ => rfl) fun row small =>
        ⟨small.officialName, small.password, brief _ List.mem_cons_self, small.lists⟩
    exact edited.silently
  case changepsw owner password =>
    have edited : Performs state _ (quietly (changepsw context owner password state)) :=
      editProfile_performs neat (fun row => { row with password }) (fun _ => rfl) fun row small =>
        ⟨small.officialName, brief _ List.mem_cons_self, small.rsaPub, small.lists⟩
    exact edited.silently
  case setoffname owner officialName =>
    have edited : Performs state _ (quietly (setoffname context owner officialName state)) :=
      editProfile_performs neat (fun row => { row with officialName }) (fun _ => rfl) fun row small =>
        ⟨brief _ List.mem_cons_self, small.password, small.rsaPub, small.lists⟩
    exact edited.silently
  case sendrequest => exact (sendrequest_performs (brief _ List.mem_cons_self)).silently
  case resprequest => exact (resprequest_performs neat (brief _ List.mem_cons_self)).silently
  case rmcontact => exact (rmcontact_performs neat).silently
  case blockcontact owner contact status =>
    exact (flagContact_performs neat (fun _ => by cases status <;> rfl) fun row small => small.edited rfl brief).silently
  case favcontact owner contact status =>
    exact (flagContact_performs neat (fun _ => by cases status <;> rfl) fun row small => small.edited rfl brief).silently
  case mutecontact owner contact status =>
    exact (flagContact_performs neat (fun _ => by cases status <;> rfl) fun row small => small.edited rfl brief).silently
  case changealias => exact (changealias_performs neat (brief _ List.mem_cons_self)).silently
  case sendmsg => exact sendmsg_performs (brief _ List.mem_cons_self)
  case pushmsg => exact (pushmsg_performs (brief _ List.mem_cons_self)).silently
  case getunseen => exact getunseen_performs
  case seenmsg => exact seenmsg_performs neat.messages
  case deletemesgs scope => exact (deletemesgs_performs (counted (.messages scope))).silently
  case rraddr => exact (rraddr_performs (counted .adresses)).silently
  case addadr => exact addadr_performs.silently
  case pump max => exact (pump_performs max).silently
  case rrprofiles => exact (rrprofiles_performs (counted .profiles)).silently
  case forcerequest =>
    exact (forcerequest_performs (brief _ List.mem_cons_self) (brief _ (List.mem_cons_of_mem _ List.mem_cons_self))).silently

theorem dispatch_contract (hosts : HostsContract state tables) (neat : state.Neat) (brief : action.brief) :
    Matches .undefined HostsContract (Prod.swap <$> View.lift (dispatch context state action))
      (tables.dispatch context action) := by
  let program := ContractProgram.dispatch context (fun name => (tables name).primary.rows.rows.length) action
  have performs : Performs state program _ := dispatch_performs neat (fun name => (hosts name).length_rows) brief
  have matched := ObjectProgram.onObjects_matches hosts program context.self
  rw [performs] at matched
  rw [ContractTables.dispatch]
  cases done : dispatch context state action with
  | error reason =>
    rw [done] at matched
    rw [matched.of_error Fault.noConfusion]
    exact .fails _
  | ok outcome =>
    rw [done] at matched
    obtain ⟨later, ran, kept⟩ := matched.of_ok
    rw [ran]
    exact .answers outcome.2 kept

/-! Runs. -/

theorem ContractTables.step_eq (host : Host) (tables : ContractTables labelling) (tx : Tx) :
    ContractTables.step host tables tx = Prod.snd <$> (tables.dispatch (tx.context host) tx.action).toOption := by
  rw [ContractTables.step]
  cases tables.dispatch (tx.context host) tx.action <;> rfl

theorem exec_contract (hosts : HostsContract state tables) (neat : state.Neat) {tx : Tx} (brief : tx.action.brief) :
    HostsContract (exec (step host) state tx) (exec (ContractTables.step host) tables tx) :=
  exec_of_matches (ContractTables.step_eq host tables tx) (dispatch_contract hosts neat brief) hosts

theorem reached_contract (host : Host) (numbers : labelling.State) (brief : ∀ tx ∈ txs, tx.action.brief) :
    HostsContract (reached host txs) (ContractTables.reached host numbers txs) := by
  induction txs using List.reverseRecOn with
  | nil =>
    intro name
    cases name <;> exact .empty numbers
  | append_singleton earlier tx ih =>
    have before := fun (first : Tx) (member : first ∈ earlier) => brief first (List.mem_append_left [tx] member)
    rw [reached, ContractTables.reached, run_append, run_append]
    exact exec_contract (ih before) (reached_neat before)
      (brief tx (List.mem_append_right earlier (List.mem_singleton.mpr rfl)))

/-- In every run of brief actions the objects leave the host with the tables, and a further action prints
what it prints on the tables or stops with the same message. -/
theorem contract_on_objects (host : Host) (numbers : labelling.State) (txs : List Tx)
    (brief : ∀ tx ∈ txs, tx.action.brief) :
    HostsContract (reached host txs) (ContractTables.reached host numbers txs) ∧
      ∀ tx : Tx, tx.action.brief → Matches .undefined HostsContract
        (Prod.swap <$> View.lift (dispatch (tx.context host) (reached host txs) tx.action))
        ((ContractTables.reached host numbers txs).dispatch (tx.context host) tx.action) := by
  have hosts := reached_contract host numbers brief
  exact ⟨hosts, fun tx short => dispatch_contract hosts (reached_neat brief) short⟩

/-- Alice is in contact with Bob and has asked Carol, Bob asks Carol too, and nobody can ask himself. -/
def acquainted : List Tx :=
  [.signed alice (.reguser alice "" "" ""), .signed bob (.reguser bob "" "" ""), .signed carol (.reguser carol "" "" ""),
    .signed alice (.sendrequest alice bob "ka"), .signed bob (.sendrequest bob bob "kb"),
    .signed bob (.resprequest bob alice "kb" true), .signed alice (.sendrequest alice carol "kc"),
    .signed alice (.changealias alice bob "Bobby"), .signed bob (.sendrequest bob carol "kd"),
    .signed alice (.sendmsg 0 alice "hello" 0)]

/-- Anybody may delete what Alice has asked and agreed to. -/
def clearing : Tx := .unsigned (.deletereqs alice)

/-- The objects take both of Alice's rows, and those of the others that name her. -/
theorem acquainted_cleared :
    ∃ tables, (ContractTables.reached chain noNumbers acquainted).dispatch (clearing.context chain) clearing.action =
        .ok ([], tables) ∧
      HostsContract (reached chain (acquainted ++ [clearing])) tables ∧
      (([alice, bob, carol].map fun owner => ((reached chain acquainted).requests owner.value).rows.map
          fun row => (row.contact, row.alias, row.cntct)) =
        ([[(bob, "Bobby", true), (carol, "", false)], [(alice, "", true), (carol, "", false)],
          [(alice, "", false), (bob, "", false)]] : List (List (Name × ByteString × Bool)))) ∧
      ([alice, bob, carol].map fun owner => ((reached chain (acquainted ++ [clearing])).requests owner.value).rows.map
          (·.contact)) = [[], [carol], [bob]] := by
  have brief : ∀ tx ∈ acquainted, tx.action.brief := by decide
  have able : (step chain (reached chain acquainted) clearing).isSome := by decide +kernel
  obtain ⟨next, committed⟩ := Option.isSome_iff_exists.mp able
  obtain ⟨printed, done⟩ := step_eq_some.mp committed
  obtain ⟨_, rfl⟩ := silent_eq_ok.mp done
  have after : reached chain (acquainted ++ [clearing]) = next := by
    rw [reached_append, run_cons, exec, committed]
    rfl
  have answered : Matches .undefined HostsContract
      (Prod.swap <$> View.lift (dispatch (clearing.context chain) (reached chain acquainted) clearing.action)) _ :=
    (contract_on_objects chain noNumbers acquainted brief).2 clearing (by decide)
  rw [done] at answered
  obtain ⟨tables, ran, hosts⟩ := answered.of_ok
  exact ⟨tables, ran, after ▸ hosts, by decide +kernel, by decide +kernel⟩

end LocalChain.K2ultra
