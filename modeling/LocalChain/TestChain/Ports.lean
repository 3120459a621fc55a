import LocalChain.TestChain.Masters

namespace LocalChain.TestChain

open LocalChain.Python

/-! Where the masters run, and where they are bound. -/

variable (chain : TestChain)

def bindArgs (master : Account) (endpoint : String) : List String :=
  [chain.clinePath, "master", "bind", master.name, master.publicKey, endpoint]

/-- `approve_masters` has bound the master to the endpoint. -/
def BoundTo (issued : List Operation) (master : Account) (endpoint : String) : Prop :=
  .run (chain.bindArgs master endpoint) ∈ issued

/-- The start script that was generated for the master listens on the endpoint. -/
def ListensOn (issued : List Operation) (master : Account) (endpoint : String) : Prop :=
  ∃ script, .write (chain.startPath master) (.script script) ∈ issued ∧ script.p2pListenEndpoint = endpoint

/-- The masters that were started are those that are bound, each to where it listens. -/
structure MastersBound (started : List Account) (issued : List Operation) : Prop where
  bound : ∀ master ∈ chain.masters, (∃ endpoint, BoundTo chain issued master endpoint) ↔ master ∈ started
  listening : ∀ master ∈ chain.masters, ∀ endpoint, BoundTo chain issued master endpoint →
    ListensOn chain issued master endpoint

/-! What is done before the masters are approved. -/

/-- The operation binds no master, and a script that it writes listens on a port of this machine. -/
def Preparing : Operation → Prop
  | .run args => ∀ master endpoint, args ≠ chain.bindArgs master endpoint
  | .write _ (.script script) => ∃ port, script.p2pListenEndpoint = chain.endpoint port
  | _ => True

def Prepared (world : World) : Prop := ∀ operation ∈ world.issued, Preparing chain operation

variable {env : Env} {chain : TestChain} {operation : Operation} {world : World}

/-- The property survives what binds no master. -/
def Carried (chain : TestChain) (good : World → Prop) : Prop :=
  ∀ world operation, good world → Preparing chain operation →
    good { world with issued := world.issued ++ [operation] }

theorem prepared_carried : Carried chain (Prepared chain) := by
  intro world operation prepared preparing other member
  rcases List.mem_append.mp member with earlier | last
  · exact prepared other earlier
  · rw [List.mem_singleton.mp last]
    exact preparing

theorem port_carried (port : Nat) : Carried chain fun world => world.port = port := fun _ _ same _ => same

theorem keeps_observe {α : Type} {good : World → Prop} (view : List Operation → α) : Keeps good (observe view) :=
  fun _ held => held

section Carried

variable {good : World → Prop} (carried : Carried chain good)

include carried

theorem keeps_perform (preparing : Preparing chain operation) : Keeps good (perform env operation) := by
  intro world held
  unfold perform
  split
  · exact held
  · exact carried world operation held preparing

theorem keeps_print (text : String) : Keeps good (print text) := fun world held => carried world _ held trivial

theorem keeps_popen (args : List String) (stdin : String) : Keeps good (popen env args stdin) :=
  .bind (keeps_perform carried trivial) fun _ => keeps_observe _

theorem keeps_setContract (path : String) (verbose : Bool) (calls : Nat) :
    Keeps good (setContract env chain path verbose calls) := by
  induction calls with
  | zero => exact .pure ()
  | succ calls ih =>
    apply Keeps.bind (keeps_popen carried _ _)
    intro result
    dsimp only
    split
    · split
      · exact keeps_print carried _
      · exact .pure _
    · split
      · exact .bind (keeps_print carried _) fun _ => ih
      · exact ih

theorem keeps_initContracts : Keeps good (initContracts env chain) := by
  have opened (account : Account) : Preparing chain
      (.run [chain.clinePath, "create", "opendb", "inery", account.name, account.publicKey]) := by
    intro master endpoint same
    simp [bindArgs] at same
  refine .bind (keeps_perform carried trivial) fun _ => ?_
  refine .bind (keeps_setContract carried _ _ _) fun _ => ?_
  refine .bind (.forM fun account _ => keeps_perform carried (opened account)) fun _ => ?_
  refine .bind (.forM fun _ _ => keeps_perform carried trivial) fun _ => ?_
  refine .bind (keeps_setContract carried _ _ _) fun _ => ?_
  refine .bind (.forM fun _ _ => keeps_perform carried trivial) fun _ => ?_
  refine .bind (.forM fun _ _ => keeps_perform carried trivial) fun _ => ?_
  exact keeps_print carried _

/-- The scripts of a node are written, made executable and used to start it. -/
theorem keeps_node {start hardReplay : Script} {startPath hardReplayPath stopPath path : String}
    {rest : Method Unit} (port : Nat) (listens : start.p2pListenEndpoint = chain.endpoint port)
    (listensAgain : hardReplay.p2pListenEndpoint = chain.endpoint port) (kept : Keeps good rest) :
    Keeps good (do
      perform env (.write startPath (.script start))
      perform env (.write hardReplayPath (.script hardReplay))
      perform env (.write stopPath (stopScript path))
      perform env (.chmod startPath)
      perform env (.chmod hardReplayPath)
      perform env (.chmod stopPath)
      perform env (.system startPath)
      rest) := by
  refine .bind (keeps_perform carried ⟨port, listens⟩) fun _ => ?_
  refine .bind (keeps_perform carried ⟨port, listensAgain⟩) fun _ => ?_
  refine .bind (keeps_perform carried trivial) fun _ => ?_
  refine .bind (keeps_perform carried trivial) fun _ => ?_
  refine .bind (keeps_perform carried trivial) fun _ => ?_
  refine .bind (keeps_perform carried trivial) fun _ => ?_
  exact .bind (keeps_perform carried trivial) fun _ => kept

/-- The part of `run_genesis` that may fail. -/
theorem keeps_contracts : Keeps good (do
    try
      initContracts env chain
    catch error =>
      print "An error has occured while initializatig contracts! \n"
      print error.text) :=
  .tryCatch (keeps_initContracts carried) fun _ => .bind (keeps_print carried _) fun _ => keeps_print carried _

end Carried

theorem keeps_getPort : Keeps (Prepared chain) getPort := fun _ prepared => prepared

theorem keeps_runGenesis : Keeps (Prepared chain) (runGenesis env chain) := by
  refine .bind (keeps_perform prepared_carried trivial) fun _ => ?_
  refine .bind keeps_getPort fun port => ?_
  refine .bind (keeps_perform prepared_carried trivial) fun _ => ?_
  apply keeps_node prepared_carried port (genesisScript_listens ..) (hardReplayScript_listens ..)
  exact .bind (keeps_print prepared_carried _) fun _ => keeps_contracts prepared_carried

theorem keeps_processMaster (master : Account) : Keeps (Prepared chain) (processMaster env chain master) := by
  have created : Keeps (Prepared chain) (createAccount env chain master.name master.publicKey "" "creator") :=
    .bind (keeps_popen prepared_carried _ _) fun _ => .pure ()
  refine .bind created fun _ => ?_
  refine .bind (keeps_perform prepared_carried trivial) fun _ => ?_
  refine .bind keeps_getPort fun port => ?_
  refine .bind (keeps_print prepared_carried _) fun _ => ?_
  apply keeps_node prepared_carried port (genesisScript_listens ..) (hardReplayScript_listens ..)
  exact keeps_print prepared_carried _

theorem keeps_startLoop (masterCnt : Nat) (masters : List Account) :
    Keeps (Prepared chain) (startLoop env chain masterCnt masters) := by
  induction masters generalizing masterCnt with
  | nil => exact .pure []
  | cons master rest ih =>
    unfold startLoop
    split
    · exact .pure []
    · have returning : Keeps (Prepared chain) (do processMaster env chain master; pure true) :=
        .bind (keeps_processMaster master) fun _ => .pure true
      apply Keeps.bind (.tryCatch returning fun _ => .bind (keeps_print prepared_carried _) fun _ => .pure false)
      intro returned
      cases returned with
      | true => exact .bind (ih _) fun started => .pure (master :: started)
      | false => exact ih _

/-- Exceptions of a master do not stop the others. -/
theorem startLoop_returns (masterCnt : Nat) (masters : List Account) :
    Returns (startLoop env chain masterCnt masters) := by
  induction masters generalizing masterCnt with
  | nil => exact .pure []
  | cons master rest ih =>
    unfold startLoop
    split
    · exact .pure []
    · have printed (text : String) : Returns (print text) := fun _ => ⟨(), _, rfl⟩
      apply Returns.bind (.tryCatch fun _ => .bind (printed _) fun _ => .pure false)
      intro returned
      cases returned with
      | true => exact .bind (ih _) fun started => .pure (master :: started)
      | false => exact ih _

/-! Where nothing raises. -/

theorem perform_quiet (quiet : ∀ past operation, env.raises past operation = none) (operation : Operation) :
    perform env operation = fun world => (.ok (), { world with issued := world.issued ++ [operation] }) := by
  funext world
  simp only [perform, quiet]

theorem ListensOn.mono {earlier later : List Operation} {master : Account} {endpoint : String}
    (listens : ListensOn chain earlier master endpoint) (first : earlier <+: later) :
    ListensOn chain later master endpoint := by
  obtain ⟨script, member, same⟩ := listens
  exact ⟨script, first.subset member, same⟩

theorem processMaster_run (quiet : ∀ past operation, env.raises past operation = none) (master : Account) :
    ∃ last, processMaster env chain master world = (.ok (), last) ∧ last.port = world.port + 1 ∧
      world.issued <+: last.issued ∧ ListensOn chain last.issued master (chain.endpoint (world.port + 1)) := by
  refine ⟨(processMaster env chain master world).2, ?_⟩
  simp only [processMaster, createAccount, popen, perform_quiet quiet, bind, pure, getPort, print, observe,
    List.append_assoc, List.prefix_append, true_and]
  exact ⟨chain.genesisScript (chain.masterPath master) master.toKeys (world.port + 1) true master.name, by simp,
    genesisScript_listens ..⟩

/-- The first masters of the list are started, on one port after another. -/
theorem startLoop_run (quiet : ∀ past operation, env.raises past operation = none) (masterCnt : Nat)
    (masters : List Account) :
    ∃ last, startLoop env chain masterCnt masters world =
        (.ok (masters.take (chain.maxMasters - masterCnt).toNat), last) ∧ world.issued <+: last.issued ∧
      ∀ index master, (masters.take (chain.maxMasters - masterCnt).toNat)[index]? = some master →
        ListensOn chain last.issued master (chain.endpoint (world.port + 1 + index)) := by
  induction masters generalizing masterCnt world with
  | nil => exact ⟨world, by rw [List.take_nil]; rfl, List.prefix_rfl, by simp⟩
  | cons first rest ih =>
    unfold startLoop
    split
    · rename_i reached
      have spent : (chain.maxMasters - masterCnt).toNat = 0 := by omega
      rw [spent, List.take_zero]
      exact ⟨world, rfl, List.prefix_rfl, by simp⟩
    · rename_i below
      have more : (chain.maxMasters - masterCnt).toNat =
          (chain.maxMasters - (masterCnt + 1 : Nat)).toNat + 1 := by omega
      obtain ⟨middle, ran, port, kept, listens⟩ := @processMaster_run env chain world quiet first
      obtain ⟨last, looped, kept', others⟩ := @ih middle (masterCnt + 1)
      rw [more, List.take_succ_cons]
      refine ⟨last, ?_, kept.trans kept', fun index master found => ?_⟩
      · have returned : (tryCatch (do processMaster env chain first; pure true) fun ex => do
            print ex.text
            pure false : Method Bool) world = (.ok true, middle) := run_tryCatch (by rw [run_bind ran]; rfl)
        rw [run_bind returned, if_pos rfl, run_bind looped]
        rfl
      · cases index with
        | zero =>
          obtain rfl := Option.some.inj found
          exact listens.mono kept'
        | succ index =>
          have listens := others index master found
          rw [port, show world.port + 1 + 1 + index = world.port + 1 + (index + 1) by omega] at listens
          exact listens

/-! What the approval does. -/

/-- The calls for one master, with `port` for its endpoint. -/
def approval (chain : TestChain) (port : Nat) (master : Account) : List Operation :=
  [.run [chain.clinePath, "transfer", "inery", master.name, "50000 INR"],
    .run [chain.clinePath, "system", "stake", "inery", master.name, "50000 INR"],
    .run (chain.bindArgs master (chain.serverUrl ++ toString port))]

def approvals (chain : TestChain) (port : Nat) : List Account → List Operation
  | [] => []
  | master :: rest => approval chain port master ++ approvals chain (port + 1) rest

theorem perform_run (runs : ∀ past args, env.raises past (.run args) = none) (args : List String) :
    perform env (.run args) world = (.ok (), { world with issued := world.issued ++ [.run args] }) := by
  simp only [perform, runs]

theorem approve_run (runs : ∀ past args, env.raises past (.run args) = none) (port : Nat) (master : Account) :
    approve env chain port master world =
      (.ok (port + 1), { world with issued := world.issued ++ approval chain port master }) := by
  unfold approve
  apply run_tryCatch
  rw [run_bind (perform_run runs _), run_bind (perform_run runs _), run_bind (perform_run runs _)]
  simp only [List.append_assoc]
  rfl

/-- The first masters of the list are approved, whether they were started or not, on one port after
another. -/
theorem approveLoop_run (runs : ∀ past args, env.raises past (.run args) = none) (port masterCnt : Nat)
    (masters : List Account) :
    approveLoop env chain port masterCnt masters world =
      (.ok (), { world with
        issued := world.issued ++ approvals chain port (masters.take (chain.maxMasters - masterCnt).toNat) }) := by
  induction masters generalizing port masterCnt world with
  | nil =>
    rw [List.take_nil, approvals, List.append_nil]
    rfl
  | cons master rest ih =>
    unfold approveLoop
    split
    · rename_i reached
      have spent : (chain.maxMasters - masterCnt).toNat = 0 := by omega
      rw [spent, List.take_zero, approvals, List.append_nil]
      rfl
    · rename_i below
      have more : (chain.maxMasters - masterCnt).toNat =
          (chain.maxMasters - (masterCnt + 1 : Nat)).toNat + 1 := by omega
      rw [run_bind (approve_run runs port master), ih, more, List.take_succ_cons, approvals,
        ← List.append_assoc]

theorem run_of_mem_approvals {port : Nat} {masters : List Account}
    (member : operation ∈ approvals chain port masters) : ∃ args, operation = .run args := by
  induction masters generalizing port with
  | nil => exact absurd member List.not_mem_nil
  | cons master rest ih =>
    rcases List.mem_append.mp member with first | later
    · simp only [approval, List.mem_cons, List.not_mem_nil, or_false] at first
      rcases first with rfl | rfl | rfl <;> exact ⟨_, rfl⟩
    · exact ih later

theorem bind_of_getElem? {port index : Nat} {masters : List Account} {master : Account}
    (found : masters[index]? = some master) :
    .run (chain.bindArgs master (chain.serverUrl ++ toString (port + index))) ∈ approvals chain port masters := by
  induction masters generalizing port index with
  | nil => cases found
  | cons first rest ih =>
    cases index with
    | zero =>
      obtain rfl := Option.some.inj found
      exact List.mem_append_left _ (by simp [approval])
    | succ index =>
      have later := @ih (port + 1) index found
      rw [show port + 1 + index = port + (index + 1) by omega] at later
      exact List.mem_append_right _ later

theorem account_of_bind {port : Nat} {masters : List Account} {master : Account} {endpoint : String}
    (member : .run (chain.bindArgs master endpoint) ∈ approvals chain port masters) :
    ∃ other ∈ masters, other.name = master.name ∧ other.publicKey = master.publicKey := by
  induction masters generalizing port with
  | nil => exact absurd member List.not_mem_nil
  | cons first rest ih =>
    rcases List.mem_append.mp member with here | later
    · have same : chain.bindArgs master endpoint =
          chain.bindArgs first (chain.serverUrl ++ toString port) := by simpa [approval, bindArgs] using here
      simp only [bindArgs, List.cons.injEq, true_and] at same
      exact ⟨first, List.mem_cons_self, same.1.symm, same.2.1.symm⟩
    · obtain ⟨other, listed, same⟩ := ih later
      exact ⟨other, List.mem_cons_of_mem _ listed, same⟩

/-- The endpoints of the approval lack the colon. -/
theorem bound_ne_endpoint (port other : Nat) : chain.serverUrl ++ toString port ≠ chain.endpoint other := by
  intro same
  rw [endpoint, String.append_assoc, String.append_right_inj] at same
  have colon : ':' ∈ Nat.toDigits 10 port := by
    rw [← Nat.toList_repr, ← Nat.toString_eq_repr, same, String.toList_append]
    exact List.mem_cons_self
  have digit := Nat.isDigit_of_mem_toDigits (by decide) (by decide) colon
  revert digit
  decide

/-! A whole run. -/

/-- What a run has done when `run_masters` returns. -/
def approved (chain : TestChain) (world : World) : World :=
  { world with
    issued := world.issued ++ approvals chain 9010 (chain.masters.take chain.maxMasters.toNat) }

theorem runMasters_run (runs : ∀ past args, env.raises past (.run args) = none) (prepared : Prepared chain world) :
    ∃ started middle, startLoop env chain 0 chain.masters world = (.ok started, middle) ∧
      Prepared chain middle ∧ runMasters env chain world = (.ok started, approved chain middle) := by
  obtain ⟨started, middle, looped⟩ : ∃ started middle, startLoop env chain 0 chain.masters world =
      (.ok started, middle) := startLoop_returns 0 chain.masters world
  refine ⟨started, middle, looped, (keeps_startLoop 0 chain.masters).ends prepared looped, ?_⟩
  have count : (chain.maxMasters - (0 : Nat)).toNat = chain.maxMasters.toNat := by omega
  rw [runMasters, run_bind looped, approveMasters, run_bind (approveLoop_run runs 9010 0 chain.masters), count]
  rfl

theorem Prepared.listens (prepared : Prepared chain world) {master : Account} {endpoint : String}
    (listens : ListensOn chain (approved chain world).issued master endpoint) :
    ∃ port, endpoint = chain.endpoint port := by
  obtain ⟨script, member, rfl⟩ := listens
  rcases List.mem_append.mp member with earlier | later
  · exact prepared _ earlier
  · obtain ⟨args, same⟩ := run_of_mem_approvals later
    exact absurd same nofun

/-- The masters are bound to the ports from 9010 on, whatever became of them. -/
theorem bound_port {master : Account} {index : Nat} (found : chain.masters[index]? = some master)
    (below : index < chain.maxMasters) :
    BoundTo chain (approved chain world).issued master (chain.serverUrl ++ toString (9010 + index)) := by
  apply List.mem_append_right
  apply bind_of_getElem?
  rw [List.getElem?_take_of_lt (by omega), found]

/-- Whoever is among the first masters of the list is bound, and nobody else: whether they were started does not
count. -/
theorem bound_iff (prepared : Prepared chain world) (master : Account) :
    (∃ endpoint, BoundTo chain (approved chain world).issued master endpoint) ↔
      ∃ other ∈ chain.masters.take chain.maxMasters.toNat,
        other.name = master.name ∧ other.publicKey = master.publicKey := by
  constructor
  · rintro ⟨endpoint, member⟩
    rcases List.mem_append.mp member with earlier | later
    · exact absurd rfl (prepared _ earlier master endpoint)
    · exact account_of_bind later
  · rintro ⟨other, member, sameName, sameKey⟩
    obtain ⟨index, found⟩ := List.mem_iff_getElem?.mp member
    refine ⟨chain.serverUrl ++ toString (9010 + index), List.mem_append_right _ ?_⟩
    rw [show chain.bindArgs master = chain.bindArgs other by unfold bindArgs; rw [sameName, sameKey]]
    exact bind_of_getElem? found

theorem approved_of_none (nobody : chain.masters = [] ∨ chain.maxMasters ≤ 0) :
    approved chain world = world := by
  have taken : chain.masters.take chain.maxMasters.toNat = [] := by
    rcases nobody with empty | low
    · rw [empty, List.take_nil]
    · rw [Int.toNat_of_nonpos low, List.take_zero]
  rw [approved, taken, approvals, List.append_nil]

theorem startLoop_of_none (nobody : chain.masters = [] ∨ chain.maxMasters ≤ 0) :
    startLoop env chain 0 chain.masters world = (.ok [], world) := by
  rcases nobody with empty | low
  · rw [empty]
    rfl
  · cases chain.masters with
    | nil => rfl
    | cons master rest =>
      unfold startLoop
      rw [if_pos (by exact_mod_cast low)]
      rfl

/-- The genesis node takes the first port. -/
theorem runGenesis_port {booted : World} (quiet : ∀ past operation, env.raises past operation = none)
    (returned : runGenesis env chain .initial = (.ok (), booted)) : booted.port = 9010 := by
  have taken (world : World) : getPort world = (.ok (world.port + 1), { world with port := world.port + 1 }) := rfl
  rw [runGenesis, run_bind (congrFun (perform_quiet quiet _) _), run_bind (taken _)] at returned
  refine @Keeps.ends World Raised Unit (fun world => world.port = 9010) _ _ _ _ ?_ rfl returned
  have carried : Carried chain fun world => world.port = 9010 := port_carried 9010
  refine .bind (keeps_perform carried trivial) fun _ => ?_
  apply keeps_node carried _ (genesisScript_listens ..) (hardReplayScript_listens ..)
  exact .bind (keeps_print carried _) fun _ => keeps_contracts carried

/-- Where nothing raises, every master that is started listens on the port after the one it is bound to. -/
theorem listens_next {booted : World} (quiet : ∀ past operation, env.raises past operation = none)
    (returned : runGenesis env chain .initial = (.ok (), booted)) :
    ∃ last, runMasters env chain booted = (.ok (chain.masters.take chain.maxMasters.toNat), last) ∧
      ∀ (index : Nat) (master : Account), chain.masters[index]? = some master → index < chain.maxMasters →
        BoundTo chain last.issued master (chain.serverUrl ++ toString (9010 + index)) ∧
          ListensOn chain last.issued master (chain.endpoint (9011 + index)) := by
  have runs (past : List Operation) (args : List String) : env.raises past (.run args) = none := quiet past _
  obtain ⟨middle, looped, _, listens⟩ := @startLoop_run env chain booted quiet 0 chain.masters
  have count : (chain.maxMasters - (0 : Nat)).toNat = chain.maxMasters.toNat := by omega
  rw [count] at looped listens
  rw [runGenesis_port quiet returned] at listens
  refine ⟨approved chain middle, ?_, fun index master found below => ⟨bound_port found below, ?_⟩⟩
  · rw [runMasters, run_bind looped, approveMasters, run_bind (approveLoop_run runs 9010 0 chain.masters), count]
    rfl
  · refine (listens index master ?_).mono (List.prefix_append _ _)
    rw [List.getElem?_take_of_lt (by omega), found]

/-- Where `subprocess.run` does not raise, whatever else does, the masters are bound where they run exactly if
there is none to start. -/
theorem mastersBound_iff {booted : World} (runs : ∀ past args, env.raises past (.run args) = none)
    (returned : runGenesis env chain .initial = (.ok (), booted)) :
    ∃ started last, runMasters env chain booted = (.ok started, last) ∧
      (MastersBound chain started last.issued ↔ chain.masters = [] ∨ chain.maxMasters ≤ 0) := by
  have fresh : Prepared chain .initial := fun _ member => absurd member List.not_mem_nil
  have genesis : Prepared chain booted := keeps_runGenesis.ends fresh returned
  obtain ⟨started, middle, looped, prepared, ran⟩ := runMasters_run runs genesis
  refine ⟨started, approved chain middle, ran, ?_⟩
  constructor
  · intro faithful
    by_contra somebody
    rw [not_or, Int.not_le] at somebody
    obtain ⟨master, rest, masters⟩ := List.exists_cons_of_ne_nil somebody.1
    have member : master ∈ chain.masters := masters ▸ List.mem_cons_self
    have first : chain.masters[0]? = some master := by rw [masters]; rfl
    obtain ⟨port, same⟩ := prepared.listens (faithful.listening master member _ (bound_port first somebody.2))
    exact bound_ne_endpoint 9010 port same
  · intro nobody
    rw [startLoop_of_none nobody] at looped
    obtain ⟨rfl, rfl⟩ : [] = started ∧ booted = middle := by simpa using looped
    have unbound (master : Account) (endpoint : String) :
        ¬ BoundTo chain (approved chain booted).issued master endpoint := by
      intro member
      rw [approved_of_none nobody] at member
      exact genesis _ member master endpoint rfl
    constructor
    · intro master _
      exact iff_of_false (fun ⟨endpoint, member⟩ => unbound master endpoint member) List.not_mem_nil
    · intro master _ endpoint member
      exact absurd member (unbound master endpoint)

def masterTwo : Account := ⟨⟨"INE3", "5J3"⟩, "mastertwo"⟩

def twoMasters (maxMasters : Int) : TestChain := { oneMaster maxMasters with masters := [masterOne, masterTwo] }

/-- A machine on which the first master does not start. -/
def refusingEnv : Env :=
  { quietEnv with raises _ operation :=
      if operation = .system ((twoMasters 1).startPath masterOne) then some (.exception "refused") else none }

theorem refusingEnv_runs (past : List Operation) (args : List String) : refusingEnv.raises past (.run args) = none :=
  rfl

/-- With no master to start every endpoint is right, and with one it is not, whether it starts or fails. -/
theorem nobody_bound :
    (∃ started last, runMasters quietEnv (twoMasters 0) (runGenesis quietEnv (twoMasters 0) .initial).2 =
        (.ok started, last) ∧ MastersBound (twoMasters 0) started last.issued) ∧
      ∃ started last, runMasters refusingEnv (twoMasters 1) (runGenesis refusingEnv (twoMasters 1) .initial).2 =
        (.ok started, last) ∧ ¬ MastersBound (twoMasters 1) started last.issued := by
  obtain ⟨started, last, ran, exact⟩ := @mastersBound_iff quietEnv (twoMasters 0) _ (fun _ _ => rfl)
    (Prod.ext (by decide +kernel) rfl)
  obtain ⟨started', last', ran', exact'⟩ := @mastersBound_iff refusingEnv (twoMasters 1) _ refusingEnv_runs
    (Prod.ext (by decide +kernel) rfl)
  refine ⟨⟨started, last, ran, exact.mpr (.inr (by decide))⟩, started', last', ran', fun faithful => ?_⟩
  exact absurd (exact'.mp faithful) (by decide)

/-- The first master fails and is not counted, so the second runs; but the first is the one that is bound. -/
theorem refused_bound : ∃ started last,
    runMasters refusingEnv (twoMasters 1) (runGenesis refusingEnv (twoMasters 1) .initial).2 = (.ok started, last) ∧
      started = [masterTwo] ∧ BoundTo (twoMasters 1) last.issued masterOne "127.0.0.19010" ∧
      ¬ ∃ endpoint, BoundTo (twoMasters 1) last.issued masterTwo endpoint := by
  have fresh : Prepared (twoMasters 1) .initial := fun _ member => absurd member List.not_mem_nil
  obtain ⟨started, middle, _, prepared, ran⟩ := runMasters_run refusingEnv_runs (keeps_runGenesis _ fresh)
  have outcome : (runMasters refusingEnv (twoMasters 1) (runGenesis refusingEnv (twoMasters 1) .initial).2).1.toOption =
      some [masterTwo] := by decide +kernel
  rw [ran] at outcome
  obtain rfl := Option.some.inj outcome
  refine ⟨[masterTwo], _, ran, rfl, @bound_port (twoMasters 1) middle masterOne 0 rfl (by decide), ?_⟩
  rw [bound_iff prepared]
  decide

/-- Where a script that is written makes a node listen. -/
def Operation.listenEndpoint : Operation → Option String
  | .write _ (.script script) => some script.p2pListenEndpoint
  | _ => none

/-- The only master is bound to the port of the genesis node, without a colon, and listens on the next. -/
theorem masterOne_not_bound : ∃ started last,
    (do runGenesis quietEnv (oneMaster 1); runMasters quietEnv (oneMaster 1)) .initial = (.ok started, last) ∧
      BoundTo (oneMaster 1) last.issued masterOne "127.0.0.19010" ∧
      ListensOn (oneMaster 1) last.issued masterOne "127.0.0.1:9011" ∧
      ¬ MastersBound (oneMaster 1) started last.issued := by
  let script := (oneMaster 1).genesisScript "masters/master_masterone" masterOne.toKeys 9011 true "masterone"
  let last := (runMasters quietEnv (oneMaster 1) (runGenesis quietEnv (oneMaster 1) .initial).2).2
  have returned : runGenesis quietEnv (oneMaster 1) .initial =
      (.ok (), (runGenesis quietEnv (oneMaster 1) .initial).2) := Prod.ext (by decide +kernel) rfl
  have bound : .run ((oneMaster 1).bindArgs masterOne "127.0.0.19010") ∈ last.issued := by decide +kernel
  have written : .write ((oneMaster 1).startPath masterOne) (.script script) ∈ last.issued := by
    decide +kernel
  have elsewhere : "127.0.0.19010" ∉ last.issued.filterMap Operation.listenEndpoint := by decide +kernel
  refine ⟨[masterOne], last, ?_, bound, ?_, ?_⟩
  · rw [run_bind returned]
    exact Prod.ext (by decide +kernel) rfl
  · exact ⟨script, written, by decide +kernel⟩
  · intro faithful
    have member : masterOne ∈ (oneMaster 1).masters := List.mem_singleton_self _
    obtain ⟨other, issued, listens⟩ := faithful.listening masterOne member _ bound
    exact elsewhere (List.mem_filterMap.mpr ⟨_, issued, congrArg Option.some listens⟩)

end LocalChain.TestChain
