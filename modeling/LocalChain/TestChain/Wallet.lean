import LocalChain.TestChain.State

namespace LocalChain.TestChain

open LocalChain.Python

variable (env : Env) (chain : TestChain)

/-! The wallet actions. -/

def importKey (privateKey : String) : Method Unit :=
  perform env (.run [chain.clinePath, "wallet", "import", "--private-key", privateKey])

def importKeys : Method Unit := do
  importKey env chain chain.devKeys.privateKey
  forM chain.systemAccounts fun account => importKey env chain account.privateKey
  forM chain.masters fun master => importKey env chain master.privateKey

def createWallet : Method Unit := do
  try
    let present ← observe fun past => env.pathExists past chain.defaultWalletPath
    if present then perform env (.remove chain.defaultWalletPath)
    let _ ← popen env [chain.clinePath, "wallet", "create", "--file", chain.configPath ++ "/defWall.txt"] ""
    importKeys env chain
  catch error =>
    print "An error has occured while creating a wallet! \n"
    print error.text

def unlockWallet : Method Unit := do
  try
    let process ← popen env [chain.clinePath, "wallet", "unlock"] (chain.walletPsw ++ "\n")
    if process.returncode ≠ 0 then
      if contains "Already unlocked".toList process.err.toList then
        print "Default wallet is already unlocked."
      else if contains "Invalid wallet password".toList process.err.toList then
        print "Wallet password is not correct! "
        let x ← input env "Want to restart wallet? Press [y/Y]"
        if x ∈ ["y", "Y", "yes", "Yes", "YES"] then createWallet env chain
    else
      print "Default wallet unlocked."
  catch
    | .timeoutExpired _ => print "The unlock process timed out."
    | .exception text => print ("An error occurred: " ++ text)

/-- The branches of `check_default_wallet`. -/
inductive WalletBranch where
  | unlocked
  | unlock
  | create
deriving DecidableEq, Repr

/-- The names that `check_default_wallet` reads off the wallet list, if it finds the brackets. -/
def listedNames (s : List Char) : Option (List (List Char)) := do
  let firstOpen ← find '[' s
  let lastClose ← rfind ']' s
  if firstOpen < lastClose then
    let s := slice s (firstOpen + 1) (lastClose - 1)
    return split (remove ',' (remove '"' s))
  else none

def walletBranch (wallets : List (List Char)) : WalletBranch :=
  if "default *".toList ∈ wallets then .unlocked
  else if "default".toList ∈ wallets then .unlock
  else .create

def WalletBranch.act : WalletBranch → Method Unit
  | .unlocked => print "Wallet exists and its unlocked"
  | .unlock => unlockWallet env chain
  | .create => do
    print "Creating Wallet..."
    createWallet env chain

/-- Takes a branch, and returns `False` where an exception was caught, otherwise nothing. -/
def takeBranch (branch : WalletBranch) : Method (Option Bool) := do
  try
    branch.act env chain
    pure none
  catch e =>
    print e.text
    pure (some false)

def checkDefaultWallet : Method (Option Bool) := do
  let s ← popen env [chain.clinePath, "wallet", "list"] ""
  match listedNames s.out.toList with
  | none => return none
  | some wallets => takeBranch env chain (walletBranch wallets)

/-! Which branch was taken shows in what is done. -/

/-- The branch that begins with the operation. -/
def Operation.branch : Operation → WalletBranch
  | .print text =>
    if text = "Wallet exists and its unlocked" then .unlocked
    else if text = "Creating Wallet..." then .create
    else .unlock
  | _ => .unlock

/-- These operations come first. -/
def Began (first : List Operation) (world : World) : Prop := first <+: world.issued

variable {env : Env} {chain : TestChain} {world listed : World} {s : Reply} {branch other : WalletBranch}
  {first : List Operation}

theorem Began.append (began : Began first world) (operation : Operation) :
    Began first { world with issued := world.issued ++ [operation] } :=
  began.trans (List.prefix_append _ _)

theorem began_perform (operation : Operation) : Keeps (Began first) (perform env operation) := by
  intro world began
  unfold perform
  split
  · exact began
  · exact began.append operation

theorem began_print (text : String) : Keeps (Began first) (print text) := fun _ began => began.append _

theorem began_observe {α : Type} (view : List Operation → α) : Keeps (Began first) (observe view) :=
  fun _ began => began

theorem began_popen (args : List String) (stdin : String) : Keeps (Began first) (popen env args stdin) :=
  .bind (began_perform _) fun _ => began_observe _

theorem began_importKeys : Keeps (Began first) (importKeys env chain) := by
  refine .bind (began_perform _) fun _ => ?_
  refine .bind (.forM fun _ _ => began_perform _) fun _ => ?_
  exact .forM fun _ _ => began_perform _

theorem began_createWallet : Keeps (Began first) (createWallet env chain) := by
  refine .tryCatch ?_ fun _ => .bind (began_print _) fun _ => began_print _
  refine .bind (began_observe _) fun present => ?_
  have created : Keeps (Began first) (do
      let _ ← popen env [chain.clinePath, "wallet", "create", "--file", chain.configPath ++ "/defWall.txt"] ""
      importKeys env chain) := .bind (began_popen _ _) fun _ => began_importKeys
  cases present with
  | true => exact .bind (began_perform _) fun _ => created
  | false => exact created

/-- What follows the call of the wallet tool in `unlock_wallet`. -/
theorem began_unlocking (process : Reply) : Keeps (Began first) (do
    if process.returncode ≠ 0 then
      if contains "Already unlocked".toList process.err.toList then
        print "Default wallet is already unlocked."
      else if contains "Invalid wallet password".toList process.err.toList then
        print "Wallet password is not correct! "
        let x ← input env "Want to restart wallet? Press [y/Y]"
        if x ∈ ["y", "Y", "yes", "Yes", "YES"] then createWallet env chain
    else
      print "Default wallet unlocked." : Method Unit) := by
  split
  · split
    · exact began_print _
    · split
      · refine .bind (began_print _) fun _ => ?_
        refine .bind (.bind (began_perform _) fun _ => began_observe _) fun x => ?_
        split
        · exact began_createWallet
        · exact .pure ()
      · exact .pure ()
  · exact began_print _

theorem branch_error (text : String) : (Operation.print ("An error occurred: " ++ text)).branch = .unlock := by
  have apart (other : String) (start : other.toList.head? ≠ some 'A') : "An error occurred: " ++ text ≠ other := by
    intro same
    rw [← same, String.toList_append] at start
    exact start rfl
  rw [Operation.branch, if_neg (apart _ (by decide)), if_neg (apart _ (by decide))]

theorem unlockWallet_began (env : Env) (chain : TestChain) (world : World) :
    ∃ operation, operation.branch = .unlock ∧
      Began (world.issued ++ [operation]) (unlockWallet env chain world).2 := by
  let call : Operation := .popen [chain.clinePath, "wallet", "unlock"] (chain.walletPsw ++ "\n")
  cases raises : env.raises world.issued call with
  | none =>
    have called : perform env call world = (.ok (), { world with issued := world.issued ++ [call] }) := by
      rw [perform, raises]
    have ran : popen env [chain.clinePath, "wallet", "unlock"] (chain.walletPsw ++ "\n") world =
        (.ok (env.reply (world.issued ++ [call]) [chain.clinePath, "wallet", "unlock"]),
          { world with issued := world.issued ++ [call] }) := run_bind called
    refine ⟨call, rfl, ?_⟩
    rw [unlockWallet, run_tryCatch_of_eq (run_bind ran)]
    refine Keeps.tryCatch (began_unlocking _) (fun raised => ?_) _ List.prefix_rfl
    cases raised <;> exact began_print _
  | some raised =>
    have refused : perform env call world = (.error raised, world) := by
      rw [perform, raises]
    have failed : popen env [chain.clinePath, "wallet", "unlock"] (chain.walletPsw ++ "\n") world =
        (.error raised, world) := run_bind_raised refused
    rw [unlockWallet, run_tryCatch_raised (run_bind_raised failed)]
    cases raised with
    | timeoutExpired text => exact ⟨.print "The unlock process timed out.", by decide, List.prefix_rfl⟩
    | exception text => exact ⟨.print ("An error occurred: " ++ text), branch_error text, List.prefix_rfl⟩

theorem takeBranch_began (env : Env) (chain : TestChain) (branch : WalletBranch) (world : World) :
    ∃ operation, operation.branch = branch ∧
      Began (world.issued ++ [operation]) (takeBranch env chain branch world).2 := by
  cases branch with
  | unlocked => exact ⟨.print "Wallet exists and its unlocked", by decide, List.prefix_rfl⟩
  | create =>
    have rest : Keeps (Began (world.issued ++ [.print "Creating Wallet..."])) (tryCatch
        (do createWallet env chain; pure none) fun e => do print e.text; pure (some false) : Method (Option Bool)) :=
      .tryCatch (.bind began_createWallet fun _ => .pure none) fun e => .bind (began_print _) fun _ => .pure _
    exact ⟨.print "Creating Wallet...", by decide, rest _ List.prefix_rfl⟩
  | unlock =>
    obtain ⟨operation, begins, began⟩ := unlockWallet_began env chain world
    refine ⟨operation, begins, ?_⟩
    cases ran : unlockWallet env chain world with
    | mk outcome middle =>
      rw [ran] at began
      cases outcome with
      | ok done =>
        have ended : (do WalletBranch.act env chain .unlock; pure none : Method (Option Bool)) world =
            (.ok none, middle) := run_bind ran
        rw [takeBranch, run_tryCatch ended]
        exact began
      | error raised =>
        have failed : (do WalletBranch.act env chain .unlock; pure none : Method (Option Bool)) world =
            (.error raised, middle) := run_bind_raised ran
        rw [takeBranch, run_tryCatch_raised failed]
        exact began.append _

/-- No two branches do the same, on any machine. -/
theorem takeBranch_inj : takeBranch env chain branch world = takeBranch env chain other world ↔ branch = other := by
  refine ⟨fun same => ?_, fun same => by rw [same]⟩
  obtain ⟨operation, begins, began⟩ := takeBranch_began env chain branch world
  obtain ⟨another, otherwise, beginning⟩ := takeBranch_began env chain other world
  rw [same] at began
  have length : (world.issued ++ [operation]).length = (world.issued ++ [another]).length := by simp
  have equal := (List.prefix_of_prefix_length_le began beginning length.le).eq_of_length length
  obtain rfl := List.singleton_inj.mp (List.append_cancel_left equal)
  exact begins.symm.trans otherwise

/-- The branch that the wallet list decides on is all that is done after it is read. -/
theorem checkDefaultWallet_iff (read : popen env [chain.clinePath, "wallet", "list"] "" world = (.ok s, listed))
    {wallets : List (List Char)} (found : listedNames s.out.toList = some wallets) :
    checkDefaultWallet env chain world = takeBranch env chain branch listed ↔ walletBranch wallets = branch := by
  rw [checkDefaultWallet, run_bind read, found]
  exact takeBranch_inj

end LocalChain.TestChain
