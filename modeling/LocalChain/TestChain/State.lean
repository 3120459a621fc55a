import LocalChain.Python.Program
import LocalChain.Python.Text

namespace LocalChain

structure Keys where
  publicKey : String
  privateKey : String
deriving DecidableEq, Repr

/-- An entry of the lists of masters and of system accounts. -/
structure Account extends Keys where
  name : String
deriving DecidableEq, Repr

structure GuiPlugin where
  id : Nat
  required : Nat
  pluginName : String
  pluginDesc : String
deriving DecidableEq, Repr

/-- The attributes of the class that its constructor takes from the configuration. -/
structure TestChain where
  configPath : String
  serverUrl : String
  devKeys : Keys
  guiPlugins : List GuiPlugin
  genesisPath : String
  masters : List Account
  mastersPath : String
  maxMasters : Int
  walletPsw : String
  systemAccounts : List Account
  bootPath : String
  systemPath : String
  tokenPath : String
  guiContractPath : String
  k2ContractPath : String
  features : List String
  defaultWalletPath : String
  nodinePath : String
  clinePath : String

namespace TestChain

open LocalChain.Python

/-- The options of a script that starts a node, as far as they depend on what it is generated from. -/
structure Script where
  dataDir : String
  nodine : String
  genesisJson : String
  hardReplay : Bool
  masterName : String
  httpServerAddress : String
  https : List String
  p2pListenEndpoint : String
  p2pPeerAddresses : List String
  signatureProvider : String
deriving DecidableEq, Repr

inductive Content where
  | genesisJson (initialKey : String)
  | script (script : Script)
  | stop (dataDir : String)
deriving DecidableEq, Repr

/-- What the program does outside of itself. -/
inductive Operation where
  | print (text : String)
  | input (prompt : String)
  | popen (args : List String) (stdin : String)
  | run (args : List String)
  | shell (command : String)
  | system (command : String)
  | makedirs (path : String)
  | write (path : String) (content : Content)
  | chmod (path : String)
  | remove (path : String)
deriving DecidableEq, Repr

/-- The exceptions that the program tells apart. -/
inductive Raised where
  | timeoutExpired (text : String)
  | exception (text : String)
deriving DecidableEq, Repr

def Raised.text : Raised → String
  | .timeoutExpired text => text
  | .exception text => text

/-- What a process has printed, and its exit status. -/
structure Reply where
  out : String
  err : String
  returncode : Int
deriving DecidableEq, Repr

/-- The machine that the program runs on. How it behaves may depend on all that was done before. -/
structure Env where
  raises : List Operation → Operation → Option Raised
  reply : List Operation → List String → Reply
  answer : List Operation → String
  pathExists : List Operation → String → Bool

/-- The attribute that changes in a run, and what was done so far. -/
structure World where
  port : Nat
  issued : List Operation
deriving DecidableEq, Repr

def World.initial : World := ⟨9009, []⟩

/-- A method of the class. -/
abbrev Method := Program World Raised

variable (env : Env)

def perform (operation : Operation) : Method Unit := fun world =>
  match env.raises world.issued operation with
  | some raised => (.error raised, world)
  | none => (.ok (), { world with issued := world.issued ++ [operation] })

/-- The part of the machine that the past decides. -/
def observe {α : Type} (view : List Operation → α) : Method α := fun world => (.ok (view world.issued), world)

def print (text : String) : Method Unit := fun world =>
  (.ok (), { world with issued := world.issued ++ [.print text] })

/-- `input(prompt)`. -/
def input (prompt : String) : Method String := do
  perform env (.input prompt)
  observe env.answer

/-- `subprocess.Popen(args).communicate(stdin)`. -/
def popen (args : List String) (stdin : String) : Method Reply := do
  perform env (.popen args stdin)
  observe fun past => env.reply past args

/-- `os.path.join(directory, name)`. -/
def join (directory name : String) : String :=
  if name.toList.head? = some '/' then name
  else if directory.toList.getLast?.all (· = '/') then directory ++ name
  else directory ++ "/" ++ name

def getPort : Method Nat := fun world => (.ok (world.port + 1), { world with port := world.port + 1 })

/-! A machine and a configuration to try the programs on. -/

/-- A machine on which every call succeeds. -/
def quietEnv : Env where
  raises _ _ := none
  reply _ _ := ⟨"", "transaction executed locally", 0⟩
  answer _ := ""
  pathExists _ _ := false

def masterOne : Account := ⟨⟨"INE2", "5J2"⟩, "masterone"⟩

def oneMaster (maxMasters : Int) : TestChain where
  configPath := "Config"
  serverUrl := "127.0.0.1"
  devKeys := ⟨"INE1", "5J1"⟩
  guiPlugins := []
  genesisPath := "genesis"
  masters := [masterOne]
  mastersPath := "masters"
  maxMasters
  walletPsw := ""
  systemAccounts := []
  bootPath := "boot"
  systemPath := "system"
  tokenPath := "token"
  guiContractPath := "inerygui"
  k2ContractPath := "k2ultra"
  features := []
  defaultWalletPath := "default.wallet"
  nodinePath := "nodine"
  clinePath := "cline"

end TestChain

end LocalChain
