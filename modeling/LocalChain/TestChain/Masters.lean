import LocalChain.TestChain.Scripts

namespace LocalChain.TestChain

open LocalChain.Python

variable (env : Env) (chain : TestChain)

def createAccount (account ownerkey activekey creator : String) : Method Unit := do
  let ownerkey := if ownerkey = "" then chain.devKeys.publicKey else ownerkey
  let activekey := if activekey = "" then ownerkey else activekey
  let _ ← popen env [chain.clinePath, "system", "opendb", creator, account, ownerkey, activekey] ""

/-! The genesis node. -/

/-- What `cline` writes when a contract is set, or was set already. -/
def contractSet (error : List Char) : Bool :=
  contains "transaction executed locally".toList error ||
    contains "the new code is the same as the existing".toList error

/-- The loop that sets a contract, cut off after as many calls as it makes at most. Only the loop for the
system contract prints what the calls return. -/
def setContract (path : String) (verbose : Bool) : Nat → Method Unit
  | 0 => return ()
  | calls + 1 => do
    let result ← popen env [chain.clinePath, "set", "contract", "inery", path] ""
    let error := bytesStr result.err.toUTF8.toList
    if contractSet error ∨ error = [] then
      if verbose then print (String.ofList (bytesStr result.out.toUTF8.toList))
    else
      if verbose then print (String.ofList error)
      setContract path verbose calls

def pushAction (contract action data permission : String) : List String :=
  [chain.clinePath, "push", "action", contract, action, data, "-p", permission]

/-- The calls of `cline` between the system contract and the plugins. -/
def setupCalls : List (List String) :=
  [[chain.clinePath, "set", "contract", "inery.token", chain.tokenPath],
    chain.pushAction "inery.token" "create" "[\"inery\", \"800000000.000000 INR\"]" "inery@active",
    chain.pushAction "inery.token" "issue"
      "[\"inery\", \"432000000.000000 INR\", \"Issuing tokens for inery account\"]" "inery@active",
    chain.pushAction "inery.token" "create" "[\"inery\", \"128000000000 BYTE\"]" "inery@active",
    chain.pushAction "inery.token" "issue"
      "[\"inery\", \"38000000000 BYTE\", \"Issuing BYTE for inery account\"]" "inery@active",
    [chain.clinePath, "transfer", "inery", "inery.mem", "100000000 INR"],
    [chain.clinePath, "transfer", "inery", "creator", "10000000000 BYTE"],
    [chain.clinePath, "transfer", "inery", "creator", "100000000 INR"],
    chain.pushAction "inery" "init" "[\"0\", \"4,INR\"]" "inery@active",
    [chain.clinePath, "set", "contract", "inerygui", chain.guiContractPath],
    [chain.clinePath, "set", "contract", "k2ultra", chain.k2ContractPath]]

def pluginData (plugin : GuiPlugin) : String :=
  "[\"" ++ toString plugin.id ++ "\", \"" ++ plugin.pluginName ++ "\", \"" ++ plugin.pluginDesc ++
    "\", \"" ++ toString plugin.required ++ "\"]"

/-- The part of `run_genesis` whose exceptions are caught. -/
def initContracts : Method Unit := do
  perform env (.shell ("curl --request POST --url " ++
    "http://127.0.0.1:8888/v1/master/schedule_protocol_feature_activations -d " ++
    "'\x7b\"protocol_features_to_activate\":" ++
    "[\"0ec7e080177b2c02b278d5088611686b49d739925a92d9bfcacd7fc6b74053bd\"]\x7d'"))
  setContract env chain chain.bootPath false 20
  forM chain.systemAccounts fun account =>
    perform env (.run [chain.clinePath, "create", "opendb", "inery", account.name, account.publicKey])
  forM chain.features fun feature =>
    perform env (.popen (chain.pushAction "inery" "activate" ("[\"" ++ feature ++ "\"]") "inery") "")
  setContract env chain chain.systemPath true 20
  forM chain.setupCalls fun args => perform env (.popen args "")
  forM chain.guiPlugins fun plugin =>
    perform env (.popen (chain.pushAction "inerygui" "addpluging" (pluginData plugin) "inerygui@active") "")
  print "Contracts initilized"

def runGenesis : Method Unit := do
  perform env (.makedirs chain.genesisPath)
  let port ← getPort
  let genesisStart := join chain.genesisPath "genesis_start.sh"
  let hardReplay := join chain.genesisPath "hard_replay.sh"
  let stop := join chain.genesisPath "stop.sh"
  perform env (.write (join chain.genesisPath "genesis.json") (.genesisJson chain.devKeys.publicKey))
  perform env (.write genesisStart (.script (chain.genesisScript chain.genesisPath chain.devKeys port false "")))
  perform env (.write hardReplay
    (.script (chain.hardReplayScript chain.genesisPath chain.devKeys port false true "")))
  perform env (.write stop (stopScript chain.genesisPath))
  perform env (.chmod genesisStart)
  perform env (.chmod hardReplay)
  perform env (.chmod stop)
  perform env (.system genesisStart)
  print "Blockchain started"
  try
    initContracts env chain
  catch error =>
    print "An error has occured while initializatig contracts! \n"
    print error.text

/-! The masters. -/

/-- The directory of a master's scripts. -/
def masterPath (master : Account) : String := join chain.mastersPath ("master_" ++ master.name)

def startPath (master : Account) : String := join (chain.masterPath master) "genesis_start.sh"

def processMaster (master : Account) : Method Unit := do
  createAccount env chain master.name master.publicKey "" "creator"
  let dirPath := chain.masterPath master
  perform env (.makedirs dirPath)
  let genstartPath := chain.startPath master
  let hardreplayPath := join dirPath "hard_replay.sh"
  let stopPath := join dirPath "stop.sh"
  let port ← getPort
  print ("Starting master " ++ master.name ++ " at port : " ++ toString port ++ " ")
  perform env (.write genstartPath
    (.script (chain.genesisScript dirPath master.toKeys port true master.name)))
  perform env (.write hardreplayPath
    (.script (chain.hardReplayScript dirPath master.toKeys port true false master.name)))
  perform env (.write stopPath (stopScript dirPath))
  perform env (.chmod genstartPath)
  perform env (.chmod hardreplayPath)
  perform env (.chmod stopPath)
  perform env (.system genstartPath)
  print ("Started master " ++ master.name ++ " at port : " ++ toString port ++ " ")

/-- Binds one master, with the port for it. Returns the port for the next. -/
def approve (port : Nat) (master : Account) : Method Nat := do
  try
    perform env (.run [chain.clinePath, "transfer", "inery", master.name, "50000 INR"])
    perform env (.run [chain.clinePath, "system", "stake", "inery", master.name, "50000 INR"])
    perform env (.run [chain.clinePath, "master", "bind", master.name, master.publicKey,
      chain.serverUrl ++ toString port])
    pure (port + 1)
  catch ex =>
    print ex.text
    pure port

/-- Binds the masters from a list on, with `port` for the next of them. -/
def approveLoop (port masterCnt : Nat) : List Account → Method Unit
  | [] => return ()
  | master :: rest => do
    if chain.maxMasters ≤ masterCnt then
      return ()
    else
      let port ← approve env chain port master
      approveLoop port (masterCnt + 1) rest

def approveMasters : Method Unit := approveLoop env chain 9010 0 chain.masters

/-- Starts the masters from a list on. The source counts those whose `process_master` has returned; here
they are also listed. -/
def startLoop (masterCnt : Nat) : List Account → Method (List Account)
  | [] => return []
  | master :: rest => do
    if chain.maxMasters ≤ masterCnt then
      return []
    else
      let returned ←
        try
          processMaster env chain master
          pure true
        catch ex =>
          print ex.text
          pure false
      if returned then
        let started ← startLoop (masterCnt + 1) rest
        return master :: started
      else
        startLoop masterCnt rest

/-- Returns the masters whose `process_master` has returned. -/
def runMasters : Method (List Account) := do
  let started ← startLoop env chain 0 chain.masters
  approveMasters env chain
  return started

end LocalChain.TestChain
