import LocalChain.TestChain.State

namespace LocalChain.TestChain

variable (chain : TestChain)

/-- The address of a node of this machine. -/
def endpoint (port : Nat) : String := chain.serverUrl ++ ":" ++ toString port

/-- The lines that depend on the arguments are the same in both scripts that start a node. -/
def nodeScript (hardReplay : Bool) (path : String) (keys : Keys) (port : Nat) (master : String) : Script where
  dataDir := path ++ "/blockchain"
  nodine := chain.nodinePath
  genesisJson := chain.genesisPath ++ "/genesis.json"
  hardReplay := hardReplay
  masterName := if master ≠ "" then master else "inery"
  httpServerAddress := "0.0.0.0:" ++ toString ((port : Int) - 122)
  https := []
  p2pListenEndpoint := chain.endpoint port
  p2pPeerAddresses := []
  signatureProvider := keys.publicKey ++ "=KEY:" ++ keys.privateKey

def addPeerAddresses (script : Script) (port : Nat) : Script :=
  { script with p2pPeerAddresses := (List.range' 9010 (port - 9010)).map chain.endpoint }

def addHttpsConfiguration (script : Script) : Script :=
  { script with https := ["0.0.0.0:443", "/etc/letsencrypt/live/" ++ chain.serverUrl ++ "/fullchain.pem",
      "/etc/letsencrypt/live/" ++ chain.serverUrl ++ "/privkey.pem"] }

/-- The branch for the genesis node adds nothing here. -/
def genesisScript (path : String) (keys : Keys) (port : Nat) (peers : Bool) (master : String) : Script :=
  let script := chain.nodeScript false path keys port master
  if peers then chain.addPeerAddresses script port else script

def hardReplayScript (path : String) (keys : Keys) (port : Nat) (peers genesis : Bool) (master : String) :
    Script :=
  let script := chain.nodeScript true path keys port master
  let script := if peers then chain.addPeerAddresses script port else script
  if genesis then chain.addHttpsConfiguration script else script

def stopScript (path : String) : Content := .stop (path ++ "/blockchain")

/-- Nothing that is added to a script changes where the node listens. -/
theorem genesisScript_listens (path : String) (keys : Keys) (port : Nat) (peers : Bool) (master : String) :
    (chain.genesisScript path keys port peers master).p2pListenEndpoint = chain.endpoint port := by
  cases peers <;> rfl

theorem hardReplayScript_listens (path : String) (keys : Keys) (port : Nat) (peers genesis : Bool)
    (master : String) :
    (chain.hardReplayScript path keys port peers genesis master).p2pListenEndpoint =
      chain.endpoint port := by
  cases peers <;> cases genesis <;> rfl

end LocalChain.TestChain
