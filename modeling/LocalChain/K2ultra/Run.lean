import LocalChain.K2ultra.Step
import LocalChain.Store.Journal

namespace LocalChain.K2ultra

open LocalChain.Inery LocalChain.Inery.MultiIndex LocalChain.Store

/-- A run that calls none of the given actions. -/
def Without (excluded : List ActionName) (txs : List Tx) : Prop :=
  ∀ tx ∈ txs, tx.action.name ∉ excluded

instance Without.decidable (excluded : List ActionName) (txs : List Tx) : Decidable (Without excluded txs) :=
  inferInstanceAs (Decidable (∀ tx ∈ txs, tx.action.name ∉ excluded))

/-- The state after a list of transactions from empty tables. Aborted ones change nothing. -/
def reached (host : Host) (txs : List Tx) : State := run (step host) State.initial txs

/-- The committed transactions among them, with the states around each. -/
def history (host : Host) (txs : List Tx) : List (Transition State Tx) :=
  journal (step host) State.initial txs

/-- A conversation that a `sendrequest` opened. -/
structure Opening where
  from' : Name
  to' : Name
  scope : UInt64
deriving DecidableEq

def opening? (entry : Transition State Tx) : Option Opening :=
  match entry.tx.action with
  | .sendrequest from' to' _ =>
    some ⟨from', to', nextPrimaryKey unsetNextPrimaryKey entry.before.adresses⟩
  | _ => none

/-- The conversations that a run opened, oldest first. -/
def openings (host : Host) (txs : List Tx) : List Opening :=
  (history host txs).filterMap opening?

variable {host : Host} {excluded fewer : List ActionName} {txs : List Tx}

theorem Without.mono (without : Without excluded txs) (fewerExcluded : fewer ⊆ excluded) :
    Without fewer txs :=
  fun tx member named => without tx member (fewerExcluded named)

theorem Without.nothing (txs : List Tx) : Without [] txs := fun _ _ => List.not_mem_nil

theorem Without.entry (without : Without excluded txs) {state : State}
    {entry : Transition State Tx} (member : entry ∈ journal (step host) state txs) :
    entry.tx.action.name ∉ excluded :=
  without entry.tx (step_of_mem_journal member).1

/-- Induction over the committed transactions of a run without some actions. -/
theorem reached_history {motive : List (Transition State Tx) → State → Prop}
    (initial : motive [] State.initial)
    (extend : ∀ past (state next : State) (tx : Tx), motive past state →
      step host state tx = some next → tx.action.name ∉ excluded →
      motive (past ++ [⟨state, tx, next⟩]) next)
    (without : Without excluded txs) : motive (history host txs) (reached host txs) :=
  run_history (fun entry => entry.tx.action.name ∉ excluded) initial
    (fun past state tx next held committed => extend past state next tx held committed)
    fun _ member => without.entry member

/-- A property of states that every committed action outside a list keeps holds after every run
without these actions. -/
theorem reached_invariant {motive : State → Prop} (initial : motive State.initial)
    (stable : ∀ (state next : State) (tx : Tx), motive state → step host state tx = some next →
      tx.action.name ∉ excluded → motive next)
    (without : Without excluded txs) : motive (reached host txs) :=
  reached_history (motive := fun _ => motive) initial (fun _ => stable) without

theorem reached_append (host : Host) (first second : List Tx) :
    reached host (first ++ second) = run (step host) (reached host first) second :=
  run_append _ _ _

/-- The id that a `sendrequest` gives out is the next key of the id table. -/
theorem Opened.next_key {context : Context} {from' to' : Name} {key : ByteString} {scope : UInt64}
    {state next : State} (effect : Opened context from' to' key scope state next) :
    nextPrimaryKey unsetNextPrimaryKey state.adresses = scope :=
  (availablePrimaryKey_eq_ok.mp effect.granted).1

/-! A chain and three accounts for closed examples. They register with an empty phrase, whose hash
is the one given here. -/

def chain : Host where
  self := ⟨0x80b51cdcc0000000⟩
  sha256 _ := #v[0xe3, 0xb0, 0xc4, 0x42, 0x98, 0xfc, 0x1c, 0x14, 0x9a, 0xfb, 0xf4, 0xc8, 0x99, 0x6f,
    0xb9, 0x24, 0x27, 0xae, 0x41, 0xe4, 0x64, 0x9b, 0x93, 0x4c, 0xa4, 0x95, 0x99, 0x1b, 0x78, 0x52,
    0xb8, 0x55]

def alice : Name := ⟨0x345c850000000000⟩

def bob : Name := ⟨0x3d0e000000000000⟩

def carol : Name := ⟨0x41af488000000000⟩

/-- An action signed by one account, at time zero and with zeroed memory. -/
def Tx.signed (account : Name) (action : Action) : Tx := ⟨[account], ⟨0⟩, fun _ => .zeroed, action⟩

def Tx.unsigned (action : Action) : Tx := ⟨[], ⟨0⟩, fun _ => .zeroed, action⟩

def registered : List Tx :=
  [.signed alice (.reguser alice "" "" ""), .signed bob (.reguser bob "" "" "")]

def asking : Tx := .signed alice (.sendrequest alice bob "ka")

/-- Alice and Bob register, and Alice asks Bob. -/
def requested : List Tx := registered ++ [asking]

/-- Bob accepts. -/
def accepted : List Tx := requested ++ [.signed bob (.resprequest bob alice "kb" true)]

/-- Bob removes Alice, who then asks again. -/
def reopened : List Tx :=
  accepted ++ [.signed bob (.rmcontact bob alice), .signed alice (.sendrequest alice bob "kc")]

end LocalChain.K2ultra
