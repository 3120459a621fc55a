import LocalChain.Inerygui.Step
import LocalChain.Store.Journal

namespace LocalChain.Inerygui

open LocalChain.Inery LocalChain.Store
open LocalChain.K2ultra (Host)

/-- The state after a list of transactions from empty tables. Aborted ones change nothing. -/
def reached (host : Host) (txs : List Tx) : State := run (step host) State.initial txs

/-- The committed transactions among them, with the states around each. -/
def history (host : Host) (txs : List Tx) : List (Transition State Tx) :=
  journal (step host) State.initial txs

variable {host : Host} {txs later : List Tx} {state : State} {row : User} {k : UInt64}

/-- What holds of the empty tables and is kept by every committed action holds after every run. -/
theorem reached_invariant {motive : State → Prop} (initial : motive State.initial)
    (stable : ∀ (state next : State) (tx : Tx), motive state → step host state tx = some next →
      motive next) (txs : List Tx) : motive (reached host txs) :=
  run_induction (motive := fun _ => motive) initial
    (fun _ state tx next held committed => stable state next tx held committed) txs

/-- A user row is followed by later versions of itself until `rmusers` is called. -/
theorem run_follows (held : state.user.find? k = some row)
    (kept : ∀ entry ∈ journal (step host) state later, entry.tx.action ≠ .rmusers) :
    ∃ updated, (run (step host) state later).user.find? k = some updated ∧ row.Follows updated := by
  refine run_invariant
    (motive := fun (current : State) => ∃ updated, current.user.find? k = some updated ∧
      row.Follows updated)
    (fun (entry : Transition State Tx) => entry.tx.action ≠ .rmusers) ⟨row, held, .refl row⟩ ?_ kept
  rintro state tx next ⟨updated, found, follows⟩ committed allowed
  obtain ⟨last, found', follows'⟩ := step_follows committed allowed found
  exact ⟨last, found', follows.trans follows'⟩

/-! A chain for closed examples. Its two names have SHA-256 hashes that agree in the first eight
bytes. -/

def gui : ByteString := "fmikepcglgngimhd"

def namesake : ByteString := "lcldcifnappbhblo"

def chain : Host where
  self := ⟨0x74d57f334e000000⟩
  sha256 s :=
    if s = namesake then
      #v[0x6f, 0x16, 0x2c, 0x12, 0x58, 0xa7, 0x2e, 0x2d, 0x0b, 0xa7, 0xe0, 0x39, 0x64, 0xa8, 0x80,
        0x93, 0x27, 0xb5, 0x10, 0xd1, 0xeb, 0xb4, 0xc3, 0x48, 0x84, 0x6b, 0xdc, 0x68, 0x27, 0x9a,
        0x92, 0x01]
    else
      #v[0x6f, 0x16, 0x2c, 0x12, 0x58, 0xa7, 0x2e, 0x2d, 0x6f, 0xab, 0xc0, 0x70, 0xfa, 0x4d, 0x99,
        0x13, 0xea, 0x54, 0x12, 0xd4, 0x7f, 0x43, 0xda, 0x07, 0xa9, 0x77, 0x78, 0xaf, 0x4c, 0xd0,
        0x13, 0x89]

def second : ByteString := "second"

def third : ByteString := "third"

/-- A chain on which three users can register, with the hashes of their names. -/
def registry : Host where
  self := chain.self
  sha256 s :=
    if s = second then
      #v[0x16, 0x36, 0x7a, 0xac, 0xb6, 0x7a, 0x4a, 0x01, 0x7c, 0x8d, 0xa8, 0xab, 0x95, 0x68, 0x2c,
        0xcb, 0x39, 0x08, 0x63, 0x78, 0x0f, 0x71, 0x14, 0xdd, 0xa0, 0xa0, 0xe0, 0xc5, 0x56, 0x44,
        0xc7, 0xc4]
    else if s = third then
      #v[0xb1, 0xe9, 0x93, 0x24, 0x50, 0x5b, 0xd3, 0x2d, 0xa0, 0xe1, 0xf8, 0x5d, 0xcf, 0x5e, 0x19,
        0xa0, 0x9d, 0xb0, 0x48, 0x1e, 0x8a, 0x15, 0xf6, 0x2c, 0x41, 0xeb, 0x32, 0x03, 0x04, 0xa8,
        0xe9, 0x27]
    else chain.sha256 s

def alice : Name := ⟨0x345c850000000000⟩

def bob : Name := ⟨0x3d0e000000000000⟩

/-- An action signed by one account, at time zero and with zeroed memory. -/
def Tx.signed (account : Name) (action : Action) : Tx := ⟨[account], ⟨0⟩, ⟨0⟩, action⟩

def password : Checksum256 := .replicate 32 1

def otherPassword : Checksum256 := .replicate 32 2

def word : Checksum256 := .replicate 32 3

/-- One user is registered. -/
def registered : List Tx := [.signed chain.self (.adduser gui password "V-1.0.0")]

/-- The user stores a word. -/
def worded : List Tx := registered ++ [.signed chain.self (.addtwords gui [word])]

end LocalChain.Inerygui
