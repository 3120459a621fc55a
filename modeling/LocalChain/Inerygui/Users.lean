import LocalChain.Inerygui.Run

namespace LocalChain.Inerygui

open LocalChain.Inery LocalChain.Store
open LocalChain.K2ultra (Host)

variable {host : Host} {txs : List Tx} {row updated : User}

/-- A user row is stored under the hash of its name, and its lists have no repetition. -/
structure User.WellFormed (host : Host) (row : User) : Prop where
  named : row.id = host.stringToUInt64 row.guiname
  accounts : row.accounts.Nodup
  templates : row.templates.Nodup
  plugins : (row.plugins.map UserPlugin.id).Nodup

theorem User.WellFormed.follows (wellFormed : row.WellFormed host) (follows : row.Follows updated) :
    updated.WellFormed host where
  named := by rw [follows.id, follows.guiname, wellFormed.named]
  accounts := follows.accounts wellFormed.accounts
  templates := follows.templates wellFormed.templates
  plugins := follows.plugins wellFormed.plugins

/-- A new row is well formed whatever its memory held. -/
theorem User.wellFormed_registered {memory : Memory} {guiname version : ByteString}
    {password : Checksum256} :
    ((User.fresh memory).registered (host.stringToUInt64 guiname) guiname password version).WellFormed
      host :=
  ⟨rfl, List.nodup_nil, List.nodup_nil, List.nodup_nil⟩

def State.WellFormed (host : Host) (state : State) : Prop :=
  ∀ row ∈ state.user.rows, row.WellFormed host

theorem State.WellFormed.step {state next : State} {tx : Tx} (wellFormed : state.WellFormed host)
    (committed : step host state tx = some next) : next.WellFormed host := by
  intro row present
  have origin := step_origin committed (Table.find?_self present)
  have before {old : User} {k : UInt64} (held : state.user.find? k = some old) :
      old.WellFormed host := wellFormed old (Table.find?_eq_some.mp held).1
  cases origin with
  | registered _ _ result => exact result ▸ User.wellFormed_registered
  | edited held _ edit => exact (before held).follows edit.follows
  | upgraded held _ result =>
    subst result
    exact (before held).follows { User.Follows.refl _ with }
  | kept held => exact before held

theorem reached_wellFormed (host : Host) (txs : List Tx) : (reached host txs).WellFormed host :=
  reached_invariant (fun _ present => by cases present) (fun _ _ _ => State.WellFormed.step) txs

/-- In every state of every run a user row is well formed, and until `rmusers` erases it, it keeps its
name and id, and its words once it has any. -/
theorem user_rows (present : row ∈ (reached host txs).user.rows) :
    row.WellFormed host ∧
      ∀ later, (∀ entry ∈ journal (step host) (reached host txs) later, entry.tx.action ≠ .rmusers) →
        ∃ updated, (run (step host) (reached host txs) later).user.find? row.id = some updated ∧
          updated.guiname = row.guiname ∧ (row.twords ≠ [] → updated.twords = row.twords) := by
  refine ⟨reached_wellFormed host txs row present, fun later kept => ?_⟩
  obtain ⟨updated, found, follows⟩ := run_follows (Table.find?_self present) kept
  exact ⟨updated, found, follows.guiname, follows.twords⟩

/-- The word of the user stays when more are offered and a plugin is added. -/
theorem worded_row :
    ∃ row ∈ (reached chain worded).user.rows, row.twords = [word] ∧ row.WellFormed chain ∧
      ∃ updated, (run (step chain) (reached chain worded)
        [.signed chain.self (.addtwords gui [word, word]),
          .signed chain.self (.addpluginu gui 7)]).user.find? row.id = some updated ∧
        updated.guiname = row.guiname ∧ updated.twords = row.twords := by
  have present : { (User.fresh ⟨0⟩).registered (chain.stringToUInt64 gui) gui password
      "V-1.0.0" with twords := [word] } ∈ (reached chain worded).user.rows := by decide +kernel
  obtain ⟨wellFormed, stays⟩ := user_rows present
  obtain ⟨updated, found, named, words⟩ := stays
    [.signed chain.self (.addtwords gui [word, word]),
      .signed chain.self (.addpluginu gui 7)] (by decide +kernel)
  exact ⟨_, present, rfl, wellFormed, updated, found, named, words (by decide)⟩

end LocalChain.Inerygui
