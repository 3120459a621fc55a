import LocalChain.Inerygui.Run
import LocalChain.Store.Since

namespace LocalChain.Inerygui

open LocalChain.Inery LocalChain.Store
open LocalChain.K2ultra (Host)

variable {host : Host} {txs : List Tx} {tx : Tx} {state next : State} {row updated : User}
  {id : UInt64} {twords : List Checksum256} {past : List (Transition State Tx)}
  {guiname : ByteString} {action : Action}

/-- The words of a user were given to an `addtwords`, and the user was not erased since. -/
def Stored (host : Host) (past : List (Transition State Tx)) (id : UInt64)
    (twords : List Checksum256) : Prop :=
  Since (fun entry => ∃ guiname, entry.tx.action = .addtwords guiname twords ∧
      host.stringToUInt64 guiname = id)
    (fun entry => entry.tx.action ≠ .rmusers) past

theorem User.Edit.sets_password (edit : User.Edit guiname action row updated)
    (changed : updated.password ≠ row.password) :
    action = .recoverpsw guiname row.twords updated.password := by
  cases edit with
  | password called result => subst result; exact called
  | twords _ _ result | version result | accounts _ result | servers result | templates _ result
  | plugins _ result =>
    subst result
    exact absurd rfl changed

theorem User.Edit.sets_twords (edit : User.Edit guiname action row updated)
    (changed : updated.twords ≠ row.twords) : action = .addtwords guiname updated.twords := by
  cases edit with
  | twords called _ result => subst result; exact called
  | password _ result | version result | accounts _ result | servers result | templates _ result
  | plugins _ result =>
    subst result
    exact absurd rfl changed

/-- Words that a user has were stored. -/
def WordsStored (host : Host) (past : List (Transition State Tx)) (state : State) : Prop :=
  ∀ row ∈ state.user.rows, row.twords ≠ [] → Stored host past row.id row.twords

theorem ne_rmusers (committed : step host state tx = some next) (present : updated ∈ next.user.rows) :
    tx.action ≠ .rmusers := by
  intro called
  obtain ⟨contract, printed, done, rfl⟩ := step_eq_some.mp committed
  rw [called] at done
  obtain ⟨_, rfl⟩ := rmusers_ok done
  cases present

theorem WordsStored.step (stored : WordsStored host past state)
    (committed : step host state tx = some next) :
    WordsStored host (past ++ [⟨state, tx, next⟩]) next := by
  intro row present words
  have kept := ne_rmusers committed present
  have before {old : User} {k : UInt64} (held : state.user.find? k = some old)
      (place : row.id = old.id) (same : row.twords = old.twords) :
      Stored host (past ++ [⟨state, tx, next⟩]) row.id row.twords := by
    rw [same] at words
    rw [place, same]
    exact (stored old (Table.find?_eq_some.mp held).1 words).extend kept
  cases step_origin committed (Table.find?_self present) with
  | registered _ _ result => subst result; exact absurd rfl words
  | upgraded held _ result => subst result; exact before held rfl rfl
  | kept held => exact before held rfl rfl
  | @edited guiname old held place edit =>
    by_cases same : row.twords = old.twords
    · exact before held place same
    · have hashed := Table.key_of_find? held
      exact .now ⟨_, edit.sets_twords same, (place.trans hashed).symm⟩

theorem reached_wordsStored (host : Host) (txs : List Tx) :
    WordsStored host (history host txs) (reached host txs) :=
  run_induction (fun _ present => by cases present)
    (fun _ _ _ _ stored committed => stored.step committed) txs

/-- A recovery that commits gives the row found by the name its new password, and the words were those
of the row. -/
theorem recoverpsw_ok {newpassword : Checksum256}
    (committed : step host state tx = some next)
    (called : tx.action = .recoverpsw guiname twords newpassword) :
    ∃ row, state.user.find? (host.stringToUInt64 guiname) = some row ∧ twords = row.twords ∧
      next.user.find? (host.stringToUInt64 guiname) = some { row with password := newpassword } := by
  obtain ⟨contract, printed, done, rfl⟩ := step_eq_some.mp committed
  have edit : tx.action.edit? (tx.context host).now (Contract.construct state).gstate.version =
      some (guiname, User.recoverpsw twords newpassword) := by rw [called]; rfl
  obtain ⟨_, row, updated, found, edits, _, rfl⟩ := (dispatch_edit_isOk edit).mp ⟨printed, done⟩
  simp only [User.recoverpsw, bind_eq_ok, check_eq_ok, decide_eq_true_eq, pure_eq_ok] at edits
  obtain ⟨_, same, rfl⟩ := edits
  have place : row.id = host.stringToUInt64 guiname := Table.key_of_find? found
  exact ⟨row, found, same, Table.find?_put_of_key _ place⟩

/-- A password is changed only by a recovery for its row. -/
theorem password_step (committed : step host state tx = some next)
    (before : state.user.find? id = some row) (after : next.user.find? id = some updated)
    (changed : updated.password ≠ row.password) :
    ∃ guiname, tx.action = .recoverpsw guiname row.twords updated.password ∧
      host.stringToUInt64 guiname = id := by
  have place : updated.id = id := Table.key_of_find? after
  cases step_origin committed after with
  | registered _ absent result =>
    subst result
    cases absent.symm.trans (place ▸ before)
  | upgraded held _ result =>
    rw [place] at held
    cases held.symm.trans before
    subst result
    exact absurd rfl changed
  | kept held =>
    rw [place] at held
    cases held.symm.trans before
    exact absurd rfl changed
  | @edited guiname old held same edit =>
    have hashed : old.id = host.stringToUInt64 guiname := Table.key_of_find? held
    have found : host.stringToUInt64 guiname = id := by rw [← hashed, ← same, place]
    have here : state.user.find? id = some old := found ▸ held
    cases here.symm.trans before
    exact ⟨guiname, edit.sets_password changed, found⟩

/-- The new password of a user was set by a recovery with the words that the user had stored. -/
def Recovered (host : Host) (past : List (Transition State Tx)) (action : Action) (id : UInt64)
    (newpassword : Checksum256) : Prop :=
  ∃ guiname twords, action = .recoverpsw guiname twords newpassword ∧
    host.stringToUInt64 guiname = id ∧ twords ≠ [] ∧ Stored host past id twords

/-- Wherever the password of a row changes in the run, the user has recovered it. -/
def PasswordsGuarded (host : Host) (txs : List Tx) : Prop :=
  ∀ past entry later, history host txs = past ++ entry :: later →
    ∀ id row updated, entry.before.user.find? id = some row → entry.after.user.find? id = some updated →
      updated.password ≠ row.password → Recovered host past entry.tx.action id updated.password

/-- Not a recovery without words that gives the row another password. -/
def WordsAsked (host : Host) (state : State) : Action → Prop
  | .recoverpsw guiname twords newpassword =>
    twords = [] → ∀ row, state.user.find? (host.stringToUInt64 guiname) = some row →
      row.password = newpassword
  | _ => True

/-- The passwords of a run are guarded by words exactly if none is replaced by a recovery without
words, which is accepted for a user who has none. -/
theorem passwords_guarded_iff :
    PasswordsGuarded host txs ↔
      ∀ entry ∈ history host txs, WordsAsked host entry.before entry.tx.action := by
  constructor
  · intro guarded entry member
    obtain ⟨past, later, split⟩ := List.append_of_mem member
    have committed := (step_of_mem_journal member).2
    cases called : entry.tx.action with
    | recoverpsw guiname twords newpassword =>
      intro none row found
      obtain ⟨_, held, _, after⟩ := recoverpsw_ok committed called
      cases found.symm.trans held
      by_contra differs
      obtain ⟨_, _, called', _, words, _⟩ :=
        guarded past entry later split _ _ _ found after (Ne.symm differs)
      rw [called] at called'
      cases called'
      exact words none
    | _ => trivial
  · intro asked past entry later split id row updated before after changed
    have member : entry ∈ history host txs := by rw [split]; simp
    obtain ⟨earlier, journaled, ends, committed⟩ := journal_split split
    obtain ⟨guiname, called, hashed⟩ := password_step committed before after changed
    have place : row.id = id := Table.key_of_find? before
    have words : row.twords ≠ [] := by
      intro none
      have condition := asked entry member
      rw [called, none] at condition
      exact changed (condition rfl row (hashed ▸ before)).symm
    have stored := reached_wordsStored host earlier
    rw [show history host earlier = past from journaled,
      show reached host earlier = entry.before from ends] at stored
    refine ⟨guiname, row.twords, called, hashed, words, ?_⟩
    exact place ▸ stored row (Table.find?_eq_some.mp before).1 words

/-- The user sets a new password with the stored word. -/
def recovered : List Tx :=
  worded ++ [.signed chain.self (.recoverpsw gui [word] otherPassword)]

theorem recovered_guarded :
    (∃ row ∈ (reached chain recovered).user.rows, row.password = otherPassword) ∧
      PasswordsGuarded chain recovered := by
  refine ⟨by decide +kernel, passwords_guarded_iff.mpr fun entry member => ?_⟩
  have given := (step_of_mem_journal member).1
  simp only [recovered, worded, registered, List.cons_append, List.nil_append, List.mem_cons,
    List.not_mem_nil, or_false] at given
  rcases given with same | same | same <;> rw [same]
  · trivial
  · trivial
  · intro none
    cases none

/-- A new password is set with no words before any are stored. -/
def unguarded : List Tx :=
  registered ++ [.signed chain.self (.recoverpsw gui [] otherPassword)]

theorem unguarded_not_guarded : ¬ PasswordsGuarded chain unguarded := by
  intro guarded
  have split : history chain unguarded = history chain registered ++
      [⟨reached chain registered, .signed chain.self (.recoverpsw gui [] otherPassword), _⟩] :=
    journal_concat (committed_exec (by decide +kernel))
  obtain ⟨_, _, called, _, words, _⟩ := guarded _ _ _ split (chain.stringToUInt64 gui)
    ((User.fresh ⟨0⟩).registered (chain.stringToUInt64 gui) gui password "V-1.0.0")
    { (User.fresh ⟨0⟩).registered (chain.stringToUInt64 gui) gui password "V-1.0.0" with
      password := otherPassword } (by decide +kernel) (by decide +kernel) (by decide)
  cases called
  exact words rfl

end LocalChain.Inerygui
