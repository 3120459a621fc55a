import LocalChain.K2ultra.Answer

namespace LocalChain.K2ultra

open LocalChain.Inery LocalChain.Store

variable {host : Host} {txs after : List Tx} {tx : Tx} {state next : State} {a b : Name}
  {s : UInt64} {row : Requests}

/-- What users do among themselves. -/
def conversational : List ActionName :=
  [.sendrequest, .resprequest, .rmcontact, .blockcontact, .favcontact, .mutecontact, .changealias,
    .sendmsg]

/-- An answer to an account, or the removal of it, by someone whose row for it carries the id. -/
def Reaches (a : Name) (s : UInt64) (state : State) (action : Action) : Bool :=
  match action.answer? with
  | none => false
  | some (owner, other) =>
    other = a && ((state.requests owner.value).indexFind Requests.byContact other.value).any fun mine =>
      mine.scope = s

/-- Without its owner's authority, only an answer that reaches it changes a row. -/
theorem row_kept (held : state.book a s = some row) (committed : step host state tx = some next)
    (listed : tx.action.name ∈ conversational) (unauthorised : a ∉ tx.auth)
    (apart : Reaches a s state tx.action = false) : next.book a s = some row := by
  cases answers : tx.action.answer? with
  | some pair =>
    obtain ⟨authorised, mine, theirs, answered⟩ := step_answered committed answers
    rw [answered.elsewhere a s, held]
    rintro ⟨place, same | same⟩
    · exact unauthorised (same ▸ authorised)
    · subst place same
      simp [Reaches, answers, answered.found] at apart
  | none =>
    cases (step_effect committed).book with
    | opened _ effect =>
      rw [effect.book]
      refine Book.put_old ?_ (Book.put_old effect.freeTo held)
      simp [Book.put, effect.distinct, effect.freeFrom]
    | edited _ authorised effect =>
      rw [effect.book]
      refine Book.put_eq_some.mpr (.inr ⟨fun hit => ?_, held⟩)
      exact unauthorised (hit.1 ▸ authorised)
    | untouched _ book => rw [book, held]
    | accepted called => simp [called, Action.answer?] at answers
    | dissolved called =>
      rw [Action.answer?_of_dissolve? called] at answers
      cases answers
    | deleted called => simp [called, Action.name, conversational] at listed
    | cascaded called => simp [called, Action.name, conversational] at listed
    | dropped called => simp [called, Action.name, conversational] at listed
    | forced called => simp [called, Action.name, conversational] at listed

theorem run_row_kept (held : state.book a s = some row)
    (listed : ∀ later ∈ after, later.action.name ∈ conversational)
    (unauthorised : ∀ later ∈ after, a ∉ later.auth)
    (apart : ∀ entry ∈ journal (step host) state after,
      Reaches a s entry.before entry.tx.action = false) :
    (run (step host) state after).book a s = some row := by
  refine run_invariant (motive := fun (state : State) => state.book a s = some row)
    (fun (entry : Transition State Tx) => entry.tx.action.name ∈ conversational ∧
      a ∉ entry.tx.auth ∧ Reaches a s entry.before entry.tx.action = false) held ?_ ?_
  · rintro state tx next held committed ⟨listed, unauthorised, apart⟩
    exact row_kept held committed listed unauthorised apart
  · intro entry member
    have later := (step_of_mem_journal member).1
    exact ⟨listed _ later, unauthorised _ later, apart entry member⟩

/-- A removal of an account, or a refusal of it, by someone whose row for it carries the id. -/
def Removes (a : Name) (s : UInt64) (state : State) (action : Action) : Bool :=
  match action.dissolve? with
  | none => false
  | some (owner, other) =>
    other = a && ((state.requests owner.value).indexFind Requests.byContact other.value).any fun mine =>
      mine.scope = s

/-- Someone is still marked as blocked in the row. -/
def StillBlocked (a b : Name) (s : UInt64) (state : State) : Prop :=
  ∃ row, state.book a s = some row ∧ row.contact = b ∧ row.blocked = true

/-- Without its owner's authority, only a removal ends a block. -/
theorem step_blocked (blocked : StillBlocked a b s state) (committed : step host state tx = some next)
    (listed : tx.action.name ∈ conversational) (unauthorised : a ∉ tx.auth)
    (apart : Removes a s state tx.action = false) : StillBlocked a b s next := by
  obtain ⟨row, held, names, marked⟩ := blocked
  by_cases reaches : Reaches a s state tx.action = false
  · exact ⟨row, row_kept held committed listed unauthorised reaches, names, marked⟩
  cases (step_effect committed).book with
  | @accepted owner from' key mine theirs called authorised effect =>
    have other : a ≠ owner := fun same => unauthorised (same ▸ authorised)
    by_cases hit : a = from' ∧ s = (theirs.answered key).scope
    · obtain ⟨rfl, same⟩ := hit
      have counterpart := effect.counterpart
      have place : theirs.scope = mine.scope := State.book_scope counterpart
      rw [← place, ← Requests.answered_scope key theirs, ← same, held] at counterpart
      obtain rfl := Option.some.inj counterpart
      refine ⟨row.answered key, ?_, names, marked⟩
      rw [effect.book]
      refine Book.put_eq_some.mpr (.inr ⟨fun hit => other hit.1, ?_⟩)
      exact Book.put_eq_some.mpr (.inl ⟨rfl, same, rfl⟩)
    · refine ⟨row, ?_, names, marked⟩
      rw [effect.book]
      exact Book.put_eq_some.mpr (.inr ⟨fun hit => other hit.1, Book.put_eq_some.mpr (.inr ⟨hit, held⟩)⟩)
  | @dissolved owner contact mine theirs called authorised effect =>
    have other : a ≠ owner := fun same => unauthorised (same ▸ authorised)
    have away : ¬ (a = contact ∧ s = mine.scope) := by
      rintro ⟨rfl, rfl⟩
      simp [Removes, called, effect.found] at apart
    refine ⟨row, ?_, names, marked⟩
    rw [effect.book, Book.drop, if_neg away, Book.drop, if_neg fun hit => other hit.1]
    exact held
  | edited called => cases action : tx.action <;> rw [action] at called <;>
    simp_all [Reaches, Action.answer?, Action.edit?]
  | untouched quiet => cases action : tx.action <;> rw [action] at quiet <;>
    simp_all [Reaches, Action.answer?, Action.writesRequests]
  | _ => simp_all [Reaches, Action.answer?]

theorem run_blocked (blocked : StillBlocked a b s state)
    (listed : ∀ later ∈ after, later.action.name ∈ conversational)
    (unauthorised : ∀ later ∈ after, a ∉ later.auth)
    (apart : ∀ entry ∈ journal (step host) state after, Removes a s entry.before entry.tx.action = false) :
    StillBlocked a b s (run (step host) state after) := by
  refine run_invariant (motive := StillBlocked a b s)
    (fun (entry : Transition State Tx) => entry.tx.action.name ∈ conversational ∧
      a ∉ entry.tx.auth ∧ Removes a s entry.before entry.tx.action = false) blocked ?_ ?_
  · rintro state tx next blocked committed ⟨listed, unauthorised, apart⟩
    exact step_blocked blocked committed listed unauthorised apart
  · intro entry member
    have later := (step_of_mem_journal member).1
    exact ⟨listed _ later, unauthorised _ later, apart entry member⟩

/-- What blocking leaves in the table of the account that blocks. -/
theorem blocked_row (committed : step host state tx = some next)
    (called : tx.action = .blockcontact a b true) :
    ∃ row, next.book a row.scope = some row ∧ row.contact = b ∧ row.blocked = true ∧
      row.cntct = false := by
  have edits : tx.action.edit? = some (a, b, Requests.setBlocked true) := by rw [called]; rfl
  obtain ⟨mine, effect⟩ := (step_effect committed).book.edited_of edits
  exact ⟨mine.setBlocked true, by simp [effect.book, Book.put], (State.book_of_lookup effect.found).2, rfl, rfl⟩

/-- A block stays, through whatever the others do, until someone whose row for the owner carries the id of the
blocked row removes the owner or refuses it; and until then or an acceptance from there the row stays as its
owner left it. -/
theorem block_holds (committed : step host (reached host txs) tx = some next)
    (called : tx.action = .blockcontact a b true)
    (listed : ∀ later ∈ after, later.action.name ∈ conversational)
    (unauthorised : ∀ later ∈ after, a ∉ later.auth) :
    ∃ row ∈ (next.requests a.value).rows,
      row.contact = b ∧ row.blocked = true ∧ row.cntct = false ∧
        ((∀ entry ∈ journal (step host) next after,
            Removes a row.scope entry.before entry.tx.action = false) →
          ∃ later ∈ ((run (step host) next after).requests a.value).rows,
            later.scope = row.scope ∧ later.contact = b ∧ later.blocked = true) ∧
        ((∀ entry ∈ journal (step host) next after,
            Reaches a row.scope entry.before entry.tx.action = false) →
          row ∈ ((run (step host) next after).requests a.value).rows) := by
  obtain ⟨row, held, names, blocked, unconnected⟩ := blocked_row committed called
  refine ⟨row, State.mem_rows.mpr held, names, blocked, unconnected, fun apart => ?_, fun apart => ?_⟩
  · have still : StillBlocked a b row.scope next := ⟨row, held, names, blocked⟩
    obtain ⟨later, present, others, marked⟩ := run_blocked still listed unauthorised apart
    have place : later.scope = row.scope := State.book_scope present
    exact ⟨later, State.mem_rows.mpr (place ▸ present), place, others, marked⟩
  · exact State.mem_rows.mpr (run_row_kept held listed unauthorised apart)

/-- Alice blocks Bob. -/
def blocking : Tx := .signed alice (.blockcontact alice bob true)

/-- Bob marks, blocks and unblocks Alice, and writes to her. -/
def provoked : List Tx :=
  [.signed bob (.favcontact bob alice true), .signed bob (.blockcontact bob alice true),
    .signed bob (.blockcontact bob alice false), .signed bob (.sendmsg 0 bob "hello" 0)]

/-- Bob also answers Alice once more, which writes to her row. -/
def pressed : List Tx :=
  provoked ++ [.signed bob (.resprequest bob alice "kz" true), .signed bob (.favcontact bob alice false)]

theorem provoked_block_holds :
    ∃ row ∈ ((run (step chain) (exec (step chain) (reached chain accepted) blocking)
        provoked).requests alice.value).rows,
      row.contact = bob ∧ row.blocked = true ∧ row.cntct = false ∧
        ∃ later ∈ ((run (step chain) (exec (step chain) (reached chain accepted) blocking)
            pressed).requests alice.value).rows,
          later.scope = row.scope ∧ later.contact = bob ∧ later.blocked = true := by
  have committed : step chain (reached chain accepted) blocking =
      some (exec (step chain) (reached chain accepted) blocking) := committed_exec (by decide +kernel)
  have only : ∀ other ∈ ((exec (step chain) (reached chain accepted) blocking).requests
      alice.value).rows, other.scope = 0 ∧ other.key = "kb" := by decide +kernel
  obtain ⟨row, present, names, blocked, unconnected, _, keeps⟩ :=
    block_holds committed rfl (by decide : ∀ later ∈ provoked, later.action.name ∈ conversational) (by decide)
  obtain ⟨same, present', _, _, _, stays, _⟩ :=
    block_holds committed rfl (by decide : ∀ later ∈ pressed, later.action.name ∈ conversational) (by decide)
  rw [(only same present').1] at stays
  rw [(only row present).1] at keeps
  refine ⟨row, keeps (by decide +kernel), names, blocked, unconnected, ?_⟩
  rw [(only row present).1]
  exact stays (by decide +kernel)

/-- Bob undoes Alice's block by removing her: her row goes with his. -/
theorem removal_undoes_block :
    (step chain (reached chain accepted) blocking).isSome ∧
      ∀ later ∈ [Tx.signed bob (.rmcontact bob alice)],
        later.action.name ∈ conversational ∧ alice ∉ later.auth ∧
          ¬ ∃ row ∈ ((run (step chain) (exec (step chain) (reached chain accepted) blocking)
            [later]).requests alice.value).rows, row.contact = bob := by
  decide +kernel

end LocalChain.K2ultra
