import LocalChain.K2ultra.Conversation

namespace LocalChain.K2ultra

open LocalChain.Graph LocalChain.Inery LocalChain.Store

variable {host : Host} {txs : List Tx} {tx : Tx} {state next : State} {holder giver x : Name}
  {s : UInt64} {key : ByteString} {row updated : Requests} {entry : Transition State Tx}
  {past : List (Transition State Tx)}

/-- The key that a committed action gives to the row of `holder` for `giver`. -/
def keyGiven? (holder giver : Name) (entry : Transition State Tx) : Option ByteString :=
  match entry.tx.action with
  | .sendrequest from' to' key => if from' = giver ∧ to' = holder then some key else none
  | .resprequest owner from' key true => if owner = giver ∧ from' = holder then some key else none
  | _ => none

/-- The key given last, or the empty one. -/
def lastKey (holder giver : Name) (entries : List (Transition State Tx)) : ByteString :=
  ((entries.filterMap (keyGiven? holder giver)).getLast?).getD ""

theorem keyGiven?_eq_some :
    keyGiven? holder giver entry = some key ↔
      entry.tx.action = .sendrequest giver holder key ∨
        entry.tx.action = .resprequest giver holder key true := by
  unfold keyGiven?
  split <;> simp_all [and_assoc]

theorem keyGiven?_eq_none (unsent : ∀ key, entry.tx.action ≠ .sendrequest giver holder key)
    (unanswered : ∀ key, entry.tx.action ≠ .resprequest giver holder key true) :
    keyGiven? holder giver entry = none := by
  cases given : keyGiven? holder giver entry with
  | none => rfl
  | some key =>
    rcases keyGiven?_eq_some.mp given with called | called
    · exact absurd called (unsent key)
    · exact absurd called (unanswered key)

/-- The caller's own row is given no key. -/
theorem keyGiven?_caller (apart : holder ≠ giver)
    (called : entry.tx.action = .sendrequest holder giver key ∨
      entry.tx.action = .resprequest holder giver key true) : keyGiven? holder giver entry = none := by
  rcases called with called | called <;> simp [keyGiven?, called, apart]

theorem lastKey_append (entries : List (Transition State Tx)) :
    lastKey holder giver (entries ++ [entry]) =
      (keyGiven? holder giver entry).getD (lastKey holder giver entries) := by
  cases given : keyGiven? holder giver entry <;> simp [lastKey, given]

/-- A row goes back to the request that created it, and holds the key given last since then. -/
inductive Sourced (past : List (Transition State Tx)) (holder : Name) (row : Requests) : Prop where
  | intro (before : List (Transition State Tx)) (creation : Transition State Tx)
      (since : List (Transition State Tx)) (opening : Opening)
      (split : past = before ++ creation :: since) (opens : opening? creation = some opening)
      (scope : opening.scope = row.scope)
      (pair : Links.SamePair holder row.contact opening.from' opening.to')
      (key : row.key = lastKey holder row.contact (creation :: since))

theorem Sourced.extend (sourced : Sourced past holder row) (scope : updated.scope = row.scope)
    (contact : updated.contact = row.contact)
    (key : updated.key = (keyGiven? holder row.contact entry).getD row.key) :
    Sourced (past ++ [entry]) holder updated := by
  obtain ⟨before, creation, since, opening, rfl, opens, place, pair, latest⟩ := sourced
  refine ⟨before, creation, since ++ [entry], opening, by simp, opens, place.trans scope.symm, ?_, ?_⟩
  · rwa [contact]
  · rw [contact, ← List.cons_append, lastKey_append, ← latest, key]

theorem Sourced.created {opening : Opening} (opens : opening? entry = some opening)
    (scope : opening.scope = row.scope)
    (pair : Links.SamePair holder row.contact opening.from' opening.to')
    (key : row.key = (keyGiven? holder row.contact entry).getD "") :
    Sourced (past ++ [entry]) holder row :=
  ⟨past, entry, [], opening, rfl, opens, scope, pair, key.trans (lastKey_append []).symm⟩

/-- What the law of keys rests on: the ids name one pair, and a pair shares one id. -/
structure State.Paired (state : State) : Prop where
  exclusive : state.Exclusive
  simple : state.links.Simple
  irreflexive : state.links.Irreflexive

theorem State.Paired.step (paired : state.Paired) (committed : step host state tx = some next)
    (permitted : tx.action.name ∉ reusing) : next.Paired where
  exclusive := paired.exclusive.step committed permitted
  simple := simple_step paired.simple committed (ne_forcerequest permitted)
  irreflexive := by
    obtain ⟨legal, moved⟩ := step_links committed
    exact moved ▸ paired.irreflexive.apply legal

/-- The row found by its id is the one that names the caller. -/
theorem State.Paired.namesBack (paired : state.Paired) {owner other : Name} :
    NamesBack owner other state := by
  intro mine theirs found held
  have edge := State.links_of_lookup found
  have back := State.links_of_book held
  rcases paired.exclusive.unshared _ _ _ _ _ edge back with ⟨rfl, _⟩ | ⟨same, _⟩
  · exact absurd edge (paired.irreflexive owner mine.scope)
  · exact same.symm

/-- A row that an action leaves alone is given no key by it. -/
private theorem kept_ungiven (paired : state.Paired) (committed : step host state tx = some next)
    (before : state.book x s = some row) (after : next.book x s = some row) :
    keyGiven? x row.contact ⟨state, tx, next⟩ = none := by
  have moved := (step_effect committed).book
  refine keyGiven?_eq_none (fun key called => ?_) (fun key called => ?_)
  · obtain ⟨scope, effect⟩ := moved.opened_of called
    exact effect.unasked s row before rfl
  · obtain ⟨_, mine, theirs, effect⟩ := moved.accepted_of called
    have edge := State.links_of_lookup effect.found
    have names := paired.namesBack mine theirs effect.found effect.counterpart
    have theirEdge := State.links_of_book effect.counterpart
    rw [names] at theirEdge
    obtain rfl := paired.simple x _ _ _ (State.links_of_book before) theirEdge
    obtain rfl := Option.some.inj (before.symm.trans effect.counterpart)
    have apart : x ≠ row.contact := by
      rintro same
      exact paired.irreflexive x mine.scope (by rw [theirEdge, ← same])
    have stale : row.answered key = row := by
      simpa [effect.book, Book.put, apart, State.book_scope before] using after
    have flag := congrArg Requests.cntct stale
    rw [effect.unanswered] at flag
    cases flag

theorem sourced_step (paired : state.Paired) (committed : step host state tx = some next)
    (permitted : tx.action.name ∉ reusing)
    (sourced : ∀ x s row, state.book x s = some row → Sourced past x row)
    (held : next.book x s = some row) : Sourced (past ++ [⟨state, tx, next⟩]) x row := by
  cases (step_effect committed).book.origin held with
  | kept before =>
    refine (sourced x s row before).extend rfl rfl ?_
    rw [kept_ungiven paired committed before held]
    rfl
  | received called effect result =>
    subst result
    refine .created (opening_of_opened called effect) rfl (.inr ⟨rfl, rfl⟩) ?_
    rw [Requests.received_contact, keyGiven?_eq_some.mpr (.inl called)]
    rfl
  | sent called effect result =>
    subst result
    refine .created (opening_of_opened called effect) rfl (.inl ⟨rfl, rfl⟩) ?_
    rw [Requests.sent_contact, keyGiven?_caller effect.distinct (.inl called)]
    rfl
  | forced called => exact absurd called (ne_forcerequest permitted)
  | answered called place effect result =>
    subst result
    refine (sourced _ _ _ effect.counterpart).extend rfl rfl ?_
    rw [paired.namesBack _ _ effect.found effect.counterpart, keyGiven?_eq_some.mpr (.inr called)]
    rfl
  | @confirmed from' _ mine _ called place effect result =>
    subst result
    obtain ⟨before, names⟩ := State.book_of_lookup effect.found
    have apart : x ≠ from' := by
      rintro rfl
      exact paired.irreflexive x mine.scope (State.links_of_lookup effect.found)
    refine (sourced _ _ _ before).extend rfl rfl ?_
    rw [names, keyGiven?_caller apart (.inr called)]
    rfl
  | edited called place effect result =>
    subst result
    have annotates := Requests.annotates_of_edit called
    obtain ⟨before, _⟩ := State.book_of_lookup effect.found
    refine (sourced _ _ _ before).extend (annotates.scope _) (annotates.contact _) ?_
    rw [keyGiven?_eq_none, annotates.key]
    · rfl
    · intro key called'
      rw [called'] at called
      cases called
    · intro key called'
      rw [called'] at called
      cases called

theorem keyGiven?_authorised (member : entry ∈ history host txs)
    (given : (keyGiven? holder giver entry).isSome) : giver ∈ entry.tx.auth := by
  have moved := (step_effect (step_of_mem_journal member).2).book
  obtain ⟨key, given⟩ := Option.isSome_iff_exists.mp given
  rcases keyGiven?_eq_some.mp given with called | called
  · obtain ⟨scope, effect⟩ := moved.opened_of called
    exact effect.authorised
  · exact (moved.accepted_of called).1

theorem reached_sourced (without : Without reusing txs) :
    (reached host txs).Paired ∧
      ∀ x s row, (reached host txs).book x s = some row → Sourced (history host txs) x row := by
  refine reached_history
    (motive := fun past state => state.Paired ∧
      ∀ x s row, state.book x s = some row → Sourced past x row) ⟨⟨initial_exclusive, ?_, ?_⟩, ?_⟩ ?_ without
  · intro a s t b held
    cases held
  · intro a s held
    cases held
  · intro x s row held
    cases held
  · rintro past state next tx ⟨paired, sourced⟩ committed permitted
    exact ⟨paired.step committed permitted,
      fun x s row => sourced_step paired committed permitted sourced⟩

/-- The key that an account holds for another is the one which that other account gave last since the
row was created, in its own name each time. -/
theorem key_provenance (without : Without reusing txs)
    (present : row ∈ ((reached host txs).requests holder.value).rows) :
    Sourced (history host txs) holder row ∧
      ∀ entry ∈ history host txs, (keyGiven? holder row.contact entry).isSome →
        row.contact ∈ entry.tx.auth :=
  ⟨(reached_sourced without).2 holder row.scope row (State.mem_rows.mp present),
    fun _ member => keyGiven?_authorised member⟩

/-- Alice's key for Bob is the one he accepted with. -/
theorem accepted_provenance :
    ∃ row ∈ ((reached chain accepted).requests alice.value).rows, row.key = "kb" ∧
      Sourced (history chain accepted) alice row ∧
        ∀ entry ∈ history chain accepted, (keyGiven? alice row.contact entry).isSome →
          row.contact ∈ entry.tx.auth := by
  have present : ((Requests.fresh .zeroed).sent 0 bob).answered "kb" ∈
      ((reached chain accepted).requests alice.value).rows := by decide +kernel
  exact ⟨_, present, rfl, key_provenance (by decide) present⟩

end LocalChain.K2ultra
