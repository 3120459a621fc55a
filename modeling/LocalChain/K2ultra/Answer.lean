import LocalChain.K2ultra.ContactGraph

namespace LocalChain.K2ultra

open LocalChain.Graph LocalChain.Inery LocalChain.Store

variable {host : Host} {txs : List Tx} {tx : Tx} {action : Action} {state next : State}
  {owner other : Name} {mine theirs : Requests}

/-- The actions that write the rows of two accounts: the caller's, found by its contact, and another
one, found by the id of the first. -/
def Action.answer? : Action → Option (Name × Name)
  | .resprequest owner from' _ _ => some (owner, from')
  | .rmcontact owner contact => some (owner, contact)
  | _ => none

theorem Action.answer?_of_dissolve? (called : action.dissolve? = some (owner, other)) :
    action.answer? = some (owner, other) := by
  cases action with
  | resprequest owner from' key accept =>
    cases accept with
    | true => cases called
    | false => exact called
  | rmcontact owner contact => exact called
  | _ => cases called

/-- What these actions have in common when they commit. -/
structure Answered (owner other : Name) (mine theirs : Requests) (state next : State) : Prop where
  found : (state.requests owner.value).indexFind Requests.byContact other.value = some mine
  counterpart : state.book other mine.scope = some theirs
  sub : next.links.Sub state.links
  elsewhere : ∀ x s, ¬ (s = mine.scope ∧ (x = owner ∨ x = other)) →
    next.book x s = state.book x s
  changed : owner ≠ other → next.book other mine.scope ≠ some theirs
  only : OnlyRequests state next

private theorem Accepted.answered {key : ByteString}
    (effect : Accepted owner other key mine theirs state next) (same : next.links = state.links) :
    Answered owner other mine theirs state next where
  found := effect.found
  counterpart := effect.counterpart
  sub := by
    intro x s y held
    rwa [same] at held
  elsewhere := by
    intro x s apart
    have theirScope := State.book_scope effect.counterpart
    have first : ¬ (x = owner ∧ s = mine.scope) := fun hit => apart ⟨hit.2, .inl hit.1⟩
    have second : ¬ (x = other ∧ s = theirs.scope) :=
      fun hit => apart ⟨hit.2.trans theirScope, .inr hit.1⟩
    simp [effect.book, Book.put, first, second]
  changed := by
    intro distinct held
    have theirScope := State.book_scope effect.counterpart
    have apart : other ≠ owner := distinct.symm
    have rewritten : theirs.answered key = theirs := by
      simpa [effect.book, Book.put, apart, theirScope] using held
    have flag := congrArg Requests.cntct rewritten
    rw [effect.unanswered] at flag
    cases flag
  only := effect.elsewhere

private theorem Dissolved.answered (effect : Dissolved owner other mine theirs state next) :
    Answered owner other mine theirs state next where
  found := effect.found
  counterpart := effect.counterpart
  sub := by
    rw [State.links, effect.book, Book.links_drop, Book.links_drop]
    intro x s y held
    exact Links.drop_sub _ _ _ _ _ _ (Links.drop_sub _ _ _ _ _ _ held)
  elsewhere := by
    intro x s apart
    have first : ¬ (x = owner ∧ s = mine.scope) := fun hit => apart ⟨hit.2, .inl hit.1⟩
    have second : ¬ (x = other ∧ s = mine.scope) := fun hit => apart ⟨hit.2, .inr hit.1⟩
    simp [effect.book, Book.drop, first, second]
  changed := by
    intro _
    simp [effect.book, Book.drop]
  only := effect.elsewhere

theorem step_answered (committed : step host state tx = some next)
    (called : tx.action.answer? = some (owner, other)) :
    owner ∈ tx.auth ∧ ∃ mine theirs, Answered owner other mine theirs state next := by
  have unmoved {key : ByteString} (accepts : tx.action = .resprequest owner other key true) :
      next.links = state.links := by
    have moved := (step_links committed).2
    rw [accepts] at moved
    exact moved
  cases (step_effect committed).book with
  | accepted called' authorised effect =>
    rw [called'] at called
    cases called
    exact ⟨authorised, _, _, effect.answered (unmoved called')⟩
  | dissolved called' authorised effect =>
    rw [Action.answer?_of_dissolve? called'] at called
    cases called
    exact ⟨authorised, _, _, effect.answered⟩
  | edited called' => cases action : tx.action <;> rw [action] at called called' <;> contradiction
  | untouched quiet => cases action : tx.action <;> rw [action] at called quiet <;> contradiction
  | _ => simp_all [Action.answer?]

/-- Only rows between two accounts differ between two states. -/
def OnlyPair (owner other : Name) (state next : State) : Prop :=
  ∀ x s, next.book x s ≠ state.book x s →
    ∀ row, state.book x s = some row ∨ next.book x s = some row →
      x = owner ∧ row.contact = other ∨ x = other ∧ row.contact = owner

/-- The row that the other account holds under the id of the owner's row names the owner. -/
def NamesBack (owner other : Name) (state : State) : Prop :=
  ∀ mine theirs,
    (state.requests owner.value).indexFind Requests.byContact other.value = some mine →
      state.book other mine.scope = some theirs → theirs.contact = owner

theorem Answered.onlyPair_iff (irreflexive : state.links.Irreflexive)
    (answered : Answered owner other mine theirs state next) :
    OnlyPair owner other state next ↔ NamesBack owner other state := by
  have edge := State.links_of_lookup answered.found
  have distinct : owner ≠ other := by
    rintro rfl
    exact irreflexive owner mine.scope edge
  constructor
  · intro only mine' theirs' found held
    rw [answered.found] at found
    cases found
    rw [answered.counterpart] at held
    cases held
    have differs : next.book other mine.scope ≠ state.book other mine.scope := by
      rw [answered.counterpart]
      exact answered.changed distinct
    rcases only other mine.scope differs theirs (.inl answered.counterpart) with hit | hit
    · exact absurd hit.1.symm distinct
    · exact hit.2
  · intro names x s differs row held
    have touched : s = mine.scope ∧ (x = owner ∨ x = other) := by
      by_contra apart
      exact differs (answered.elsewhere x s apart)
    obtain ⟨rfl, place⟩ := touched
    have link : state.links x mine.scope = some row.contact := by
      rcases held with held | held
      · exact State.links_of_book held
      · exact answered.sub _ _ _ (State.links_of_book held)
    rcases place with rfl | rfl
    · exact .inl ⟨rfl, Option.some.inj (link.symm.trans edge)⟩
    · have back := State.links_of_book answered.counterpart
      rw [names mine theirs answered.found answered.counterpart] at back
      exact .inr ⟨rfl, Option.some.inj (link.symm.trans back)⟩

/-- In every reachable state, answering a request or removing a contact keeps to the named pair
exactly if the row found by the id alone names the caller. -/
theorem answer_onlyPair_iff (committed : step host (reached host txs) tx = some next)
    (called : tx.action.answer? = some (owner, other)) :
    OnlyPair owner other (reached host txs) next ↔ NamesBack owner other (reached host txs) := by
  obtain ⟨_, mine, theirs, answered⟩ := step_answered committed called
  exact answered.onlyPair_iff (reached_irreflexive host txs)

theorem requested_onlyPair :
    ∃ next, step chain (reached chain requested) (.signed bob (.rmcontact bob alice)) = some next ∧
      OnlyPair bob alice (reached chain requested) next := by
  have committed : (step chain (reached chain requested)
      (.signed bob (.rmcontact bob alice))).isSome := by decide +kernel
  obtain ⟨next, committed⟩ := Option.isSome_iff_exists.mp committed
  refine ⟨next, committed, (answer_onlyPair_iff committed rfl).mpr ?_⟩
  intro mine theirs found held
  have first : ((reached chain requested).requests bob.value).indexFind Requests.byContact alice.value =
      some (.received 0 alice "ka" (.fresh .zeroed)) := by decide +kernel
  have second : (reached chain requested).book alice 0 =
      some (.sent 0 bob (.fresh .zeroed)) := by decide +kernel
  obtain rfl := Option.some.inj (first.symm.trans found)
  obtain rfl := Option.some.inj (second.symm.trans held)
  rfl

/-- Bob's row for Alice outlives hers, whose id then joins Alice to Carol. -/
def strayed : List Tx :=
  [.unsigned (.forcerequest 7 alice bob "" ""), .unsigned (.deletereqs2 bob alice),
    .unsigned (.forcerequest 7 alice carol "" "")]

/-- By removing Alice, Bob then erases the row that Alice holds for Carol. -/
theorem strayed_not_onlyPair :
    ∃ next, step chain (reached chain strayed) (.signed bob (.rmcontact bob alice)) = some next ∧
      ¬ OnlyPair bob alice (reached chain strayed) next := by
  have committed : (step chain (reached chain strayed)
      (.signed bob (.rmcontact bob alice))).isSome := by decide +kernel
  obtain ⟨next, committed⟩ := Option.isSome_iff_exists.mp committed
  refine ⟨next, committed, fun only => ?_⟩
  have held : (reached chain strayed).book alice 7 = some (.forced 7 carol "" (.fresh .zeroed)) := by
    decide +kernel
  have gone : next.book alice 7 = none := by
    have erased : (exec (step chain) (reached chain strayed)
        (.signed bob (.rmcontact bob alice))).book alice 7 = none := by decide +kernel
    rwa [exec_of_committed committed] at erased
  have differs : next.book alice 7 ≠ (reached chain strayed).book alice 7 := by
    simp [gone, held]
  have touched := only alice 7 differs _ (.inl held)
  revert touched
  decide

end LocalChain.K2ultra
