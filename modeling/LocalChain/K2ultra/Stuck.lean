import LocalChain.K2ultra.Commits

namespace LocalChain.K2ultra

open LocalChain.Graph LocalChain.Inery LocalChain.Inery.MultiIndex LocalChain.Store

variable {host : Host} {txs : List Tx} {state : State} {a b : Name}

/-- The account gets on with another one: it can remove it where either holds a row for the other,
and ask it where neither does. -/
structure Unstuck (host : Host) (a b : Name) (state : State) : Prop where
  linked : state.holds a b ∨ state.holds b a → ∀ tx : Tx, a ∈ tx.auth →
    tx.action = .rmcontact a b → (step host state tx).isSome
  unlinked : ¬ (state.holds a b ∨ state.holds b a) → ∀ (tx : Tx) (key : ByteString), a ∈ tx.auth →
    tx.action = .sendrequest a b key →
      (∃ scope, availablePrimaryKey unsetNextPrimaryKey state.adresses = .ok scope) →
        (step host state tx).isSome

/-- A removal needs both rows. -/
theorem holds_of_removal (unshared : state.links.Unshared) {tx : Tx}
    (called : tx.action = .rmcontact a b) (commits : (step host state tx).isSome) :
    state.holds a b ∧ state.holds b a := by
  obtain ⟨_, distinct, mine, found, present⟩ := (rmcontact_isSome called).mp commits
  obtain ⟨theirs, counterpart⟩ := Option.isSome_iff_exists.mp present
  have edge := State.links_of_lookup found
  have back := State.links_of_book counterpart
  rcases unshared a b b theirs.contact mine.scope edge back with ⟨same, _⟩ | ⟨same, _⟩
  · exact absurd same distinct
  · rw [← same] at back
    exact ⟨State.holds_iff.mpr ⟨_, edge⟩, State.holds_iff.mpr ⟨_, back⟩⟩

/-- Two rows of a pair carry one id, so the caller's row leads to the other one. -/
theorem removal_of_holds (twinned : state.links.Twinned) (distinct : a ≠ b) {tx : Tx}
    (authorised : a ∈ tx.auth) (called : tx.action = .rmcontact a b) (mine : state.holds a b)
    (theirs : state.holds b a) : (step host state tx).isSome := by
  obtain ⟨row, found⟩ := State.lookup_of_holds mine
  obtain ⟨s, back⟩ := State.holds_iff.mp theirs
  have same := twinned a b row.scope s (State.links_of_lookup found) back
  refine (rmcontact_isSome called).mpr ⟨authorised, distinct, row, found, ?_⟩
  obtain ⟨other, held, _⟩ := Book.links_eq_some.mp back
  rw [same]
  exact Option.isSome_iff_exists.mpr ⟨other, held⟩

/-- Two registered accounts get on with each other exactly if none of them holds a row for the other
alone. -/
theorem unstuck_iff (without : Without reusing txs) (distinct : a ≠ b)
    (registered : ((reached host txs).profiles.find? a.value).isSome)
    (known : ((reached host txs).profiles.find? b.value).isSome) :
    Unstuck host a b (reached host txs) ↔
      ((reached host txs).holds a b ↔ (reached host txs).holds b a) := by
  have exclusive : (reached host txs).Exclusive := reached_exclusive without
  constructor
  · intro unstuck
    have both (either : (reached host txs).holds a b ∨ (reached host txs).holds b a) :
        (reached host txs).holds a b ∧ (reached host txs).holds b a :=
      holds_of_removal exclusive.unshared rfl
        (unstuck.linked either (.signed a (.rmcontact a b)) (by simp [Tx.signed]) rfl)
    exact ⟨fun mine => (both (.inl mine)).2, fun theirs => (both (.inr theirs)).1⟩
  · intro paired
    constructor
    · intro either tx authorised called
      have mine : (reached host txs).holds a b := either.elim id paired.mpr
      exact removal_of_holds (reached_twinned (without.mono (by decide))) distinct authorised called
        mine (paired.mp mine)
    · intro neither tx key authorised called granted
      refine (sendrequest_isSome exclusive called).mpr ⟨⟨authorised, registered, known, distinct, ?_, ?_⟩,
        granted⟩
      · exact fun theirs => neither (.inr theirs)
      · exact fun mine => neither (.inl mine)

/-- Alice can remove Bob, whom she has asked. -/
theorem requested_unstuck : Unstuck chain alice bob (reached chain requested) := by
  refine (unstuck_iff (by decide) (by decide) (by decide +kernel) (by decide +kernel)).mpr ?_
  unfold State.holds
  decide +kernel

/-- Alice is deleted and registers again, while Bob keeps his row for her. -/
def renewed : List Tx :=
  accepted ++ [.signed chain.self (.deleteuser alice), .signed alice (.reguser alice "" "" "")]

/-- From then on the two can neither remove nor ask each other. -/
theorem renewed_stuck :
    (∀ tx ∈ renewed, tx.action.name ∈ [ActionName.reguser, .deleteuser, .sendrequest, .resprequest,
        .rmcontact, .blockcontact]) ∧
      ((reached chain renewed).profiles.find? alice.value).isSome ∧
      ((reached chain renewed).profiles.find? bob.value).isSome ∧
      ¬ Unstuck chain alice bob (reached chain renewed) ∧
      (step chain (reached chain renewed) (.signed alice (.rmcontact alice bob))).isSome = false ∧
      (step chain (reached chain renewed) (.signed bob (.rmcontact bob alice))).isSome = false ∧
      (step chain (reached chain renewed) (.signed alice (.sendrequest alice bob ""))).isSome = false ∧
      (step chain (reached chain renewed) (.signed bob (.sendrequest bob alice ""))).isSome = false := by
  have theirs : (reached chain renewed).holds bob alice := by
    unfold State.holds
    decide +kernel
  have fails : (step chain (reached chain renewed) (.signed alice (.rmcontact alice bob))).isSome = false := by
    decide +kernel
  refine ⟨by decide, by decide +kernel, by decide +kernel, fun unstuck => ?_, fails, by decide +kernel,
    by decide +kernel, by decide +kernel⟩
  have commits := unstuck.linked (.inr theirs) (.signed alice (.rmcontact alice bob)) (by decide) rfl
  rw [fails] at commits
  cases commits

end LocalChain.K2ultra
