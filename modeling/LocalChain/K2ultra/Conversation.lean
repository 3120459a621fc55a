import LocalChain.K2ultra.Answer

namespace LocalChain.K2ultra

open LocalChain.Graph LocalChain.Inery LocalChain.Inery.MultiIndex LocalChain.Store

variable {host : Host} {txs : List Tx} {tx : Tx} {state next : State}
  {past : List (Transition State Tx)} {opening : Opening} {a b : Name} {s : UInt64}

theorem opening_committed (committed : step host state tx = some next)
    (opens : opening? ⟨state, tx, next⟩ = some opening) :
    ∃ key, tx.action = .sendrequest opening.from' opening.to' key ∧
      Opened (tx.context host) opening.from' opening.to' key opening.scope state next := by
  unfold opening? at opens
  split at opens
  · rename_i from' to' key called
    obtain ⟨scope, effect⟩ := (step_effect committed).book.opened_of called
    rw [effect.next_key] at opens
    cases opens
    exact ⟨key, called, effect⟩
  · cases opens

theorem opening_of_opened {key : ByteString} (called : tx.action = .sendrequest a b key)
    (effect : Opened (tx.context host) a b key s state next) :
    opening? ⟨state, tx, next⟩ = some ⟨a, b, s⟩ := by
  simp only [opening?, called, effect.next_key]

/-- The ids given out in the past are registered and distinct, and every row belongs to a
conversation opened there. -/
structure Accounted (past : List (Transition State Tx)) (state : State) : Prop where
  given : ∀ opening ∈ past.filterMap opening?, state.given opening.scope
  distinct : ((past.filterMap opening?).map Opening.scope).Nodup
  opened : ∀ a s b, state.links a s = some b →
    ∃ opening ∈ past.filterMap opening?, opening.scope = s ∧ Links.SamePair a b opening.from' opening.to'

theorem Accounted.step (accounted : Accounted past state) (committed : step host state tx = some next)
    (permitted : tx.action.name ∉ reusing) : Accounted (past ++ [⟨state, tx, next⟩]) next := by
  constructor
  · intro opening member
    rw [List.filterMap_append, List.mem_append] at member
    rcases member with old | new
    · exact given_step committed (ne_rraddr permitted) (accounted.given opening old)
    · simp only [List.filterMap_cons, List.filterMap_nil] at new
      split at new
      · cases new
      · rename_i opens
        obtain ⟨_, _, effect⟩ := opening_committed committed opens
        rw [List.mem_singleton.mp new]
        exact effect.given
  · rw [List.filterMap_append, List.map_append, List.nodup_append]
    refine ⟨accounted.distinct, ?_, ?_⟩
    · cases opens : opening? ⟨state, tx, next⟩ <;> simp [opens]
    · intro old member new fresh same
      subst same
      obtain ⟨opening, present, rfl⟩ := List.mem_map.mp member
      cases opens : opening? ⟨state, tx, next⟩ with
      | none => simp [opens] at fresh
      | some opening' =>
        have same : opening.scope = opening'.scope := by simpa [opens] using fresh
        obtain ⟨_, _, effect⟩ := opening_committed committed opens
        exact effect.fresh (same ▸ accounted.given opening present)
  · intro a s b held
    obtain ⟨_, moved⟩ := step_links committed
    rw [moved] at held
    simp only [List.filterMap_append, List.mem_append]
    rcases Links.Move.apply_cases held with ⟨x, y, joins, pair⟩ | old
    · obtain ⟨key, called, effect⟩ := (step_effect committed).book.joined (ne_forcerequest permitted) joins
      refine ⟨⟨y, x, s⟩, .inr ?_, rfl, ?_⟩
      · simp [opening_of_opened called effect]
      · exact pair.elim .inr .inl
    · obtain ⟨opening, member, same, pair⟩ := accounted.opened a s b old
      exact ⟨opening, .inl member, same, pair⟩

theorem reached_accounted (without : Without reusing txs) :
    Accounted (history host txs) (reached host txs) := by
  refine reached_history ⟨?_, ?_, ?_⟩ (fun _ _ _ _ accounted => accounted.step) without
  · intro opening member
    cases member
  · exact List.nodup_nil
  · intro a s b held
    cases held

/-- Conversation ids are never reused: each is given out once, and two rows under one id are the two
sides of the request that it was given out for. -/
theorem conversation_ids (without : Without reusing txs) :
    ((openings host txs).map Opening.scope).Nodup ∧
      ∀ (a c : Name) (row other : Requests),
        row ∈ ((reached host txs).requests a.value).rows →
        other ∈ ((reached host txs).requests c.value).rows →
        row.scope = other.scope → (a, row) ≠ (c, other) →
        row.contact = c ∧ other.contact = a ∧
          ∃ opening ∈ openings host txs, opening.scope = row.scope ∧
            Links.SamePair a c opening.from' opening.to' := by
  have accounted : Accounted (history host txs) (reached host txs) := reached_accounted without
  refine ⟨accounted.distinct, fun a c row other present present' same different => ?_⟩
  have held := State.mem_rows.mp present
  have held' := State.mem_rows.mp present'
  rw [← same] at held'
  have apart : a ≠ c := by
    rintro rfl
    rw [held] at held'
    cases held'
    exact different rfl
  have edge := State.links_of_book held
  have edge' := State.links_of_book held'
  obtain ⟨opening, member, scope, pair⟩ := accounted.opened a row.scope row.contact edge
  rcases (reached_exclusive without).unshared a row.contact c other.contact row.scope edge edge' with
    ⟨together, _⟩ | ⟨first, second⟩
  · exact absurd together apart
  · rw [second] at pair
    exact ⟨second, first.symm, opening, member, scope, pair⟩

/-- Asking again after a removal takes a new id, under which both new rows stand. -/
theorem reopened_ids :
    openings chain reopened = [⟨alice, bob, 0⟩, ⟨alice, bob, 1⟩] ∧
      ((openings chain reopened).map Opening.scope).Nodup ∧
        ∃ row ∈ ((reached chain reopened).requests alice.value).rows,
          ∃ other ∈ ((reached chain reopened).requests bob.value).rows,
            row.scope = 1 ∧ other.scope = 1 ∧ row.contact = bob ∧ other.contact = alice ∧
              ∃ opening ∈ openings chain reopened, opening.scope = row.scope ∧
                Links.SamePair alice bob opening.from' opening.to' := by
  obtain ⟨distinct, sides⟩ := conversation_ids (by decide : Without reusing reopened)
  have mine : Requests.sent 1 bob (Requests.fresh .zeroed) ∈ ((reached chain reopened).requests alice.value).rows := by
    decide +kernel
  have theirs : Requests.received 1 alice "kc" (Requests.fresh .zeroed) ∈
      ((reached chain reopened).requests bob.value).rows := by decide +kernel
  obtain ⟨names, names', opened⟩ := sides alice bob _ _ mine theirs rfl (by decide)
  exact ⟨by decide +kernel, distinct, _, mine, _, theirs, rfl, rfl, names, names', opened⟩

end LocalChain.K2ultra
