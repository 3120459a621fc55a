import LocalChain.K2ultra.Commits

namespace LocalChain.K2ultra

open LocalChain.Graph LocalChain.Inery LocalChain.Inery.MultiIndex LocalChain.Store

variable {host : Host} {txs : List Tx} {tx : Tx} {state next start : State}

/-- No account has two rows for one contact, and no id belongs to two pairs of accounts. -/
structure State.Apart (state : State) : Prop where
  simple : state.links.Simple
  unshared : state.links.Unshared

/-- No account holds a row under the id. -/
def State.Unused (state : State) (scope : UInt64) : Prop := ∀ x, state.book x scope = none

/-- The steps that keep conversations apart: a request takes an id that no row has, and so does a forced
one, which moreover joins accounts that hold no row for each other. -/
def KeepsApart (state : State) : Action → Prop
  | .sendrequest _ _ _ => state.Unused (nextPrimaryKey unsetNextPrimaryKey state.adresses)
  | .forcerequest scope cnt1 cnt2 _ _ =>
    state.Unused scope ∧ ¬ state.holds cnt1 cnt2 ∧ ¬ state.holds cnt2 cnt1
  | _ => True

theorem State.unused_iff {scope : UInt64} : state.Unused scope ↔ ¬ state.links.Used scope := by
  constructor
  · rintro unused ⟨x, y, edge⟩
    obtain ⟨row, held, _⟩ := Book.links_eq_some.mp edge
    rw [unused x] at held
    cases held
  · intro unused x
    cases held : state.book x scope with
    | none => rfl
    | some row => exact absurd ⟨x, row.contact, State.links_of_book held⟩ unused

private theorem cut_joins_nothing (state : State) (a b : Name) :
    (state.cut a b).Unlinked state.links ∧ (state.cut a b).Fresh state.links.Used := by
  unfold State.cut
  split <;> exact ⟨trivial, trivial⟩

/-- What the code checks before a request, and what is left to the state it finds. -/
private theorem keepsApart_iff (committed : step host state tx = some next) :
    (tx.action.move state).Unlinked state.links ∧ (tx.action.move state).Fresh state.links.Used ↔
      KeepsApart state tx.action := by
  have unforced := unlinked_step committed
  cases action : tx.action with
  | sendrequest a b key =>
    rw [action] at unforced
    have unlinked := unforced (by simp [Action.name])
    simp only [KeepsApart, State.unused_iff, Action.move, Links.Move.Fresh, and_iff_right_iff_imp]
    exact fun _ => unlinked
  | forcerequest scope a b =>
    simp only [KeepsApart, State.unused_iff, State.holds_iff, Action.move, Links.Move.Fresh,
      Links.Move.Unlinked, not_exists]
    tauto
  | resprequest owner from' key accept =>
    cases accept with
    | true => exact iff_of_true ⟨trivial, trivial⟩ trivial
    | false => exact iff_of_true (cut_joins_nothing _ _ _) trivial
  | rmcontact => exact iff_of_true (cut_joins_nothing _ _ _) trivial
  | deletereqs2 =>
    simp only [Action.move, KeepsApart, iff_true]
    split <;> exact ⟨trivial, trivial⟩
  | _ => exact iff_of_true ⟨trivial, trivial⟩ trivial

theorem apart_step (apart : state.Apart) (committed : step host state tx = some next) :
    next.Apart ↔ KeepsApart state tx.action := by
  obtain ⟨legal, moved⟩ := step_links committed
  rw [← keepsApart_iff committed, ← apart.simple.apply_iff legal, ← apart.unshared.apply_iff legal,
    ← moved]
  exact ⟨fun after => ⟨after.simple, after.unshared⟩, fun after => ⟨after.1, after.2⟩⟩

/-- From a state in which conversations are apart, the runs that keep them so are exactly those whose
requests, forced or not, take unused ids and join accounts without rows for each other. -/
theorem maintenance_apart_iff (apart : start.Apart) :
    (∀ earlier, earlier <+: txs → (run (step host) start earlier).Apart) ↔
      ∀ entry ∈ journal (step host) start txs, KeepsApart entry.before entry.tx.action :=
  run_prefixes_iff apart fun _ _ _ _ apart committed => apart_step apart committed

theorem reached_apart (without : Without reusing txs) : (reached host txs).Apart :=
  ⟨reached_simple (without.mono (by decide)), (reached_exclusive without).unshared⟩

/-- Alice and Carol are joined under an id that was never given out. -/
def joined : Tx := .unsigned (.forcerequest 7 alice carol "" "")

theorem joined_apart :
    (run (step chain) (reached chain requested) [joined]).links alice 7 = some carol ∧
      ∀ earlier, earlier <+: [joined] → (run (step chain) (reached chain requested) earlier).Apart := by
  refine ⟨by decide +kernel, ?_⟩
  refine (maintenance_apart_iff (reached_apart (by decide))).mpr fun entry member => ?_
  have committed : step chain (reached chain requested) joined = some _ :=
    committed_exec (by decide +kernel)
  simp only [journal, committed, List.mem_singleton] at member
  subst member
  have exclusive : (reached chain requested).Exclusive := reached_exclusive (by decide)
  refine ⟨State.unused_iff.mpr ?_, ?_⟩
  · rintro ⟨x, y, edge⟩
    have given := exclusive.within x 7 y edge
    revert given
    unfold State.given
    decide +kernel
  · unfold State.holds
    decide +kernel

def dave : Name := ⟨0x49b6a00000000000⟩

/-- Alice and Bob are contacts, and Carol and Dave register. -/
def crowded : List Tx :=
  accepted ++ [.signed carol (.reguser carol "" "" ""), .signed dave (.reguser dave "" "" "")]

/-- The ids are forgotten, and Carol asks Dave. -/
def forgotten : List Tx := [.unsigned .rraddr, .signed carol (.sendrequest carol dave "kc")]

/-- Carol and Dave then share an id, and the messages under it, with Alice and Bob. -/
theorem forgotten_not_apart :
    (reached chain crowded).links.Mirrored ∧ (reached chain crowded).Apart ∧
      ¬ (run (step chain) (reached chain crowded) forgotten).Apart := by
  refine ⟨reached_mirrored (by decide), reached_apart (by decide), fun apart => ?_⟩
  have first : (run (step chain) (reached chain crowded) forgotten).links alice 0 = some bob := by
    decide +kernel
  have second : (run (step chain) (reached chain crowded) forgotten).links carol 0 = some dave := by
    decide +kernel
  rcases apart.unshared _ _ _ _ 0 first second with ⟨same, _⟩ | ⟨same, _⟩
  · exact absurd same (by decide)
  · exact absurd same (by decide)

end LocalChain.K2ultra
