import Mathlib.Data.List.Induction

namespace LocalChain.Store

variable {σ τ : Type}

/-- One committed transaction with the states around it. -/
structure Transition (σ τ : Type) where
  before : σ
  tx : τ
  after : σ

/-- A transaction that aborts leaves the state as it was. -/
def exec (step : σ → τ → Option σ) (state : σ) (tx : τ) : σ := (step state tx).getD state

def run (step : σ → τ → Option σ) (state : σ) (txs : List τ) : σ := txs.foldl (exec step) state

/-- The committed transactions of a run, oldest first. -/
def journal (step : σ → τ → Option σ) (state : σ) : List τ → List (Transition σ τ)
  | [] => []
  | tx :: rest =>
    match step state tx with
    | some next => ⟨state, tx, next⟩ :: journal step next rest
    | none => journal step state rest

variable {step : σ → τ → Option σ}

@[simp] theorem run_nil (state : σ) : run step state [] = state := rfl

@[simp] theorem run_cons (state : σ) (tx : τ) (rest : List τ) :
    run step state (tx :: rest) = run step (exec step state tx) rest := rfl

theorem run_append (state : σ) (first second : List τ) :
    run step state (first ++ second) = run step (run step state first) second :=
  List.foldl_append

/-- Two steps whose states stay related, as long as those of the first stay good, have related runs. One may
commit what the other aborts. -/
theorem run_alongside {ω : Type} {other : ω → τ → Option ω} (related : σ → ω → Prop) (good : σ → Prop)
    (each : ∀ state world tx, related state world → good state → (∀ next, step state tx = some next → good next) →
      related (exec step state tx) (exec other world tx)) {start : σ} {world : ω} (initial : related start world)
    {txs : List τ} (stays : ∀ earlier, earlier <+: txs → good (run step start earlier)) :
    related (run step start txs) (run other world txs) := by
  induction txs using List.reverseRecOn with
  | nil => exact initial
  | append_singleton earlier tx ih =>
    have before := ih fun first prefixed => stays first (prefixed.trans (List.prefix_append earlier [tx]))
    rw [run_append, run_append]
    refine each _ _ tx before (stays earlier (List.prefix_append earlier [tx])) fun next committed => ?_
    have last := stays (earlier ++ [tx]) List.prefix_rfl
    rw [run_append, run_cons, exec, committed] at last
    exact last

/-- A step that decodes what it is given runs what it can decode. -/
theorem run_filterMap {κ : Type} {raw : σ → κ → Option σ} {decode : κ → Option τ}
    (decodes : ∀ state call, raw state call = (decode call).bind (step state)) (state : σ) (calls : List κ) :
    run raw state calls = run step state (calls.filterMap decode) := by
  induction calls generalizing state with
  | nil => rfl
  | cons call calls ih =>
    cases decoded : decode call with
    | none => rw [List.filterMap_cons_none decoded, run_cons, exec, decodes, decoded, ih]; rfl
    | some tx => rw [List.filterMap_cons_some decoded, run_cons, run_cons, exec, decodes, decoded, ih]; rfl

theorem run_of_decoded {κ : Type} {raw : σ → κ → Option σ} {decode : κ → Option τ}
    (decodes : ∀ state call, raw state call = (decode call).bind (step state)) (state : σ) {txs : List τ}
    {calls : List κ} (decoded : List.Forall₂ (fun tx call => decode call = some tx) txs calls) :
    run raw state calls = run step state txs := by
  have found : calls.filterMap decode = txs := by
    induction decoded with
    | nil => rfl
    | cons first _ ih => rw [List.filterMap_cons_some first, ih]
  rw [run_filterMap decodes, found]

/-- Two steps that stay related, as long as the states of the first stay good, have related runs and commit
the same transactions. -/
theorem run_related {ω : Type} {other : ω → τ → Option ω} {related : σ → ω → Prop} {good : σ → Prop}
    (each : ∀ state world tx, related state world → (∀ next, step state tx = some next → good next) →
      Option.Rel related (step state tx) (other world tx)) {start : σ} {world : ω} (initial : related start world)
    {txs : List τ} (stays : ∀ earlier, earlier <+: txs → good (run step start earlier)) :
    related (run step start txs) (run other world txs) ∧
      List.Forall₂ (fun entry copy => entry.tx = copy.tx ∧ related entry.after copy.after)
        (journal step start txs) (journal other world txs) := by
  induction txs generalizing start world with
  | nil => exact ⟨initial, .nil⟩
  | cons tx rest ih =>
    have later (earlier) (before : earlier <+: rest) : good (run step (exec step start tx) earlier) :=
      stays (tx :: earlier) (List.cons_prefix_cons.mpr ⟨rfl, before⟩)
    have stepped := each start world tx initial fun next committed => by
      have reached := later [] List.nil_prefix
      rwa [run_nil, exec, committed] at reached
    rw [run_cons, run_cons, exec, exec, journal, journal]
    rw [exec] at later
    cases outcome : step start tx with
    | none =>
      rw [outcome] at stepped later
      cases copied : other world tx with
      | none => exact ih initial later
      | some next =>
        rw [copied] at stepped
        cases stepped
    | some next =>
      rw [outcome] at stepped later
      cases copied : other world tx with
      | none =>
        rw [copied] at stepped
        cases stepped
      | some copy =>
        rw [copied] at stepped
        cases stepped with
        | some kept =>
          obtain ⟨ends, entries⟩ := ih kept later
          exact ⟨ends, .cons ⟨rfl, kept⟩ entries⟩

theorem exec_of_committed {state next : σ} {tx : τ} (committed : step state tx = some next) :
    exec step state tx = next := by
  simp [exec, committed]

theorem committed_exec {state : σ} {tx : τ} (committed : (step state tx).isSome) :
    step state tx = some (exec step state tx) := by
  obtain ⟨next, outcome⟩ := Option.isSome_iff_exists.mp committed
  rw [exec_of_committed outcome, outcome]

theorem exec_of_aborted {state : σ} {tx : τ} (aborted : step state tx = none) :
    exec step state tx = state := by
  simp [exec, aborted]

theorem journal_append (state : σ) (first second : List τ) :
    journal step state (first ++ second) =
      journal step state first ++ journal step (run step state first) second := by
  induction first generalizing state with
  | nil => rfl
  | cons tx rest ih =>
    cases outcome : step state tx with
    | none => simp [journal, outcome, ih, exec_of_aborted outcome]
    | some next => simp [journal, outcome, ih, exec_of_committed outcome]

theorem journal_concat {state next : σ} {txs : List τ} {tx : τ}
    (committed : step (run step state txs) tx = some next) :
    journal step state (txs ++ [tx]) =
      journal step state txs ++ [⟨run step state txs, tx, next⟩] := by
  simp [journal_append, journal, committed]

theorem step_of_mem_journal {state : σ} {txs : List τ} {entry : Transition σ τ}
    (member : entry ∈ journal step state txs) :
    entry.tx ∈ txs ∧ step entry.before entry.tx = some entry.after := by
  induction txs generalizing state with
  | nil => cases member
  | cons tx rest ih =>
    cases outcome : step state tx with
    | none =>
      simp only [journal, outcome] at member
      exact ⟨List.mem_cons_of_mem _ (ih member).1, (ih member).2⟩
    | some next =>
      simp only [journal, outcome, List.mem_cons] at member
      rcases member with rfl | later
      · exact ⟨List.mem_cons_self, outcome⟩
      · exact ⟨List.mem_cons_of_mem _ (ih later).1, (ih later).2⟩

/-- Every entry of a journal comes after the journal of an earlier run. -/
theorem journal_split {start : σ} {txs : List τ} {past later : List (Transition σ τ)}
    {entry : Transition σ τ} (split : journal step start txs = past ++ entry :: later) :
    ∃ earlier, journal step start earlier = past ∧ run step start earlier = entry.before ∧
      step entry.before entry.tx = some entry.after := by
  induction txs generalizing start past with
  | nil => simp [journal] at split
  | cons tx rest ih =>
    cases outcome : step start tx with
    | none =>
      simp only [journal, outcome] at split
      exact ih split
    | some next =>
      simp only [journal, outcome] at split
      cases past with
      | nil =>
        obtain ⟨rfl, _⟩ := List.cons.inj split
        exact ⟨[], rfl, rfl, outcome⟩
      | cons first past =>
        obtain ⟨rfl, rest'⟩ := List.cons.inj split
        obtain ⟨earlier, journaled, ends, committed⟩ := ih rest'
        refine ⟨tx :: earlier, ?_, ?_, committed⟩
        · simp [journal, outcome, journaled]
        · simpa [exec_of_committed outcome] using ends

/-- What holds at the start and survives one more journal entry holds of every run: an aborted
transaction adds no entry and changes no state. -/
theorem run_induction {motive : List (Transition σ τ) → σ → Prop} {start : σ}
    (initial : motive [] start)
    (extend : ∀ past state tx next, motive past state → step state tx = some next →
      motive (past ++ [⟨state, tx, next⟩]) next) (txs : List τ) :
    motive (journal step start txs) (run step start txs) := by
  induction txs using List.reverseRecOn with
  | nil => exact initial
  | append_singleton earlier tx ih =>
    rw [journal_append, run_append]
    cases outcome : step (run step start earlier) tx with
    | none => simpa [journal, outcome, exec_of_aborted outcome] using ih
    | some next =>
      simpa [journal, outcome, exec_of_committed outcome] using
        extend _ _ tx next ih outcome

/-- The same for a run whose journal has only permitted entries. -/
theorem run_history {motive : List (Transition σ τ) → σ → Prop} {start : σ}
    (permitted : Transition σ τ → Prop) (initial : motive [] start)
    (extend : ∀ past state tx next, motive past state → step state tx = some next →
      permitted ⟨state, tx, next⟩ → motive (past ++ [⟨state, tx, next⟩]) next) {txs : List τ}
    (every : ∀ entry ∈ journal step start txs, permitted entry) :
    motive (journal step start txs) (run step start txs) := by
  revert every
  refine run_induction
    (motive := fun past state => (∀ entry ∈ past, permitted entry) → motive past state)
    (fun _ => initial) ?_ txs
  intro past state tx next ih committed allowed
  refine extend past state tx next (ih fun entry member => ?_) committed ?_
  · exact allowed entry (List.mem_append_left _ member)
  · exact allowed _ (List.mem_append_right _ (List.mem_singleton_self _))

/-- If a good state stays good under exactly the proper steps, the runs that stay good throughout are
those of proper steps. -/
theorem run_prefixes_iff {good : σ → Prop} {proper : Transition σ τ → Prop} {start : σ} {txs : List τ}
    (initial : good start)
    (exact : ∀ state, ∀ tx ∈ txs, ∀ next, good state → step state tx = some next →
      (good next ↔ proper ⟨state, tx, next⟩)) :
    (∀ earlier, earlier <+: txs → good (run step start earlier)) ↔
      ∀ entry ∈ journal step start txs, proper entry := by
  induction txs using List.reverseRecOn with
  | nil => simp [journal, initial]
  | append_singleton txs tx ih =>
    have earlier := ih fun state other member => exact state other (List.mem_append_left _ member)
    have last (next : σ) := exact (run step start txs) tx (by simp) next
    simp only [List.prefix_concat_iff, journal_append, List.mem_append, or_imp, forall_eq, run_append,
      forall_and, earlier]
    rw [and_comm]
    refine and_congr_right fun proper' => ?_
    have reached := earlier.mpr proper' txs List.prefix_rfl
    cases outcome : step (run step start txs) tx with
    | none => simpa [journal, outcome, exec_of_aborted outcome] using reached
    | some next => simpa [journal, outcome, exec_of_committed outcome] using last next reached outcome

/-- A state property kept by every permitted step holds after a run of permitted steps. -/
theorem run_invariant {motive : σ → Prop} {start : σ} (permitted : Transition σ τ → Prop)
    (initial : motive start)
    (stable : ∀ state tx next, motive state → step state tx = some next →
      permitted ⟨state, tx, next⟩ → motive next) {txs : List τ}
    (every : ∀ entry ∈ journal step start txs, permitted entry) :
    motive (run step start txs) :=
  run_history (motive := fun _ => motive) permitted initial (fun _ => stable) every

end LocalChain.Store
