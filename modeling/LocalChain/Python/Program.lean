import Mathlib.Init

namespace LocalChain.Python

/-- A program that may raise an exception. What it has done by then stays done. -/
def Program (σ ε α : Type) := σ → Except ε α × σ

variable {σ ε α β : Type} {good : σ → Prop} {program : Program σ ε α} {next : α → Program σ ε β}
  {handler : ε → Program σ ε α} {state middle last : σ} {value : α} {result : β} {raised : ε}

instance : Monad (Program σ ε) where
  pure value state := (.ok value, state)
  bind program next state :=
    match program state with
    | (.ok value, middle) => next value middle
    | (.error raised, middle) => (.error raised, middle)

instance : MonadExceptOf ε (Program σ ε) where
  throw raised state := (.error raised, state)
  tryCatch program handler state :=
    match program state with
    | (.ok value, last) => (.ok value, last)
    | (.error raised, middle) => handler raised middle

/-! What a program returns. -/

theorem run_bind (returned : program state = (.ok value, middle)) :
    (program >>= next) state = next value middle := by
  simp only [bind, returned]

theorem run_bind_raised (failed : program state = (.error raised, middle)) :
    (program >>= next) state = (.error raised, middle) := by
  simp only [bind, failed]

theorem run_tryCatch (returned : program state = (.ok value, last)) :
    (tryCatch program handler : Program σ ε α) state = (.ok value, last) := by
  simp only [tryCatch, tryCatchThe, MonadExceptOf.tryCatch, returned]

theorem run_tryCatch_raised (failed : program state = (.error raised, middle)) :
    (tryCatch program handler : Program σ ε α) state = handler raised middle := by
  simp only [tryCatch, tryCatchThe, MonadExceptOf.tryCatch, failed]

/-- The body may be cut where it has come to. -/
theorem run_tryCatch_of_eq {other : Program σ ε α} (same : program state = other middle) :
    (tryCatch program handler : Program σ ε α) state = (tryCatch other handler : Program σ ε α) middle := by
  simp only [tryCatch, tryCatchThe, MonadExceptOf.tryCatch, same]

/-! What never raises. -/

def Returns (program : Program σ ε α) : Prop := ∀ state, ∃ value last, program state = (.ok value, last)

theorem Returns.pure (value : α) : Returns (pure value : Program σ ε α) := fun state => ⟨value, state, rfl⟩

theorem Returns.bind (first : Returns program) (second : ∀ value, Returns (next value)) :
    Returns (program >>= next) := by
  intro state
  obtain ⟨value, middle, ran⟩ := first state
  rw [run_bind ran]
  exact second value middle

/-- What is caught does not get out, whatever the body does. -/
theorem Returns.tryCatch (caught : ∀ raised, Returns (handler raised)) :
    Returns (tryCatch program handler : Program σ ε α) := by
  intro state
  cases ran : program state with
  | mk outcome middle =>
    cases outcome with
    | ok value => exact ⟨value, middle, run_tryCatch ran⟩
    | error raised =>
      rw [run_tryCatch_raised ran]
      exact caught raised middle

/-! What holds throughout. -/

/-- From a good state the program ends in a good one, whether it returns or raises. -/
def Keeps (good : σ → Prop) (program : Program σ ε α) : Prop :=
  ∀ state, good state → good (program state).2

theorem Keeps.pure (value : α) : Keeps good (pure value : Program σ ε α) := fun _ held => held

theorem Keeps.ends {outcome : Except ε α} (kept : Keeps good program) (held : good state)
    (ran : program state = (outcome, last)) : good last := by
  have after := kept state held
  rwa [ran] at after

theorem Keeps.bind (first : Keeps good program) (second : ∀ value, Keeps good (next value)) :
    Keeps good (program >>= next) := by
  intro state held
  cases ran : program state with
  | mk outcome middle =>
    have after := first.ends held ran
    cases outcome with
    | ok value =>
      rw [run_bind ran]
      exact second value middle after
    | error raised =>
      rw [run_bind_raised ran]
      exact after

theorem Keeps.tryCatch (body : Keeps good program) (caught : ∀ raised, Keeps good (handler raised)) :
    Keeps good (tryCatch program handler : Program σ ε α) := by
  intro state held
  cases ran : program state with
  | mk outcome middle =>
    have after := body.ends held ran
    cases outcome with
    | ok value =>
      rw [run_tryCatch ran]
      exact after
    | error raised =>
      rw [run_tryCatch_raised ran]
      exact caught raised middle after

theorem Keeps.forM {γ : Type} {body : γ → Program σ ε PUnit} {list : List γ}
    (each : ∀ item ∈ list, Keeps good (body item)) : Keeps good (forM list body) := by
  induction list with
  | nil => exact .pure _
  | cons item rest ih =>
    rw [List.forM_cons]
    exact .bind (each item List.mem_cons_self) fun _ =>
      ih fun other member => each other (List.mem_cons_of_mem _ member)

end LocalChain.Python
