import Mathlib.Init

/-! Runs of programs with a state that may fail. -/
namespace LocalChain.Refine

variable {ε σ α β : Type} {state later : σ}

theorem run_bind_ok {program : StateT σ (Except ε) α} {next : α → StateT σ (Except ε) β} {value : α}
    (ran : program.run state = .ok (value, later)) : (program >>= next).run state = (next value).run later := by
  simp only [StateT.run_bind, ran]
  rfl

theorem run_bind_error {program : StateT σ (Except ε) α} {next : α → StateT σ (Except ε) β} {fault : ε}
    (failed : program.run state = .error fault) : (program >>= next).run state = .error fault := by
  simp only [StateT.run_bind, failed]
  rfl

theorem run_map_ok {program : StateT σ (Except ε) α} {f : α → β} {value : α}
    (ran : program.run state = .ok (value, later)) : (f <$> program).run state = .ok (f value, later) := by
  simp only [StateT.run_map, ran]
  rfl

theorem run_map_error {program : StateT σ (Except ε) α} {f : α → β} {fault : ε}
    (failed : program.run state = .error fault) : (f <$> program).run state = .error fault := by
  simp only [StateT.run_map, failed]
  rfl

theorem run_bind_eq_ok {program : StateT σ (Except ε) α} {next : α → StateT σ (Except ε) β} {result : β} {last : σ} :
    (program >>= next).run state = .ok (result, last) ↔
      ∃ value middle, program.run state = .ok (value, middle) ∧ (next value).run middle = .ok (result, last) := by
  rw [StateT.run_bind]
  cases program.run state with
  | error fault => exact iff_of_false nofun nofun
  | ok outcome =>
    constructor
    · intro ran
      exact ⟨outcome.1, outcome.2, rfl, ran⟩
    · rintro ⟨value, middle, ran, continued⟩
      obtain rfl := Except.ok.inj ran
      exact continued

theorem run_map_eq_ok {program : StateT σ (Except ε) α} {f : α → β} {result : β} :
    (f <$> program).run state = .ok (result, later) ↔
      ∃ value, program.run state = .ok (value, later) ∧ f value = result := by
  rw [map_eq_pure_bind, run_bind_eq_ok]
  constructor
  · rintro ⟨value, _, ran, same⟩
    obtain ⟨rfl, rfl⟩ := Prod.mk.inj (Except.ok.inj same)
    exact ⟨value, ran, rfl⟩
  · rintro ⟨value, ran, rfl⟩
    exact ⟨value, later, ran, rfl⟩

end LocalChain.Refine
