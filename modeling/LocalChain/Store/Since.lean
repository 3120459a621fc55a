import Mathlib.Data.List.Basic

namespace LocalChain.Store

variable {ε : Type} {origin kept : ε → Prop} {entries : List ε} {entry : ε}

/-- One of the entries is an origin, and every later one keeps what began there. -/
inductive Since (origin kept : ε → Prop) (entries : List ε) : Prop where
  | intro (before : List ε) (entry : ε) (after : List ε) (split : entries = before ++ entry :: after)
      (begins : origin entry) (stays : ∀ later ∈ after, kept later)

theorem not_since_nil : ¬ Since origin kept [] := by
  rintro ⟨before, entry, after, split, _, _⟩
  simp at split

theorem Since.now (begins : origin entry) : Since origin kept (entries ++ [entry]) :=
  ⟨entries, entry, [], rfl, begins, fun _ member => absurd member List.not_mem_nil⟩

theorem Since.extend (since : Since origin kept entries) (stays : kept entry) :
    Since origin kept (entries ++ [entry]) := by
  obtain ⟨before, first, after, rfl, begins, stayed⟩ := since
  refine ⟨before, first, after ++ [entry], by simp, begins, fun later member => ?_⟩
  rcases List.mem_append.mp member with member | member
  · exact stayed later member
  · rwa [List.mem_singleton.mp member]

/-- One more entry either is an origin itself or keeps what began earlier. -/
theorem since_append :
    Since origin kept (entries ++ [entry]) ↔ origin entry ∨ Since origin kept entries ∧ kept entry := by
  constructor
  · rintro ⟨before, first, after, split, begins, stays⟩
    rcases List.eq_nil_or_concat after with rfl | ⟨after, last, rfl⟩
    · obtain ⟨_, same⟩ := List.append_inj' split rfl
      exact .inl (List.singleton_inj.mp same ▸ begins)
    · rw [List.concat_eq_append, ← List.cons_append, ← List.append_assoc] at split
      obtain ⟨rfl, same⟩ := List.append_inj' split rfl
      obtain rfl := List.singleton_inj.mp same
      refine .inr ⟨⟨before, first, after, rfl, begins, fun later member => ?_⟩, ?_⟩
      · exact stays later (by simp [member])
      · exact stays entry (by simp)
  · rintro (begins | ⟨since, stays⟩)
    · exact .now begins
    · exact since.extend stays

end LocalChain.Store
