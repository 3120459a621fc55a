import LocalChain.Store.Table
import Mathlib.Data.List.MinMax
import Mathlib.Data.Prod.Lex

namespace LocalChain.Store.Table

variable {κ ν ρ : Type} [LinearOrder κ] [LinearOrder ν] {key : ρ → κ}

/-- Where a row stands in a secondary index: by secondary key, ties by primary key. -/
def place (key : ρ → κ) (secondary : ρ → ν) (row : ρ) : ν ×ₗ κ := toLex (secondary row, key row)

/-- The first row of the index among those that satisfy `wanted`. -/
def leastWhere (table : Table key) (secondary : ρ → ν) (wanted : ρ → Bool) : Option ρ :=
  (table.rows.filter wanted).argmin (place key secondary)

/-- The last row of the index among those that satisfy `wanted`. -/
def greatestWhere (table : Table key) (secondary : ρ → ν) (wanted : ρ → Bool) : Option ρ :=
  (table.rows.filter wanted).argmax (place key secondary)

def indexLowerBound (table : Table key) (secondary : ρ → ν) (value : ν) : Option ρ :=
  table.leastWhere secondary (fun row => value ≤ secondary row)

def indexUpperBound (table : Table key) (secondary : ρ → ν) (value : ν) : Option ρ :=
  table.leastWhere secondary (fun row => value < secondary row)

/-- The successor of a row at the place its current secondary key gives it. -/
def indexNext (table : Table key) (secondary : ρ → ν) (row : ρ) : Option ρ :=
  table.leastWhere secondary (fun other => place key secondary row < place key secondary other)

/-- The predecessor of a row, or the last row when started from the end. -/
def indexPrevious (table : Table key) (secondary : ρ → ν) : Option ρ → Option ρ
  | some row =>
    table.greatestWhere secondary (fun other => place key secondary other < place key secondary row)
  | none => table.greatestWhere secondary (fun _ => true)

/-- Lookup by secondary key: the lower bound, if it has exactly that key. -/
def indexFind (table : Table key) (secondary : ρ → ν) (value : ν) : Option ρ :=
  match table.indexLowerBound secondary value with
  | some row => if secondary row = value then some row else none
  | none => none

omit [LinearOrder ν] in
theorem place_injective {table : Table key} {secondary : ρ → ν} {row other : ρ}
    (present : row ∈ table.rows) (member : other ∈ table.rows)
    (same : place key secondary row = place key secondary other) : row = other :=
  table.key_injective present member (Prod.ext_iff.mp (toLex.injective same)).2

theorem leastWhere_eq_none {table : Table key} {secondary : ρ → ν} {wanted : ρ → Bool} :
    table.leastWhere secondary wanted = none ↔ ∀ row ∈ table.rows, ¬ wanted row := by
  simp [leastWhere, List.argmin_eq_none, List.filter_eq_nil_iff]

theorem leastWhere_eq_some {table : Table key} {secondary : ρ → ν} {wanted : ρ → Bool} {row : ρ} :
    table.leastWhere secondary wanted = some row ↔
      row ∈ table.rows ∧ wanted row ∧ ∀ other ∈ table.rows, wanted other →
        place key secondary row ≤ place key secondary other := by
  constructor
  · intro least
    obtain ⟨present, kept⟩ := List.mem_filter.mp (List.argmin_mem least)
    refine ⟨present, kept, fun other member also => ?_⟩
    exact List.le_of_mem_argmin (List.mem_filter.mpr ⟨member, also⟩) least
  · rintro ⟨present, kept, lowest⟩
    cases least : table.leastWhere secondary wanted with
    | none => exact absurd kept (leastWhere_eq_none.mp least row present)
    | some other =>
      obtain ⟨member, also⟩ := List.mem_filter.mp (List.argmin_mem least)
      have below := List.le_of_mem_argmin (List.mem_filter.mpr ⟨present, kept⟩) least
      rw [place_injective member present (below.antisymm (lowest other member also))]

theorem greatestWhere_eq_none {table : Table key} {secondary : ρ → ν} {wanted : ρ → Bool} :
    table.greatestWhere secondary wanted = none ↔ ∀ row ∈ table.rows, ¬ wanted row := by
  simp [greatestWhere, List.argmax_eq_none, List.filter_eq_nil_iff]

theorem greatestWhere_eq_some {table : Table key} {secondary : ρ → ν} {wanted : ρ → Bool}
    {row : ρ} :
    table.greatestWhere secondary wanted = some row ↔
      row ∈ table.rows ∧ wanted row ∧ ∀ other ∈ table.rows, wanted other →
        place key secondary other ≤ place key secondary row := by
  constructor
  · intro greatest
    obtain ⟨present, kept⟩ := List.mem_filter.mp (List.argmax_mem greatest)
    refine ⟨present, kept, fun other member also => ?_⟩
    exact List.le_of_mem_argmax (List.mem_filter.mpr ⟨member, also⟩) greatest
  · rintro ⟨present, kept, highest⟩
    cases greatest : table.greatestWhere secondary wanted with
    | none => exact absurd kept (greatestWhere_eq_none.mp greatest row present)
    | some other =>
      obtain ⟨member, also⟩ := List.mem_filter.mp (List.argmax_mem greatest)
      have above := List.le_of_mem_argmax (List.mem_filter.mpr ⟨present, kept⟩) greatest
      rw [place_injective member present ((highest other member also).antisymm above)]

/-- The lookup returns the row of smallest primary key among those with the value. -/
theorem indexFind_eq_some {table : Table key} {secondary : ρ → ν} {value : ν} {row : ρ} :
    table.indexFind secondary value = some row ↔
      row ∈ table.rows ∧ secondary row = value ∧
        ∀ other ∈ table.rows, secondary other = value → key row ≤ key other := by
  have lower (other : ρ) : table.indexLowerBound secondary value = some other ↔ _ :=
    leastWhere_eq_some
  simp only [decide_eq_true_eq, place, Prod.Lex.toLex_le_toLex] at lower
  constructor
  · intro found
    simp only [indexFind] at found
    split at found
    · rename_i least bound
      obtain ⟨present, _, lowest⟩ := (lower least).mp bound
      split at found
      · rename_i same
        obtain rfl := Option.some.inj found
        refine ⟨present, same, fun other member also => ?_⟩
        rcases lowest other member also.ge with less | ⟨_, bounded⟩
        · exact absurd less (by simp [same, also])
        · exact bounded
      · cases found
    · cases found
  · rintro ⟨present, same, lowest⟩
    have bound : table.indexLowerBound secondary value = some row := by
      refine (lower row).mpr ⟨present, same.ge, fun other member above => ?_⟩
      rcases above.lt_or_eq with more | equal
      · exact .inl (same.symm ▸ more)
      · exact .inr ⟨same.trans equal, lowest other member equal.symm⟩
    simp [indexFind, bound, same]

theorem indexFind_eq_none {table : Table key} {secondary : ρ → ν} {value : ν} :
    table.indexFind secondary value = none ↔ ∀ row ∈ table.rows, secondary row ≠ value := by
  constructor
  · intro missing row present same
    cases bound : table.indexLowerBound secondary value with
    | none => exact leastWhere_eq_none.mp bound row present (by simp [same])
    | some least =>
      obtain ⟨_, above, lowest⟩ := leastWhere_eq_some.mp bound
      have order := lowest row present (by simp [same])
      simp only [place, Prod.Lex.toLex_le_toLex, same] at order
      have reached : secondary least = value := by
        rcases order with less | ⟨equal, _⟩
        · exact absurd less (not_lt.mpr (by simpa using above))
        · exact equal
      simp [indexFind, bound, reached] at missing
  · intro absent
    cases found : table.indexFind secondary value with
    | none => rfl
    | some row =>
      obtain ⟨present, same, _⟩ := indexFind_eq_some.mp found
      exact absurd same (absent row present)

end LocalChain.Store.Table
