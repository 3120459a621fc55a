import LocalChain.Store.Index

namespace LocalChain.Store.Table

variable {κ ν ρ : Type} [LinearOrder κ] [LinearOrder ν] {key : ρ → κ} {table : Table key}
  {secondary : ρ → ν} {wanted : ρ → Bool} {rows front back : List ρ} {row : ρ}

/-- The rows of a table in the order of a secondary index. -/
structure Listed (table : Table key) (secondary : ρ → ν) (rows : List ρ) : Prop where
  perm : rows.Perm table.rows
  sorted : rows.Pairwise (fun earlier later => place key secondary earlier < place key secondary later)

theorem Listed.leastWhere (listed : Listed table secondary rows) (wanted : ρ → Bool) :
    table.leastWhere secondary wanted = rows.find? wanted := by
  cases found : rows.find? wanted with
  | none =>
    refine leastWhere_eq_none.mpr fun row present => ?_
    simpa using List.find?_eq_none.mp found row (listed.perm.mem_iff.mpr present)
  | some row =>
    obtain ⟨kept, front, back, split, skipped⟩ := List.find?_eq_some_iff_append.mp found
    have sorted := listed.sorted
    rw [split, List.pairwise_append, List.pairwise_cons] at sorted
    refine leastWhere_eq_some.mpr ⟨?_, kept, fun other member also => ?_⟩
    · exact listed.perm.mem_iff.mp (by simp [split])
    · have present := listed.perm.mem_iff.mpr member
      rw [split] at present
      rcases List.mem_append.mp present with earlier | later
      · simpa [also] using skipped other earlier
      · rcases List.mem_cons.mp later with rfl | behind
        · exact le_rfl
        · exact (sorted.2.1.1 other behind).le

/-- Of the rows up to a place, the last one is the greatest. -/
theorem Listed.greatestWhere (listed : Listed table secondary (front ++ back))
    (inside : ∀ row ∈ front, wanted row) (outside : ∀ row ∈ back, ¬ wanted row) :
    table.greatestWhere secondary wanted = front.getLast? := by
  cases last : front.getLast? with
  | none =>
    obtain rfl := List.getLast?_eq_none_iff.mp last
    refine greatestWhere_eq_none.mpr fun row present => outside row ?_
    simpa using listed.perm.mem_iff.mpr present
  | some row =>
    obtain ⟨before, rfl⟩ := List.getLast?_eq_some_iff.mp last
    have sorted := listed.sorted
    rw [List.append_assoc, List.pairwise_append] at sorted
    refine greatestWhere_eq_some.mpr ⟨?_, inside row (by simp), fun other member also => ?_⟩
    · exact listed.perm.mem_iff.mp (by simp)
    · have present := listed.perm.mem_iff.mpr member
      rcases List.mem_append.mp present with near | far
      · rcases List.mem_append.mp near with earlier | same
        · exact (sorted.2.2 other earlier row (by simp)).le
        · rw [List.mem_singleton.mp same]
      · exact absurd also (outside other far)

/-- Stepping forward from a row. -/
theorem Listed.indexNext (listed : Listed table secondary (front ++ row :: back)) :
    table.indexNext secondary row = back.head? := by
  have sorted := listed.sorted
  rw [List.pairwise_append, List.pairwise_cons] at sorted
  have passed : ∀ other ∈ front, ¬ place key secondary row < place key secondary other :=
    fun other member => (sorted.2.2 other member row (by simp)).not_gt
  rw [Table.indexNext, listed.leastWhere, List.find?_append,
    List.find?_eq_none.mpr (by simpa using passed)]
  cases back with
  | nil => simp
  | cons next rest => simp [sorted.2.1.1 next (by simp)]

/-- Stepping back from a row. -/
theorem Listed.indexPrevious (listed : Listed table secondary (front ++ row :: back)) :
    table.indexPrevious secondary (some row) = front.getLast? := by
  have sorted := listed.sorted
  rw [List.pairwise_append, List.pairwise_cons] at sorted
  refine listed.greatestWhere (fun other member => ?_) fun other member => ?_
  · simpa using sorted.2.2 other member row (by simp)
  · rcases List.mem_cons.mp member with rfl | behind
    · simp
    · simpa using (sorted.2.1.1 other behind).le

/-- Stepping back from the end. -/
theorem Listed.indexPrevious_none (listed : Listed table secondary rows) :
    table.indexPrevious secondary none = rows.getLast? := by
  have ended : Listed table secondary (rows ++ []) := by simpa using listed
  refine ended.greatestWhere (fun _ _ => rfl) fun _ member => ?_
  cases member

/-- Overwriting a row leaves it in its place. -/
theorem put_rows {old : ρ} (split : table.rows = front ++ old :: back) (same : key row = key old) :
    (table.put row).rows = front ++ row :: back := by
  have sorted := table.sorted
  rw [split, List.pairwise_append, List.pairwise_cons] at sorted
  have below : ∀ other ∈ front, key other < key row :=
    fun other member => same ▸ sorted.2.2 other member old (by simp)
  have above : ∀ other ∈ back, key row < key other :=
    fun other member => same ▸ sorted.2.1.1 other member
  have before : (front ++ old :: back).filter (fun other => key other < key row) = front := by
    rw [List.filter_append, List.filter_eq_self.mpr (by simpa using below),
      List.filter_eq_nil_iff.mpr, List.append_nil]
    intro other member
    rcases List.mem_cons.mp member with rfl | behind
    · simp [same]
    · simpa using (above other behind).le
  have after : (front ++ old :: back).filter (fun other => key row < key other) = back := by
    rw [List.filter_append, List.filter_eq_nil_iff.mpr, List.nil_append,
      List.filter_cons_of_neg (by simp [same]), List.filter_eq_self.mpr (by simpa using above)]
    intro other member
    simpa using (below other member).le
  simp only [put, split, before, after]

/-- The row after a given one. -/
theorem next?_of_split (split : table.rows = front ++ row :: back) :
    table.next? (key row) = back.head? := by
  have sorted := table.sorted
  rw [split, List.pairwise_append, List.pairwise_cons] at sorted
  have skipped : front.find? (fun other => key row < key other) = none :=
    List.find?_eq_none.mpr fun other member => by
      simpa using (sorted.2.2 other member row (by simp)).le
  have above : ∀ other ∈ back, key row < key other := sorted.2.1.1
  rw [next?, split, List.find?_append, skipped, Option.none_or,
    List.find?_cons_of_neg (by simp)]
  cases back with
  | nil => rfl
  | cons second rest => simp [above second List.mem_cons_self]

/-- Overwriting a row by itself changes nothing. -/
theorem put_self (present : row ∈ table.rows) : table.put row = table := by
  refine ext_find? fun k => ?_
  rw [find?_put]
  split
  · rename_i same
    rw [same, find?_self present]
  · rfl

/-- Overwriting a row and then putting it back changes nothing. -/
theorem put_back {other : ρ} (present : row ∈ table.rows) (same : key other = key row) :
    (table.put other).put row = table := by
  refine ext_find? fun k => ?_
  rw [find?_put, find?_put, same]
  split
  · rename_i place
    rw [place, find?_self present]
  · rfl

end LocalChain.Store.Table
