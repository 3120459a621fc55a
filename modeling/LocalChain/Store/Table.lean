import Mathlib.Data.List.Perm.Basic
import Mathlib.Order.Lattice

namespace LocalChain.Store

/-- Rows in strictly increasing order of their primary key: no key occurs twice. -/
structure Table {κ ρ : Type} [LinearOrder κ] (key : ρ → κ) where
  rows : List ρ
  sorted : rows.Pairwise (fun earlier later => key earlier < key later)

namespace Table

variable {κ ρ : Type} [LinearOrder κ] {key : ρ → κ}

instance [DecidableEq ρ] : DecidableEq (Table key) := fun first second =>
  decidable_of_iff (first.rows = second.rows) (by cases first; cases second; simp)

def empty : Table key := ⟨[], .nil⟩

instance : Inhabited (Table key) := ⟨empty⟩

/-- The row stored under a primary key. -/
def find? (table : Table key) (k : κ) : Option ρ :=
  table.rows.find? (fun row => key row = k)

/-- The row that follows primary key `k`. -/
def next? (table : Table key) (k : κ) : Option ρ :=
  table.rows.find? (fun row => k < key row)

def first? (table : Table key) : Option ρ := table.rows.head?

def last? (table : Table key) : Option ρ := table.rows.getLast?

/-- Insert a row in its place, or overwrite the row that has its key. -/
def put (table : Table key) (row : ρ) : Table key where
  rows := table.rows.filter (fun other => key other < key row) ++
    row :: table.rows.filter (fun other => key row < key other)
  sorted := by
    apply List.pairwise_append.mpr
    refine ⟨table.sorted.filter _, List.pairwise_cons.mpr ⟨?_, table.sorted.filter _⟩, ?_⟩
    · intro later member
      simpa using (List.mem_filter.mp member).2
    · intro earlier below later above
      have smaller : key earlier < key row := by simpa using (List.mem_filter.mp below).2
      rcases List.mem_cons.mp above with same | member
      · exact same ▸ smaller
      · exact smaller.trans (by simpa using (List.mem_filter.mp member).2)

/-- Drop the row stored under a primary key. -/
def erase (table : Table key) (k : κ) : Table key where
  rows := table.rows.filter (fun row => key row ≠ k)
  sorted := table.sorted.filter _

/-- Keep the rows with a property. -/
def keep (table : Table key) (wanted : ρ → Bool) : Table key where
  rows := table.rows.filter wanted
  sorted := table.sorted.filter _

/-- Store a new row; refused when its primary key is taken. -/
def store (table : Table key) (row : ρ) : Option (Table key) :=
  if (table.find? (key row)).isSome then none else some (table.put row)

/-- Overwrite a row; refused when no row has its primary key. -/
def update (table : Table key) (row : ρ) : Option (Table key) :=
  if (table.find? (key row)).isSome then some (table.put row) else none

/-- Remove a row; refused when no row has the primary key. -/
def remove (table : Table key) (k : κ) : Option (Table key) :=
  if (table.find? k).isSome then some (table.erase k) else none

@[ext] theorem ext {first second : Table key} (same : first.rows = second.rows) :
    first = second := by
  cases first
  cases second
  simpa using same

theorem nodup (table : Table key) : table.rows.Nodup :=
  table.sorted.imp fun less same => less.ne (congrArg key same)

theorem key_injective (table : Table key) {row other : ρ} (present : row ∈ table.rows)
    (member : other ∈ table.rows) (same : key row = key other) : row = other := by
  have apart : table.rows.Pairwise (fun a b => key a = key b → a = b) :=
    table.sorted.imp fun less same => absurd same less.ne
  have flipped : table.rows.Pairwise (flip fun a b => key a = key b → a = b) :=
    table.sorted.imp fun less same => absurd same less.ne'
  exact apart.forall_of_forall_of_flip (fun _ _ _ => rfl) flipped present member same

theorem find?_eq_some {table : Table key} {k : κ} {row : ρ} :
    table.find? k = some row ↔ row ∈ table.rows ∧ key row = k := by
  constructor
  · intro found
    exact ⟨List.mem_of_find?_eq_some found, by simpa using List.find?_some found⟩
  · intro ⟨present, same⟩
    cases search : table.find? k with
    | none => exact absurd same (by simpa using List.find?_eq_none.mp search row present)
    | some other =>
      have stored : key other = k := by simpa using List.find?_some search
      rw [table.key_injective (List.mem_of_find?_eq_some search) present (stored.trans same.symm)]

theorem find?_eq_none {table : Table key} {k : κ} :
    table.find? k = none ↔ ∀ row ∈ table.rows, key row ≠ k := by
  simp [find?]

theorem find?_self {table : Table key} {row : ρ} (present : row ∈ table.rows) :
    table.find? (key row) = some row :=
  find?_eq_some.mpr ⟨present, rfl⟩

theorem key_of_find? {table : Table key} {k : κ} {row : ρ} (found : table.find? k = some row) :
    key row = k :=
  (find?_eq_some.mp found).2

/-- A table is determined by what it stores under each primary key. -/
theorem ext_find? {first second : Table key} (same : ∀ k, first.find? k = second.find? k) :
    first = second := by
  have members (row : ρ) : row ∈ first.rows ↔ row ∈ second.rows := by
    have agree := same (key row)
    constructor <;> intro present
    · exact (find?_eq_some.mp (agree ▸ find?_self present)).1
    · exact (find?_eq_some.mp (agree.symm ▸ find?_self present)).1
  apply ext
  exact ((List.perm_ext_iff_of_nodup first.nodup second.nodup).mpr members).eq_of_pairwise
    (fun _ _ _ _ less more => absurd more less.asymm) first.sorted second.sorted

@[simp] theorem find?_empty (k : κ) : (empty : Table key).find? k = none := rfl

theorem mem_put {table : Table key} {row other : ρ} :
    other ∈ (table.put row).rows ↔ other = row ∨ (other ∈ table.rows ∧ key other ≠ key row) := by
  simp only [put, List.mem_append, List.mem_filter, List.mem_cons, decide_eq_true_eq,
    ne_iff_lt_or_gt]
  tauto

@[simp] theorem find?_put [DecidableEq κ] (table : Table key) (row : ρ) (k : κ) :
    (table.put row).find? k = if k = key row then some row else table.find? k := by
  split
  · rename_i same
    exact find?_eq_some.mpr ⟨mem_put.mpr (.inl rfl), same.symm⟩
  · rename_i different
    apply Option.ext
    intro other
    simp only [find?_eq_some, mem_put]
    constructor
    · rintro ⟨rfl | ⟨present, _⟩, stored⟩
      · exact absurd stored.symm different
      · exact ⟨present, stored⟩
    · rintro ⟨present, stored⟩
      exact ⟨.inr ⟨present, fun same => different (stored.symm.trans same)⟩, stored⟩

theorem find?_put_self [DecidableEq κ] (table : Table key) (row : ρ) :
    (table.put row).find? (key row) = some row := by
  simp

theorem find?_put_of_key [DecidableEq κ] (table : Table key) {row : ρ} {k : κ}
    (place : key row = k) : (table.put row).find? k = some row :=
  place ▸ find?_put_self table row

theorem find?_put_isSome [DecidableEq κ] {table : Table key} {k : κ} (row : ρ)
    (present : (table.find? k).isSome) : ((table.put row).find? k).isSome := by
  rw [find?_put]
  split
  · rfl
  · exact present

/-- A write changes what is stored under the key of its row only. -/
theorem key_of_changed [DecidableEq κ] {table : Table key} {k : κ} {row old : ρ}
    (held : table.find? k = some old) (changed : (table.put row).find? k ≠ some old) : k = key row := by
  by_contra apart
  exact changed (by rw [find?_put, if_neg apart, held])

theorem mem_erase {table : Table key} {k : κ} {row : ρ} :
    row ∈ (table.erase k).rows ↔ row ∈ table.rows ∧ key row ≠ k := by
  simp [erase]

@[simp] theorem find?_erase [DecidableEq κ] (table : Table key) (gone k : κ) :
    (table.erase gone).find? k = if k = gone then none else table.find? k := by
  split
  · rename_i same
    exact find?_eq_none.mpr fun row present => same ▸ (mem_erase.mp present).2
  · rename_i different
    apply Option.ext
    intro row
    simp only [find?_eq_some, mem_erase]
    constructor
    · rintro ⟨⟨present, _⟩, stored⟩
      exact ⟨present, stored⟩
    · rintro ⟨present, stored⟩
      exact ⟨⟨present, fun same => different (stored.symm.trans same)⟩, stored⟩

theorem find?_keep (table : Table key) (wanted : ρ → Bool) (k : κ) :
    (table.keep wanted).find? k = (table.find? k).filter wanted := by
  apply Option.ext
  intro row
  simp only [Option.filter_eq_some_iff, find?_eq_some, keep, List.mem_filter]
  tauto

theorem store_eq_some {table result : Table key} {row : ρ} :
    table.store row = some result ↔ table.find? (key row) = none ∧ table.put row = result := by
  cases found : table.find? (key row) <;> simp [store, found]

theorem update_eq_some {table result : Table key} {row : ρ} :
    table.update row = some result ↔
      (table.find? (key row)).isSome ∧ table.put row = result := by
  cases found : table.find? (key row) <;> simp [update, found]

theorem remove_eq_some {table result : Table key} {k : κ} :
    table.remove k = some result ↔ (table.find? k).isSome ∧ table.erase k = result := by
  cases found : table.find? k <;> simp [remove, found]

/-- Changing every row in place, under its key. -/
theorem find?_map {table result : Table key} {f : ρ → ρ} (same : ∀ row, key (f row) = key row)
    (rows : result.rows = table.rows.map f) (k : κ) : result.find? k = (table.find? k).map f := by
  have agree : (fun row => decide (key row = k)) ∘ f = fun row => decide (key row = k) := by
    funext row
    rw [Function.comp_apply, same]
  rw [find?, rows, List.find?_map, agree, find?]

/-- The last row carries the largest primary key. -/
theorem le_last? {table : Table key} {row other : ρ} (last : table.last? = some row)
    (present : other ∈ table.rows) : key other ≤ key row := by
  obtain ⟨front, split⟩ := List.getLast?_eq_some_iff.mp last
  have sorted := table.sorted
  rw [split] at sorted present
  rcases List.mem_append.mp present with member | member
  · exact ((List.pairwise_append.mp sorted).2.2 other member row (by simp)).le
  · rw [List.mem_singleton.mp member]

theorem last?_mem {table : Table key} {row : ρ} (last : table.last? = some row) :
    row ∈ table.rows :=
  List.mem_of_getLast? last

theorem last?_eq_none {table : Table key} : table.last? = none ↔ table.rows = [] := by
  simp [last?]

/-- A row put above all others is the last one. -/
theorem last?_put {table : Table key} {row : ρ} (above : ∀ other ∈ table.rows, key other < key row) :
    (table.put row).last? = some row := by
  have nothing : table.rows.filter (fun other => key row < key other) = [] := by
    refine List.filter_eq_nil_iff.mpr fun other present => ?_
    simpa using (above other present).le
  simp [last?, put, nothing]

end Table

end LocalChain.Store
