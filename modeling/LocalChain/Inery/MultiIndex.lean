import LocalChain.Inery.Core
import LocalChain.Store.Index

namespace LocalChain.Inery.MultiIndex

open LocalChain.Store

variable {ρ : Type} {key : ρ → UInt64}

/-- The two values of `_next_primary_key` that are tags and not keys. -/
def noAvailablePrimaryKey : UInt64 := 0xfffffffffffffffe

def unsetNextPrimaryKey : UInt64 := 0xffffffffffffffff

/-- One past the largest key of the table, unless an earlier call cached it in `next`. -/
def nextPrimaryKey (next : UInt64) (table : Table key) : UInt64 :=
  if next = unsetNextPrimaryKey then
    match table.last? with
    | none => 0
    | some row =>
      if noAvailablePrimaryKey ≤ key row then noAvailablePrimaryKey else key row + 1
  else next

def availablePrimaryKey (next : UInt64) (table : Table key) : Except Abort UInt64 := do
  let available := nextPrimaryKey next table
  check (available < noAvailablePrimaryKey) "next primary key in table is at autoincrement limit"
  return available

/-- Build a row by running the lambda on a freshly allocated object, and store it. -/
def emplace (table : Table key) (fresh : ρ) (constructor : ρ → ρ) : Except Abort (Table key) :=
  match table.store (constructor fresh) with
  | some result => .ok result
  | none => .error .duplicateKey

/-- An iterator of a table object is the row it cached, or nothing for `end()`. -/
def modify (table : Table key) (itr : Option ρ) (updater : ρ → ρ) : Except Abort (Table key) := do
  match itr with
  | none => throw (.check "cannot pass end iterator to modify")
  | some row =>
    check (key row = key (updater row))
      "updater cannot change primary key when modifying an object"
    match table.update (updater row) with
    | some result => return result
    | none => throw .deletedObject

/-- Erase a row and step to the one that followed it. A row that another table object has already
erased is refused by the host. -/
def erase (table : Table key) (itr : Option ρ) : Except Abort (Option ρ × Table key) :=
  match itr with
  | none => throw (.check "cannot pass end iterator to erase")
  | some row =>
    match table.remove (key row) with
    | some result => return (table.next? (key row), result)
    | none => throw .deletedObject

/-- `--itr` on an iterator of a secondary index. -/
def decrement {ν : Type} [LinearOrder ν] (table : Table key) (secondary : ρ → ν) (itr : Option ρ) :
    Except Abort ρ :=
  match table.indexPrevious secondary itr with
  | some row => return row
  | none =>
    match itr with
    | some _ => throw (.check "cannot decrement iterator at beginning of index")
    | none => throw (.check "cannot decrement end iterator when the index is empty")

/-- `while (itr != end()) itr = erase(itr);`, cut off after `fuel` rounds. -/
def eraseLoop : Nat → Option ρ → Table key → Except Abort (Table key)
  | _, none, table => return table
  | 0, some _, _ => throw .deadline
  | fuel + 1, some row, table => do
    let (itr, result) ← erase table (some row)
    eraseLoop fuel itr result

/-- Erase every row, from `begin()` on. -/
def eraseAll (table : Table key) : Except Abort (Table key) :=
  eraseLoop table.rows.length table.first? table

theorem emplace_taken {table : Table key} {fresh : ρ} {constructor : ρ → ρ}
    (held : (table.find? (key (constructor fresh))).isSome) : emplace table fresh constructor = .error .duplicateKey := by
  rw [emplace, Table.store, if_pos held]

@[simp] theorem emplace_eq_ok {table result : Table key} {fresh : ρ} {constructor : ρ → ρ} :
    emplace table fresh constructor = .ok result ↔
      table.find? (key (constructor fresh)) = none ∧ table.put (constructor fresh) = result := by
  rw [← Table.store_eq_some]
  cases stored : table.store (constructor fresh) <;> simp [emplace, stored]

@[simp] theorem modify_none {table result : Table key} {updater : ρ → ρ} :
    modify table none updater ≠ .ok result := by
  simp [modify]

@[simp] theorem modify_some {table result : Table key} {row : ρ} {updater : ρ → ρ} :
    modify table (some row) updater = .ok result ↔
      key row = key (updater row) ∧ (table.find? (key (updater row))).isSome ∧
        table.put (updater row) = result := by
  rw [← Table.update_eq_some]
  cases updated : table.update (updater row) <;> simp [modify, updated]

@[simp] theorem erase_none {table : Table key} {result : Option ρ × Table key} :
    erase table none ≠ .ok result := by
  simp [erase]

@[simp] theorem erase_some {table : Table key} {row : ρ} {result : Option ρ × Table key} :
    erase table (some row) = .ok result ↔
      (table.find? (key row)).isSome ∧ (table.next? (key row), table.erase (key row)) = result := by
  cases removed : table.remove (key row) with
  | none =>
    have absent : table.find? (key row) = none := by
      cases found : table.find? (key row) <;> simp_all [Table.remove]
    simp [erase, removed, absent]
  | some rest =>
    obtain ⟨present, rfl⟩ := Table.remove_eq_some.mp removed
    simp [erase, removed, present]

/-- Erasing the row at `begin()` steps to the row after it. -/
theorem erase_head {row : ρ} {rest : List ρ}
    (sorted : (row :: rest).Pairwise (fun earlier later => key earlier < key later)) :
    erase (⟨row :: rest, sorted⟩ : Table key) (some row) =
      .ok (rest.head?, ⟨rest, (List.pairwise_cons.mp sorted).2⟩) := by
  have above : ∀ other ∈ rest, key row < key other := (List.pairwise_cons.mp sorted).1
  refine erase_some.mpr ⟨by simp [Table.find?], Prod.ext ?_ (Table.ext ?_)⟩
  · cases rest with
    | nil => simp [Table.next?]
    | cons second others => simp [Table.next?, above]
  · have kept : rest.filter (fun other => key other ≠ key row) = rest :=
      List.filter_eq_self.mpr fun other member => by simpa using (above other member).ne'
    simpa [Table.erase] using kept

private theorem eraseLoop_rows (rows : List ρ)
    (sorted : rows.Pairwise (fun earlier later => key earlier < key later)) :
    eraseLoop rows.length rows.head? ⟨rows, sorted⟩ = .ok (Table.empty : Table key) := by
  induction rows with
  | nil => rfl
  | cons row rest ih =>
    simp only [List.length_cons, List.head?_cons, eraseLoop]
    exact bind_eq_ok.mpr ⟨_, erase_head sorted, ih _⟩

/-- The erasing loop ends within as many rounds as there are rows and leaves nothing behind. -/
@[simp] theorem eraseAll_eq_ok (table : Table key) : eraseAll table = .ok Table.empty :=
  eraseLoop_rows table.rows table.sorted

theorem availablePrimaryKey_eq_ok {next available : UInt64} {table : Table key} :
    availablePrimaryKey next table = .ok available ↔
      nextPrimaryKey next table = available ∧ available < noAvailablePrimaryKey := by
  simp only [availablePrimaryKey, bind_eq_ok, check_eq_ok, pure_eq_ok, decide_eq_true_eq]
  constructor
  · rintro ⟨_, below, rfl⟩
    exact ⟨rfl, below⟩
  · rintro ⟨rfl, below⟩
    exact ⟨(), below, rfl⟩

/-- A fresh table object hands out the key after the largest one, short of the reserved values. -/
theorem availablePrimaryKey_toNat {table : Table key} {available : UInt64}
    (granted : availablePrimaryKey unsetNextPrimaryKey table = .ok available)
    {top : ρ} (last : table.last? = some top) : available.toNat = (key top).toNat + 1 := by
  obtain ⟨rfl, below⟩ := availablePrimaryKey_eq_ok.mp granted
  simp only [nextPrimaryKey, last, ↓reduceIte] at below ⊢
  split at below
  · exact absurd below (lt_irrefl _)
  · rename_i room
    rw [if_neg room]
    rw [UInt64.le_iff_toNat_le] at room
    rw [UInt64.toNat_add]
    simp [noAvailablePrimaryKey] at room ⊢
    omega

theorem availablePrimaryKey_isOk {table : Table key} :
    (∃ available, availablePrimaryKey unsetNextPrimaryKey table = .ok available) ↔
      ∀ top, table.last? = some top → (key top).toNat + 1 < noAvailablePrimaryKey.toNat := by
  constructor
  · rintro ⟨available, granted⟩ top last
    rw [← availablePrimaryKey_toNat granted last, ← UInt64.lt_iff_toNat_lt]
    exact (availablePrimaryKey_eq_ok.mp granted).2
  · intro room
    refine ⟨_, availablePrimaryKey_eq_ok.mpr ⟨rfl, ?_⟩⟩
    cases last : table.last? with
    | none =>
      simp only [nextPrimaryKey, last, ↓reduceIte]
      decide
    | some top =>
      have below := room top last
      have short : ¬ noAvailablePrimaryKey ≤ key top := by
        rw [UInt64.le_iff_toNat_le]
        omega
      simp only [nextPrimaryKey, last, ↓reduceIte, if_neg short]
      rw [UInt64.lt_iff_toNat_lt, UInt64.toNat_add]
      simp [noAvailablePrimaryKey] at below ⊢
      omega

theorem lt_availablePrimaryKey {table : Table key} {available : UInt64}
    (granted : availablePrimaryKey unsetNextPrimaryKey table = .ok available)
    {row : ρ} (present : row ∈ table.rows) : key row < available := by
  cases last : table.last? with
  | none => simp [Table.last?_eq_none.mp last] at present
  | some top =>
    have bounded : key row ≤ key top := Table.le_last? last present
    have grown := availablePrimaryKey_toNat granted last
    rw [UInt64.le_iff_toNat_le] at bounded
    rw [UInt64.lt_iff_toNat_lt]
    omega

theorem find?_availablePrimaryKey {table : Table key} {available : UInt64}
    (granted : availablePrimaryKey unsetNextPrimaryKey table = .ok available) :
    table.find? available = none :=
  Table.find?_eq_none.mpr fun _ present => (lt_availablePrimaryKey granted present).ne

/-- Once the granted key is stored, the next one is its successor. -/
theorem nextPrimaryKey_put {table : Table key} {row : ρ}
    (granted : availablePrimaryKey unsetNextPrimaryKey table = .ok (key row)) :
    nextPrimaryKey unsetNextPrimaryKey (table.put row) = key row + 1 := by
  have below : key row < noAvailablePrimaryKey := (availablePrimaryKey_eq_ok.mp granted).2
  have last : (table.put row).last? = some row :=
    Table.last?_put fun _ => lt_availablePrimaryKey granted
  simp only [nextPrimaryKey, last, ↓reduceIte, if_neg (not_le.mpr below)]

/-- A second call through the same table object returns the cached key. -/
theorem availablePrimaryKey_cached {next available : UInt64} {table : Table key}
    (granted : availablePrimaryKey next table = .ok available) :
    availablePrimaryKey available table = .ok available := by
  obtain ⟨_, below⟩ := availablePrimaryKey_eq_ok.mp granted
  refine availablePrimaryKey_eq_ok.mpr ⟨?_, below⟩
  have untagged : available ≠ unsetNextPrimaryKey := by
    rintro rfl
    exact absurd below (by decide)
  simp [nextPrimaryKey, untagged]

end LocalChain.Inery.MultiIndex
