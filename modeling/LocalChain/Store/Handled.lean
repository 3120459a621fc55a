import LocalChain.Store.Table
import Mathlib.Logic.Function.Basic

/-! Tables whose rows are reached through numbers, as a host hands them out to a program. -/
namespace LocalChain.Store

/-- How numbers are given to keys. A key has one number until it is forgotten; which one is up to the host. -/
structure Labelling (κ : Type) where
  State : Type
  names : State → Nat → Option κ
  number : State → κ → Nat × State
  forget : State → κ → State
  unique : ∀ {state n m k}, names state n = some k → names state m = some k → n = m
  names_number : ∀ state k, names (number state k).2 (number state k).1 = some k
  kept : ∀ {state n k}, names state n = some k → ∀ other, names (number state other).2 n = some k
  spared : ∀ {state n k gone}, names state n = some k → k ≠ gone → names (forget state gone) n = some k

/-! A host that counts. -/

/-- The numbers given so far, each to one key at most. -/
structure Given (κ : Type) where
  names : Nat → Option κ
  count : Nat
  fresh : ∀ n, count ≤ n → names n = none
  unique : ∀ {n m k}, names n = some k → names m = some k → n = m

variable {κ ρ : Type} [DecidableEq κ]

def Given.none : Given κ where
  names _ := Option.none
  count := 0
  fresh _ _ := rfl
  unique := nofun

def Given.find? (given : Given κ) (k : κ) : Option Nat :=
  (List.range given.count).find? fun n => given.names n = some k

theorem Given.names_of_find? {given : Given κ} {k : κ} {n : Nat} (found : given.find? k = some n) :
    given.names n = some k := by
  simpa using List.find?_some found

theorem Given.find?_eq_none {given : Given κ} {k : κ} (absent : given.find? k = Option.none) (n : Nat) :
    given.names n ≠ some k := by
  intro named
  have inside : n < given.count := by
    by_contra outside
    rw [given.fresh n (by omega)] at named
    cases named
  exact List.find?_eq_none.mp absent n (List.mem_range.mpr inside) (by simpa using named)

def Given.number (given : Given κ) (k : κ) : Nat × Given κ :=
  match found : given.find? k with
  | some n => (n, given)
  | Option.none => (given.count, {
      names := Function.update given.names given.count (some k)
      count := given.count + 1
      fresh := fun n beyond => by
        rw [Function.update_of_ne (by omega)]
        exact given.fresh n (by omega)
      unique := fun {n m other} first second => by
        have absent := Given.find?_eq_none found
        simp only [Function.update_apply] at first second
        split at first <;> split at second
        · omega
        · obtain rfl := Option.some.inj first
          exact absurd second (absent m)
        · obtain rfl := Option.some.inj second
          exact absurd first (absent n)
        · exact given.unique first second
    })

def Given.forget (given : Given κ) (k : κ) : Given κ where
  names n := (given.names n).filter (· ≠ k)
  count := given.count
  fresh n beyond := by rw [given.fresh n beyond]; rfl
  unique first second :=
    given.unique (Option.filter_eq_some_iff.mp first).1 (Option.filter_eq_some_iff.mp second).1

/-- Numbers handed out one after another, and never again. -/
def Labelling.counting (κ : Type) [DecidableEq κ] : Labelling κ where
  State := Given κ
  names := Given.names
  number := Given.number
  forget := Given.forget
  unique {given} := given.unique
  names_number given k := by
    rw [Given.number]
    split
    · rename_i n found
      exact Given.names_of_find? found
    · exact Function.update_self ..
  kept {given n k} named other := by
    rw [Given.number]
    split
    · exact named
    · rename_i absent
      refine (Function.update_of_ne ?_ _ _).trans named
      rintro rfl
      rw [given.fresh _ le_rfl] at named
      cases named
  spared named apart := Option.filter_eq_some_iff.mpr ⟨named, by simpa using apart⟩

/-! Tables under a labelling. -/

/-- A table, and the numbers its rows have been given. -/
structure Handled {κ ρ : Type} [LinearOrder κ] (labelling : Labelling κ) (key : ρ → κ) where
  rows : Table key
  numbers : labelling.State

namespace Handled

variable {κ ρ : Type} [LinearOrder κ] {labelling : Labelling κ} {key : ρ → κ}
  {handled : Handled labelling key} {n : Nat} {k : κ} {row : ρ}

def names (handled : Handled labelling key) : Nat → Option κ := labelling.names handled.numbers

/-- The row that a number stands for. -/
def row? (handled : Handled labelling key) (n : Nat) : Option ρ := (handled.names n).bind handled.rows.find?

/-- The number of a row. -/
def number (handled : Handled labelling key) (row : ρ) : Nat × Handled labelling key :=
  let (n, numbers) := labelling.number handled.numbers (key row)
  (n, { handled with numbers })

/-- Store a row under a new key, and number it. -/
def store (handled : Handled labelling key) (row : ρ) : Option (Nat × Handled labelling key) :=
  (handled.rows.store row).map fun rows => number { handled with rows } row

/-- Overwrite the row behind a number. -/
def update (handled : Handled labelling key) (n : Nat) (f : ρ → ρ) : Option (Handled labelling key) :=
  (handled.row? n).bind fun row => (handled.rows.update (f row)).map fun rows => { handled with rows }

/-- Remove the row behind a number. Its number stands for nothing then. -/
def remove (handled : Handled labelling key) (n : Nat) : Option (Handled labelling key) :=
  (handled.row? n).bind fun row => (handled.rows.remove (key row)).map fun rows =>
    { rows, numbers := labelling.forget handled.numbers (key row) }

/-- Every number still stands for what it stood for. -/
def Extends (handled later : Handled labelling key) : Prop :=
  ∀ n k, handled.names n = some k → later.names n = some k

theorem Extends.refl (handled : Handled labelling key) : handled.Extends handled := fun _ _ => id

theorem row?_of_names (named : handled.names n = some k) : handled.row? n = handled.rows.find? k := by
  rw [row?, named]
  rfl

theorem names_number (row : ρ) : (handled.number row).2.names (handled.number row).1 = some (key row) :=
  labelling.names_number _ _

theorem extends_number (row : ρ) : handled.Extends (handled.number row).2 :=
  fun _ _ named => labelling.kept named _

theorem store_of_absent (absent : handled.rows.find? (key row) = none) :
    handled.store row = some (number { handled with rows := handled.rows.put row } row) := by
  rw [store, Table.store_eq_some.mpr ⟨absent, rfl⟩]
  rfl

theorem store_of_present (present : (handled.rows.find? (key row)).isSome) : handled.store row = none := by
  rw [store, Table.store, if_pos present]
  rfl

theorem update_of_names {f : ρ → ρ} (named : handled.names n = some k) (held : handled.rows.find? k = some row)
    (same : key (f row) = k) :
    handled.update n f = some { handled with rows := handled.rows.put (f row) } := by
  have present : (handled.rows.find? (key (f row))).isSome := by rw [same, held]; rfl
  rw [update, row?_of_names named, held, Option.bind_some, Table.update_eq_some.mpr ⟨present, rfl⟩]
  rfl

theorem remove_of_names (named : handled.names n = some k) (held : handled.rows.find? k = some row) :
    handled.remove n = some ⟨handled.rows.erase k, labelling.forget handled.numbers k⟩ := by
  obtain rfl := Table.key_of_find? held
  have present : (handled.rows.find? (key row)).isSome := by rw [held]; rfl
  rw [remove, row?_of_names named, held, Option.bind_some, Table.remove_eq_some.mpr ⟨present, rfl⟩]
  rfl

end Handled

end LocalChain.Store
