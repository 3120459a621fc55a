import Mathlib.Algebra.BigOperators.Group.List.Basic
import Mathlib.Data.List.DropRight
import Mathlib.Data.List.Lex
import Mathlib.Order.Lattice

/-! Numbers written with the most significant digit first. Every place has a base of its own. -/
namespace LocalChain.Wire.Radix

/-- The digits, one for each base. -/
def digits : List Nat → Nat → List Nat
  | [], _ => []
  | _ :: bases, number => number / bases.prod :: digits bases (number % bases.prod)

def ofDigits : List Nat → List Nat → Nat
  | _ :: bases, digit :: digits => digit * bases.prod + ofDigits bases digits
  | _, _ => 0

variable {bases figures others : List Nat} {number other : Nat}

/-- There is a digit for each base, and it is smaller. -/
abbrev Fits (figures bases : List Nat) : Prop := List.Forall₂ (· < ·) figures bases

@[simp] theorem length_digits (bases : List Nat) (number : Nat) : (digits bases number).length = bases.length := by
  induction bases generalizing number with
  | nil => rfl
  | cons base bases ih => rw [digits, List.length_cons, ih, List.length_cons]

theorem ofDigits_lt (fits : Fits figures bases) : ofDigits bases figures < bases.prod := by
  induction fits with
  | nil => exact Nat.one_pos
  | @cons digit base figures bases below _ ih =>
    have next : (digit + 1) * bases.prod ≤ base * bases.prod := Nat.mul_le_mul_right _ below
    rw [Nat.succ_mul] at next
    rw [ofDigits, List.prod_cons]
    omega

theorem digits_fit (small : number < bases.prod) : Fits (digits bases number) bases := by
  induction bases generalizing number with
  | nil => exact .nil
  | cons base bases ih =>
    rw [List.prod_cons] at small
    have some : 0 < bases.prod := Nat.pos_of_ne_zero fun none => by simp [none] at small
    exact .cons (Nat.div_lt_of_lt_mul (Nat.mul_comm base _ ▸ small)) (ih (Nat.mod_lt _ some))

theorem Fits.lt {bound digit : Nat} (fits : Fits figures bases) (bounded : ∀ base ∈ bases, base ≤ bound)
    (member : digit ∈ figures) : digit < bound := by
  induction fits with
  | nil => cases member
  | cons below _ ih =>
    obtain ⟨first, others⟩ := List.forall_mem_cons.mp bounded
    cases member with
    | head => omega
    | tail _ member => exact ih others member

theorem ofDigits_digits (small : number < bases.prod) : ofDigits bases (digits bases number) = number := by
  induction bases generalizing number with
  | nil => exact (Nat.lt_one_iff.mp small).symm
  | cons base bases ih =>
    rw [List.prod_cons] at small
    have some : 0 < bases.prod := Nat.pos_of_ne_zero fun none => by simp [none] at small
    rw [digits, ofDigits, ih (Nat.mod_lt _ some), Nat.mul_comm]
    exact Nat.div_add_mod number bases.prod

theorem digits_ofDigits (fits : Fits figures bases) : digits bases (ofDigits bases figures) = figures := by
  induction fits with
  | nil => rfl
  | @cons digit base figures bases _ rest ih =>
    have below := ofDigits_lt rest
    rw [ofDigits, digits, Nat.mul_comm, Nat.mul_add_div (by omega), Nat.div_eq_of_lt below, Nat.mul_add_mod,
      Nat.mod_eq_of_lt below, ih, Nat.add_zero]

/-- Numbers are compared like their digits. -/
theorem ofDigits_lt_iff (fits : Fits figures bases) (othersFit : Fits others bases) :
    ofDigits bases figures < ofDigits bases others ↔ figures < others := by
  induction fits generalizing others with
  | nil =>
    cases othersFit
    exact iff_of_false (Nat.lt_irrefl _) (List.lt_irrefl _)
  | @cons digit base figures bases _ rest ih =>
    cases othersFit with
    | @cons second _ others _ _ othersRest =>
      have low := ofDigits_lt rest
      have othersLow := ofDigits_lt othersRest
      rw [ofDigits, ofDigits, List.cons_lt_cons_iff, ← ih othersRest]
      rcases Nat.lt_trichotomy digit second with below | rfl | above
      · have next : (digit + 1) * bases.prod ≤ second * bases.prod := Nat.mul_le_mul_right _ below
        rw [Nat.succ_mul] at next
        exact iff_of_true (by omega) (.inl below)
      · simp
      · have next : (second + 1) * bases.prod ≤ digit * bases.prod := Nat.mul_le_mul_right _ above
        rw [Nat.succ_mul] at next
        apply iff_of_false
        · omega
        · rintro (below | ⟨rfl, _⟩) <;> omega

theorem digits_lt_iff (small : number < bases.prod) (otherSmall : other < bases.prod) :
    digits bases number < digits bases other ↔ number < other := by
  rw [← ofDigits_lt_iff (digits_fit small) (digits_fit otherSmall), ofDigits_digits small,
    ofDigits_digits otherSmall]

theorem ofDigits_append {more tail : List Nat} (same : figures.length = bases.length) :
    ofDigits (bases ++ more) (figures ++ tail) = ofDigits bases figures * more.prod + ofDigits more tail := by
  induction bases generalizing figures with
  | nil =>
    obtain rfl := List.eq_nil_of_length_eq_zero same
    simp [ofDigits]
  | cons base bases ih =>
    cases figures with
    | nil => cases same
    | cons digit figures =>
      rw [List.cons_append, List.cons_append, ofDigits, ofDigits, ih (Nat.succ.inj same), List.prod_append,
        Nat.add_mul, Nat.mul_assoc, Nat.add_assoc]

theorem ofDigits_zero (bases : List Nat) (count : Nat) : ofDigits bases (.replicate count 0) = 0 := by
  induction bases generalizing count with
  | nil => cases count <;> rfl
  | cons base bases ih =>
    cases count with
    | zero => rfl
    | succ count => rw [List.replicate_succ, ofDigits, ih, Nat.zero_mul]

theorem digits_zero (bases : List Nat) : digits bases 0 = .replicate bases.length 0 := by
  induction bases with
  | nil => rfl
  | cons base bases ih => rw [digits, Nat.zero_div, Nat.zero_mod, ih, List.length_cons, List.replicate_succ]

/-- Only zero is left without digits when the zeros at the end are cut off. -/
theorem rdropWhile_digits_eq_nil (small : number < bases.prod) :
    (digits bases number).rdropWhile (· = 0) = [] ↔ number = 0 := by
  rw [List.rdropWhile_eq_nil_iff]
  constructor
  · intro zeros
    have all : digits bases number = .replicate bases.length 0 :=
      List.eq_replicate_iff.mpr ⟨length_digits bases number, fun digit member => by simpa using zeros digit member⟩
    rw [← ofDigits_digits small, all, ofDigits_zero]
  · rintro rfl digit member
    rw [digits_zero] at member
    simpa using List.eq_of_mem_replicate member

/-! The end of a list, cut off as far as it consists of marks. -/

section Trailing

variable {α β : Type} {xs ys : List α}

theorem rdropWhile_cons (p : α → Bool) (x : α) (xs : List α) :
    (x :: xs).rdropWhile p = if p x ∧ xs.rdropWhile p = [] then [] else x :: xs.rdropWhile p := by
  rw [List.rdropWhile, List.reverse_cons, List.dropWhile_append, ← List.reverse_reverse (xs.reverse.dropWhile p),
    ← List.rdropWhile]
  cases xs.rdropWhile p with
  | nil => cases marked : p x <;> simp [marked]
  | cons y ys => simp

theorem rdropWhile_append_of_pos {p : α → Bool} (marks : ∀ y ∈ ys, p y) :
    (xs ++ ys).rdropWhile p = xs.rdropWhile p := by
  rw [List.rdropWhile, List.reverse_append, List.dropWhile_append_of_pos]
  · rfl
  · exact fun y member => marks y (List.mem_reverse.mp member)

theorem rdropWhile_map (f : α → β) (p : β → Bool) (xs : List α) :
    (xs.map f).rdropWhile p = (xs.rdropWhile (p ∘ f)).map f := by
  rw [List.rdropWhile, ← List.map_reverse, List.dropWhile_map, ← List.map_reverse]
  rfl

/-- Where marks come before all other symbols, lists of one length are ordered as what is left of them. -/
theorem rdropWhile_lt_iff [LinearOrder α] {p : α → Bool} (least : ∀ mark, p mark → ∀ x, mark ≤ x)
    (same : xs.length = ys.length) : xs.rdropWhile p < ys.rdropWhile p ↔ xs < ys := by
  induction xs generalizing ys with
  | nil =>
    obtain rfl := List.eq_nil_of_length_eq_zero same.symm
    rfl
  | cons x xs ih =>
    cases ys with
    | nil => cases same
    | cons y ys =>
      rw [rdropWhile_cons, rdropWhile_cons, List.cons_lt_cons_iff, ← ih (Nat.succ.inj same)]
      by_cases gone : p y ∧ ys.rdropWhile p = []
      · rw [if_pos gone, gone.2]
        apply iff_of_false (List.not_lt_nil _)
        rintro (below | ⟨_, below⟩)
        · exact absurd below (not_lt_of_ge (least y gone.1 x))
        · exact List.not_lt_nil _ below
      · rw [if_neg gone]
        split
        · rename_i left
          apply iff_of_true (List.nil_lt_cons _ _)
          rcases lt_or_eq_of_le (least x left.1 y) with below | rfl
          · exact .inl below
          · rw [left.2]
            refine .inr ⟨rfl, ?_⟩
            cases kept : ys.rdropWhile p with
            | nil => exact absurd ⟨left.1, kept⟩ gone
            | cons z zs => exact List.nil_lt_cons z zs
        · exact List.cons_lt_cons_iff

theorem map_lt_map_iff [LT α] [LT β] {f : α → β} {p : α → Prop}
    (keeps : ∀ x y, p x → p y → (f x < f y ↔ x < y) ∧ (f x = f y ↔ x = y)) (left : ∀ x ∈ xs, p x)
    (right : ∀ y ∈ ys, p y) : xs.map f < ys.map f ↔ xs < ys := by
  induction xs generalizing ys with
  | nil => cases ys <;> simp
  | cons x xs ih =>
    cases ys with
    | nil => exact iff_of_false (List.not_lt_nil _) (List.not_lt_nil _)
    | cons y ys =>
      obtain ⟨below, same⟩ := keeps x y (left x List.mem_cons_self) (right y List.mem_cons_self)
      have rest := ih (fun other member => left other (List.mem_cons_of_mem _ member))
        fun other member => right other (List.mem_cons_of_mem _ member)
      rw [List.map_cons, List.map_cons, List.cons_lt_cons_iff, List.cons_lt_cons_iff, below, same, rest]

end Trailing

end LocalChain.Wire.Radix
