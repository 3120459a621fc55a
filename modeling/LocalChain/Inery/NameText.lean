import LocalChain.Inery.Core
import LocalChain.Wire.Radix
import Mathlib.Data.List.GetD
import Mathlib.Tactic.Ring

namespace LocalChain.Inery

open LocalChain.Wire

/-! Names as text: twelve characters of five bits and a thirteenth of four. -/

def Name.mask : UInt64 := 0xf800000000000000

/-- The loop of `length`, with the number of rounds left. -/
def Name.lengthLoop : Nat → UInt8 → UInt64 → UInt8 → UInt8
  | 0, _, _, l => l
  | rounds + 1, i, v, l => lengthLoop rounds (i + 1) (v <<< 5) (if v &&& mask > 0 then i else l)

def Name.length (name : Name) : UInt8 :=
  if name.value = 0 then 0 else lengthLoop 13 0 name.value 0 + 1

def Name.charmap : List UInt8 :=
  ['.', '1', '2', '3', '4', '5', 'a', 'b', 'c', 'd', 'e', 'f', 'g', 'h', 'i', 'j', 'k', 'l', 'm', 'n', 'o', 'p',
    'q', 'r', 's', 't', 'u', 'v', 'w', 'x', 'y', 'z'].map Char.toUInt8

/-- The loop of `write_as_string`, with the number of rounds left. -/
def Name.writeLoop : Nat → UInt64 → List UInt8
  | 0, _ => []
  | rounds + 1, v =>
    if v = 0 then []
    else
      let indx := (v &&& mask) >>> (if rounds = 0 then 60 else 59)
      charmap.getD indx.toNat 0 :: writeLoop rounds (v <<< 5)

/-- What is written into a buffer with the given room, and how far behind its beginning the returned
pointer is. -/
def Name.writeAsString (name : Name) (room : Nat) (dryRun : Bool) : List UInt8 × Nat :=
  if (dryRun ∨ room < 13) ∧ (dryRun ∨ room < name.length.toNat) then ([], name.length.toNat)
  else (writeLoop 13 name.value, (writeLoop 13 name.value).length)

def Name.toString (name : Name) : List UInt8 := (name.writeAsString 13 false).1

/-! The digits behind the characters. -/

def Name.bases : List Nat := .replicate 12 32 ++ [16]

def Name.digits (name : Name) : List Nat := Radix.digits bases name.value.toNat

def Name.symbol (digit : Nat) : UInt8 := charmap.getD digit 0

theorem Name.prod_bases : bases.prod = 2 ^ 64 := rfl

theorem Name.symbol_order : ∀ digit < 32, ∀ other < 32,
    (symbol digit < symbol other ↔ digit < other) ∧ (symbol digit = symbol other ↔ digit = other) := by
  decide

/-! What is written. -/

theorem Name.top_bits (v : UInt64) : ((v &&& mask) >>> 59).toNat = v.toNat / 2 ^ 59 ∧
    ((v &&& mask) >>> 60).toNat = v.toNat / 2 ^ 60 := by
  have bound := v.toNat_lt
  have five : mask.toNat >>> 59 = 2 ^ 5 - 1 := rfl
  have four : mask.toNat >>> 60 = 2 ^ 4 - 1 := rfl
  constructor
  · change (v.toNat &&& mask.toNat) >>> 59 = _
    rw [Nat.shiftRight_and_distrib, five, Nat.and_two_pow_sub_one_eq_mod, Nat.shiftRight_eq_div_pow]
    omega
  · change (v.toNat &&& mask.toNat) >>> 60 = _
    rw [Nat.shiftRight_and_distrib, four, Nat.and_two_pow_sub_one_eq_mod, Nat.shiftRight_eq_div_pow]
    omega

theorem Name.prod_places (rounds : Nat) : (List.replicate rounds 32 ++ [16]).prod = 2 ^ (5 * rounds + 4) := by
  rw [List.prod_append, List.prod_replicate, List.prod_singleton, pow_add, pow_mul]
  rfl

theorem Name.eq_zero_iff {number shift : Nat} {v : UInt64} (top : v.toNat = number * 2 ^ shift) :
    v = 0 ↔ number = 0 := by
  rw [← UInt64.toNat_inj, top]
  exact Nat.mul_eq_zero.trans (or_iff_left (Nat.two_pow_pos shift).ne')

theorem Name.toNat_next {v : UInt64} {rounds number : Nat} (few : rounds + 1 ≤ 12)
    (top : v.toNat = number * 2 ^ (60 - 5 * (rounds + 1))) :
    v.toNat / 2 ^ 59 = number / 2 ^ (5 * rounds + 4) ∧
      (v <<< 5).toNat = number % 2 ^ (5 * rounds + 4) * 2 ^ (60 - 5 * rounds) := by
  have high : 2 ^ (5 * rounds + 4) * 2 ^ (60 - 5 * (rounds + 1)) = 2 ^ 59 := by
    rw [← pow_add]
    congr 1
    omega
  have wide : 2 ^ (60 - 5 * rounds) = 32 * 2 ^ (60 - 5 * (rounds + 1)) := by
    have exponent : 60 - 5 * rounds = 5 + (60 - 5 * (rounds + 1)) := by omega
    rw [exponent, pow_add]
    rfl
  constructor
  · rw [top, ← high, Nat.mul_div_mul_right _ _ (Nat.two_pow_pos _)]
  · have shifted : (v <<< 5).toNat = v.toNat * 32 % 2 ^ 64 := by
      change v.toNat <<< 5 % 2 ^ 64 = _
      rw [Nat.shiftLeft_eq]
    have modulus : 2 ^ 64 = 2 ^ (5 * rounds + 4) * 2 ^ (60 - 5 * rounds) := by
      rw [wide, Nat.mul_left_comm, high]
      rfl
    rw [shifted, top, Nat.mul_assoc, Nat.mul_comm _ 32, ← wide, modulus, Nat.mul_mod_mul_right]

theorem Name.digits_succ (rounds number : Nat) :
    Radix.digits (.replicate (rounds + 1) 32 ++ [16]) number =
      number / 2 ^ (5 * rounds + 4) ::
        Radix.digits (.replicate rounds 32 ++ [16]) (number % 2 ^ (5 * rounds + 4)) := by
  rw [List.replicate_succ, List.cons_append, Radix.digits, prod_places]

theorem Name.digits_one (number : Nat) : Radix.digits (.replicate 0 32 ++ [16]) number = [number] := by
  change [number / 1] = [number]
  rw [Nat.div_one]

/-- The loop writes the digits of what is left of the value, which stands at the top of `v`. -/
theorem Name.writeLoop_eq {rounds number : Nat} {v : UInt64} (few : rounds ≤ 12)
    (small : number < 2 ^ (5 * rounds + 4)) (top : v.toNat = number * 2 ^ (60 - 5 * rounds)) :
    writeLoop (rounds + 1) v =
      ((Radix.digits (.replicate rounds 32 ++ [16]) number).rdropWhile (· = 0)).map symbol := by
  induction rounds generalizing number v with
  | zero =>
    have index : ((v &&& mask) >>> 60).toNat = number := by
      rw [(top_bits v).2, top]
      exact Nat.mul_div_cancel _ (Nat.two_pow_pos 60)
    rw [writeLoop, digits_one, List.rdropWhile_singleton]
    by_cases none : number = 0
    · rw [if_pos ((eq_zero_iff top).mpr none), if_pos (decide_eq_true none)]
      rfl
    · have kept : ¬ decide (number = 0) = true := by simpa using none
      rw [if_neg (mt (eq_zero_iff top).mp none), if_neg kept, if_pos rfl]
      exact congrArg (fun digit => [symbol digit]) index
  | succ rounds ih =>
    obtain ⟨digit, rest⟩ := toNat_next few top
    have following := ih (by omega) (Nat.mod_lt _ (Nat.two_pow_pos _)) rest
    have left : (Radix.digits (.replicate (rounds + 1) 32 ++ [16]) number).rdropWhile (· = 0) = [] ↔
        number = 0 := Radix.rdropWhile_digits_eq_nil (by rw [prod_places]; exact small)
    by_cases none : number = 0
    · rw [writeLoop, if_pos ((eq_zero_iff top).mpr none), left.mpr none]
      rfl
    · have kept := mt left.mp none
      rw [digits_succ, Radix.rdropWhile_cons] at kept ⊢
      rw [if_neg fun gone => kept (if_pos gone), List.map_cons, ← following, writeLoop,
        if_neg (mt (eq_zero_iff top).mp none), if_neg (Nat.succ_ne_zero rounds)]
      exact congrArg (fun digit => symbol digit :: _) ((top_bits v).1.trans digit)

theorem Name.toString_eq (name : Name) : name.toString = (name.digits.rdropWhile (· = 0)).map symbol := by
  have written := writeLoop_eq (v := name.value) le_rfl name.value.toNat_lt (Nat.mul_one _).symm
  rw [toString, writeAsString, if_neg (by simp)]
  exact written

theorem Name.digit_lt (name : Name) : ∀ digit ∈ name.digits, digit < 32 := by
  intro digit member
  exact Radix.Fits.lt (Radix.digits_fit name.value.toNat_lt) (by decide) member

theorem Name.length_trimmed (name : Name) : (name.digits.rdropWhile (· = 0)).length ≤ 13 := by
  have total : name.digits.length = 13 := Radix.length_digits _ _
  rw [← total]
  exact (List.rdropWhile_prefix _ _).length_le

theorem Name.mask_pos_iff (v : UInt64) : v &&& mask > 0 ↔ v.toNat / 2 ^ 59 ≠ 0 := by
  have low : ∀ i < 59, mask.toNat.testBit i = false := by decide
  have none : v.toNat / 2 ^ 59 = 0 → v &&& mask = 0 := by
    intro small
    have bound : v.toNat < 2 ^ 59 := by omega
    apply UInt64.toNat_inj.mp
    apply Nat.eq_of_testBit_eq
    intro i
    rw [UInt64.toNat_and, Nat.testBit_and]
    by_cases inside : i < 59
    · rw [low i inside, Bool.and_false]
      exact (Nat.zero_testBit i).symm
    · have above : v.toNat.testBit i = false :=
        Nat.testBit_lt_two_pow (Nat.lt_of_lt_of_le bound (Nat.pow_le_pow_right (by omega) (by omega)))
      rw [above, Bool.false_and]
      exact (Nat.zero_testBit i).symm
  have top := (top_bits v).1
  refine ⟨fun some zero => ?_, fun some => ?_⟩
  · rw [none zero] at some
    exact absurd some (by decide)
  · apply UInt64.pos_iff_ne_zero.mpr
    intro zero
    rw [zero] at top
    exact some top.symm

/-- The loop ends with the place of the last digit that is not zero, or with the place it was given. -/
theorem Name.lengthLoop_eq {rounds number : Nat} {i l : UInt8} {v : UInt64} (few : rounds ≤ 12)
    (small : number < 2 ^ (5 * rounds + 4)) (top : v.toNat = number * 2 ^ (60 - 5 * rounds)) :
    lengthLoop (rounds + 1) i v l =
      if number = 0 then l
      else i + UInt8.ofNat (((Radix.digits (.replicate rounds 32 ++ [16]) number).rdropWhile (· = 0)).length - 1) := by
  induction rounds generalizing number v i l with
  | zero =>
    have top_digit : v.toNat / 2 ^ 59 = 2 * number := by omega
    rw [lengthLoop, lengthLoop, digits_one]
    by_cases none : number = 0
    · rw [if_pos none, if_neg]
      rw [mask_pos_iff]
      omega
    · rw [if_neg none, if_pos, List.rdropWhile_singleton, if_neg (by simpa using none)]
      · simp
      · rw [mask_pos_iff]
        omega
  | succ rounds ih =>
    obtain ⟨digit, rest⟩ := toNat_next few top
    have below : number % 2 ^ (5 * rounds + 4) < 2 ^ (5 * rounds + 4) := Nat.mod_lt _ (Nat.two_pow_pos _)
    rw [lengthLoop, ih (by omega) below rest]
    have left : (Radix.digits (.replicate rounds 32 ++ [16]) (number % 2 ^ (5 * rounds + 4))).rdropWhile (· = 0) = [] ↔
        number % 2 ^ (5 * rounds + 4) = 0 := Radix.rdropWhile_digits_eq_nil (by rw [prod_places]; exact below)
    rw [digits_succ, Radix.rdropWhile_cons]
    by_cases ends : number % 2 ^ (5 * rounds + 4) = 0
    · have zero : number = 0 ↔ number / 2 ^ (5 * rounds + 4) = 0 := by
        constructor
        · rintro rfl
          exact Nat.zero_div _
        · intro none
          rw [← Nat.div_add_mod number (2 ^ (5 * rounds + 4)), none, ends, Nat.mul_zero]
      have seen : v &&& mask > 0 ↔ number ≠ 0 := by rw [mask_pos_iff, digit, Ne, Ne, zero]
      rw [if_pos ends, left.mpr ends]
      by_cases none : number = 0
      · rw [if_neg fun marked => seen.mp marked none, if_pos none]
      · rw [if_pos (seen.mpr none), if_neg none, if_neg]
        · exact (UInt8.add_zero i).symm
        · simpa using mt zero.mpr none
    · have some : number ≠ 0 := by
        rintro rfl
        exact ends (Nat.zero_mod _)
      have positive := List.length_pos_iff.mpr (mt left.mp ends)
      have length (count : Nat) (more : 0 < count) :
          i + 1 + UInt8.ofNat (count - 1) = i + UInt8.ofNat (count + 1 - 1) := by
        obtain ⟨count, rfl⟩ := Nat.exists_eq_succ_of_ne_zero more.ne'
        rw [Nat.add_sub_cancel, Nat.succ_sub_one, Nat.succ_eq_add_one, UInt8.ofNat_add, UInt8.add_assoc,
          UInt8.add_comm (UInt8.ofNat count)]
        rfl
      rw [if_neg ends, if_neg some, if_neg fun gone => ends (left.mp gone.2), List.length_cons]
      exact length _ positive

theorem Name.length_eq (name : Name) : name.length.toNat = name.toString.length := by
  have short := name.length_trimmed
  have left : name.digits.rdropWhile (· = 0) = [] ↔ name.value.toNat = 0 :=
    Radix.rdropWhile_digits_eq_nil name.value.toNat_lt
  have zero : name.value = 0 ↔ name.value.toNat = 0 := UInt64.toNat_inj.symm
  rw [toString_eq, List.length_map, length]
  split
  · rename_i none
    rw [left.mpr (zero.mp none)]
    rfl
  · rename_i some
    have looped : lengthLoop 13 0 name.value 0 =
        0 + UInt8.ofNat ((name.digits.rdropWhile (· = 0)).length - 1) :=
      (lengthLoop_eq le_rfl name.value.toNat_lt (Nat.mul_one _).symm).trans (if_neg (mt zero.mpr some))
    have positive := List.length_pos_iff.mpr (mt left.mp (mt zero.mpr some))
    have one : (1 : UInt8).toNat = 1 := rfl
    rw [looped, UInt8.zero_add, UInt8.toNat_add, UInt8.toNat_ofNat', one]
    omega

/-- Names are ordered like their texts. -/
theorem Name.toString_lt_iff (first second : Name) : first.toString < second.toString ↔ first.value < second.value := by
  have symbols (digit other : Nat) (small : digit < 32) (otherSmall : other < 32) :=
    symbol_order digit small other otherSmall
  have kept (name : Name) : ∀ digit ∈ name.digits.rdropWhile (· = 0), digit < 32 := fun digit member =>
    name.digit_lt digit ((List.rdropWhile_prefix _ _).subset member)
  have same : first.digits.length = second.digits.length := by rw [digits, digits, Radix.length_digits, Radix.length_digits]
  rw [toString_eq, toString_eq, Radix.map_lt_map_iff symbols (kept first) (kept second),
    Radix.rdropWhile_lt_iff (by simp) same, digits, digits,
    Radix.digits_lt_iff first.value.toNat_lt second.value.toNat_lt, UInt64.lt_iff_toNat_lt]

/-- The text is written where it fits, and its end is returned in any case. -/
theorem Name.writeAsString_eq (name : Name) (room : Nat) (dryRun : Bool) :
    name.writeAsString room dryRun =
      (if dryRun ∨ room < name.toString.length then [] else name.toString, name.toString.length) := by
  have written : writeLoop 13 name.value = name.toString := by
    rw [toString, writeAsString, if_neg (by simp)]
  have short : name.toString.length ≤ 13 := by
    rw [toString_eq, List.length_map]
    exact name.length_trimmed
  have refused_iff : (dryRun ∨ room < 13) ∧ (dryRun ∨ room < name.length.toNat) ↔
      dryRun ∨ room < name.toString.length := by
    rw [length_eq, ← or_and_left]
    exact or_congr_right ⟨And.right, fun below => ⟨by omega, below⟩⟩
  rw [writeAsString, written]
  by_cases refused : dryRun ∨ room < name.toString.length
  · rw [if_pos (refused_iff.mpr refused), if_pos refused, length_eq]
  · rw [if_neg (mt refused_iff.mp refused), if_neg refused]

end LocalChain.Inery
