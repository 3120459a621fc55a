import LocalChain.Inery.NameText

namespace LocalChain.Inery

open LocalChain.Wire

def Name.charToValue (c : UInt8) : Except Abort UInt8 :=
  if c = '.'.toUInt8 then return 0
  else if '1'.toUInt8 ≤ c ∧ c ≤ '5'.toUInt8 then return c - '1'.toUInt8 + 1
  else if 'a'.toUInt8 ≤ c ∧ c ≤ 'z'.toUInt8 then return c - 'a'.toUInt8 + 6
  else throw (.check "character is not in allowed character set for names")

/-- The constructor from a string. -/
def Name.ofString (str : List UInt8) : Except Abort Name := do
  check (str.length ≤ 13) "string is too long to be a valid name"
  if str.isEmpty then return ⟨0⟩
  let n := min str.length 12
  let value ← (str.take n).foldlM (fun (value : UInt64) c => do
    let v ← charToValue c
    return value <<< 5 ||| v.toUInt64) 0
  let value := value <<< UInt64.ofNat (4 + 5 * (12 - n))
  match str[12]? with
  | none => return ⟨value⟩
  | some c =>
    let v ← charToValue c
    check (v ≤ 0x0f) "thirteenth character in name cannot be a letter that comes after j"
    return ⟨value ||| v.toUInt64⟩

variable {name : Name} {str : List UInt8}

theorem Name.charToValue_symbol : ∀ digit < 32, charToValue (symbol digit) = .ok (UInt8.ofNat digit) := by
  decide

theorem Name.symbol_charToValue {c v : UInt8} (taken : charToValue c = .ok v) :
    v.toNat < 32 ∧ symbol v.toNat = c := by
  have every : ∀ high < 16, ∀ low < 16, (charToValue (UInt8.ofNat (16 * high + low))).toOption.all
      fun digit => digit.toNat < 32 ∧ symbol digit.toNat = UInt8.ofNat (16 * high + low) := by decide
  have bound := c.toNat_lt
  have own := every (c.toNat / 16) (by omega) (c.toNat % 16) (by omega)
  rw [Nat.div_add_mod, UInt8.ofNat_toNat, taken] at own
  exact of_decide_eq_true own

theorem Name.symbol_eq_dot (digit : Nat) : symbol digit = '.'.toUInt8 ↔ digit = 0 := by
  by_cases small : digit < 32
  · have every : ∀ digit < 32, symbol digit = '.'.toUInt8 ↔ digit = 0 := by decide
    exact every digit small
  · have beyond : symbol digit = 0 := List.getD_eq_default _ _ (Nat.le_of_not_lt small)
    rw [beyond]
    exact iff_of_false (by decide) (by omega)

/-- The digits of a text that is too short are filled up with dots. -/
def Name.pad (figures : List Nat) : List Nat := figures ++ .replicate (13 - figures.length) 0

theorem Name.charToValue_eq_ok {c v : UInt8} :
    charToValue c = .ok v ↔ v.toNat < 32 ∧ symbol v.toNat = c := by
  refine ⟨symbol_charToValue, ?_⟩
  rintro ⟨small, rfl⟩
  rw [charToValue_symbol _ small, UInt8.ofNat_toNat]

def Name.shiftIn (value : UInt64) (digit : Nat) : UInt64 := value <<< 5 ||| (UInt8.ofNat digit).toUInt64

theorem Name.foldlM_eq_ok {value result : UInt64} :
    str.foldlM (fun (value : UInt64) c => do
      let v ← charToValue c
      return value <<< 5 ||| v.toUInt64) value = .ok result ↔
      ∃ figures : List Nat, (∀ digit ∈ figures, digit < 32) ∧ figures.map symbol = str ∧
        figures.foldl shiftIn value = result := by
  induction str generalizing value with
  | nil =>
    constructor
    · intro read
      exact ⟨[], by simp, rfl, Except.ok.inj read⟩
    · rintro ⟨figures, _, none, rfl⟩
      obtain rfl := List.map_eq_nil_iff.mp none
      rfl
  | cons c str ih =>
    rw [List.foldlM_cons]
    constructor
    · intro read
      obtain ⟨next, first, rest⟩ := bind_eq_ok.mp read
      obtain ⟨v, taken, shifted⟩ := bind_eq_ok.mp first
      obtain rfl := Except.ok.inj shifted
      obtain ⟨small, rfl⟩ := charToValue_eq_ok.mp taken
      obtain ⟨figures, others, rfl, rfl⟩ := ih.mp rest
      refine ⟨v.toNat :: figures, List.forall_mem_cons.mpr ⟨small, others⟩, rfl, ?_⟩
      rw [List.foldl_cons, shiftIn, UInt8.ofNat_toNat]
    · rintro ⟨figures, small, spelled, rfl⟩
      cases figures with
      | nil => cases spelled
      | cons digit figures =>
        obtain ⟨rfl, rfl⟩ := List.cons.inj spelled
        rw [charToValue_symbol digit (small digit List.mem_cons_self)]
        exact ih.mpr ⟨figures, fun other member => small other (List.mem_cons_of_mem _ member), rfl, rfl⟩

theorem Name.toNat_shiftIn {value : UInt64} {digit : Nat} (small : digit < 32) (room : value.toNat < 2 ^ 59) :
    (shiftIn value digit).toNat = value.toNat * 32 + digit := by
  have shifted : (value <<< 5).toNat = 2 ^ 5 * value.toNat := by
    change value.toNat <<< 5 % 2 ^ 64 = _
    rw [Nat.shiftLeft_eq]
    omega
  have low : (UInt8.ofNat digit).toUInt64.toNat = digit := by
    rw [UInt8.toNat_toUInt64, UInt8.toNat_ofNat']
    omega
  rw [shiftIn, UInt64.toNat_or, shifted, low, ← Nat.two_pow_add_eq_or_of_lt small]
  omega

theorem Name.toNat_foldl {figures : List Nat} {value : UInt64} (small : ∀ digit ∈ figures, digit < 32)
    (room : (value.toNat + 1) * 32 ^ figures.length ≤ 2 ^ 60) :
    (figures.foldl shiftIn value).toNat =
      value.toNat * 32 ^ figures.length + Radix.ofDigits (.replicate figures.length 32) figures := by
  induction figures generalizing value with
  | nil => simp [Radix.ofDigits]
  | cons digit figures ih =>
    obtain ⟨below, rest⟩ := List.forall_mem_cons.mp small
    rw [List.length_cons, pow_succ'] at room
    have power : 1 ≤ 32 ^ figures.length := Nat.one_le_pow _ _ (by omega)
    have grows : (value.toNat + 1) * 32 ≤ (value.toNat + 1) * (32 * 32 ^ figures.length) :=
      Nat.mul_le_mul_left _ (by omega)
    have next : (shiftIn value digit).toNat = _ := toNat_shiftIn below (by omega)
    have fits : ((shiftIn value digit).toNat + 1) * 32 ^ figures.length ≤ 2 ^ 60 := by
      refine Nat.le_trans ?_ room
      rw [← Nat.mul_assoc, next]
      exact Nat.mul_le_mul_right _ (by omega)
    rw [List.foldl_cons, ih rest fits, next, List.length_cons, List.replicate_succ, Radix.ofDigits,
      List.prod_replicate]
    ring

theorem Name.digits_eq_iff {figures : List Nat} :
    name.digits = figures ↔ Radix.Fits figures bases ∧ Radix.ofDigits bases figures = name.value.toNat := by
  constructor
  · rintro rfl
    exact ⟨Radix.digits_fit name.value.toNat_lt, Radix.ofDigits_digits name.value.toNat_lt⟩
  · rintro ⟨fits, same⟩
    rw [digits, ← same, Radix.digits_ofDigits fits]

theorem Name.bases_split {count : Nat} (few : count ≤ 12) :
    bases = .replicate count 32 ++ (.replicate (12 - count) 32 ++ [16]) := by
  rw [← List.append_assoc, ← List.replicate_add, Nat.add_sub_cancel' few, bases]

theorem Name.ofDigits_pad {figures : List Nat} (few : figures.length ≤ 12) :
    Radix.ofDigits bases (pad figures) =
      Radix.ofDigits (.replicate figures.length 32) figures * 2 ^ (5 * (12 - figures.length) + 4) := by
  rw [bases_split few, pad, Radix.ofDigits_append (by simp), prod_places, Radix.ofDigits_zero, Nat.add_zero]

theorem Name.fits_append {figures tail more : List Nat} :
    Radix.Fits (figures ++ tail) (.replicate figures.length 32 ++ more) ↔
      (∀ digit ∈ figures, digit < 32) ∧ Radix.Fits tail more := by
  induction figures with
  | nil => simp
  | cons digit figures ih =>
    rw [List.cons_append, List.length_cons, List.replicate_succ, List.cons_append, Radix.Fits,
      List.forall₂_cons, List.forall_mem_cons, and_assoc]
    exact and_congr_right fun _ => ih

theorem Name.zeros_fit (count : Nat) : Radix.Fits (.replicate (count + 1) 0) (.replicate count 32 ++ [16]) := by
  induction count with
  | zero => exact .cons (by omega) .nil
  | succ count ih => exact .cons (by omega) ih

theorem Name.pad_fits {figures : List Nat} (few : figures.length ≤ 12) :
    Radix.Fits (pad figures) bases ↔ ∀ digit ∈ figures, digit < 32 := by
  have left : 13 - figures.length = 12 - figures.length + 1 := by omega
  rw [bases_split few, pad, fits_append, left]
  exact and_iff_left (zeros_fit _)

/-- The value behind the first characters of a text. -/
theorem Name.toNat_first {figures : List Nat} (some : figures ≠ []) (few : figures.length ≤ 12)
    (small : ∀ digit ∈ figures, digit < 32) :
    (figures.foldl shiftIn 0 <<< UInt64.ofNat (4 + 5 * (12 - figures.length))).toNat =
      Radix.ofDigits bases (pad figures) := by
  have fits := Radix.ofDigits_lt ((pad_fits few).mpr small)
  have room : ((0 : UInt64).toNat + 1) * 32 ^ figures.length ≤ 2 ^ 60 := by
    change (0 + 1) * (2 ^ 5) ^ figures.length ≤ 2 ^ 60
    rw [Nat.zero_add, Nat.one_mul, ← pow_mul]
    exact Nat.pow_le_pow_right (by omega) (by omega)
  have folded := toNat_foldl small room
  rw [ofDigits_pad few, prod_bases] at fits
  have count := List.length_pos_iff.mpr some
  have zero : (0 : UInt64).toNat * 32 ^ figures.length = 0 := Nat.zero_mul _
  have shift : (UInt64.ofNat (4 + 5 * (12 - figures.length))).toNat % 64 = 5 * (12 - figures.length) + 4 := by
    rw [UInt64.toNat_ofNat']
    omega
  rw [zero, Nat.zero_add] at folded
  rw [ofDigits_pad few, UInt64.toNat_shiftLeft, shift, folded, Nat.shiftLeft_eq, Nat.mod_eq_of_lt fits]

theorem Name.pad_thirteen {figures : List Nat} {last : Nat} (twelve : figures.length = 12) :
    pad (figures ++ [last]) = figures ++ [last] := by
  rw [pad, List.length_append, twelve]
  exact List.append_nil _

/-- The thirteenth character stands in the four bits that the others leave. -/
theorem Name.toNat_thirteenth {figures : List Nat} {value : UInt64} {v : UInt8} (twelve : figures.length = 12)
    (first : value.toNat = Radix.ofDigits bases (pad figures)) (small : v.toNat < 16) :
    (value ||| v.toUInt64).toNat = Radix.ofDigits bases (pad (figures ++ [v.toNat])) := by
  have multiple : value.toNat = 2 ^ 4 * Radix.ofDigits (.replicate figures.length 32) figures := by
    rw [first, ofDigits_pad twelve.le, twelve, Nat.mul_comm]
  have split := bases_split twelve.le
  rw [pad_thirteen twelve, split, Radix.ofDigits_append (by simp), UInt64.toNat_or, UInt8.toNat_toUInt64, multiple,
    ← Nat.two_pow_add_eq_or_of_lt small, twelve, Nat.mul_comm (2 ^ 4)]
  exact congrArg _ (Nat.mul_one _).symm

theorem Name.thirteen_fit {figures : List Nat} {last : Nat} (twelve : figures.length = 12) :
    Radix.Fits (pad (figures ++ [last])) bases ↔ (∀ digit ∈ figures, digit < 32) ∧ last < 16 := by
  rw [pad_thirteen twelve, bases_split twelve.le, fits_append, twelve]
  exact and_congr_right fun _ => ⟨fun fits => by cases fits; assumption, fun small => .cons small .nil⟩

/-- A text that is accepted is read as the name with its characters as digits. -/
theorem Name.digits_of_ofString (read : ofString str = .ok name) :
    ∃ figures : List Nat, figures.length ≤ 13 ∧ figures.map symbol = str ∧ name.digits = pad figures := by
  obtain ⟨_, short, read⟩ := bind_eq_ok.mp read
  rw [check_eq_ok, decide_eq_true_eq] at short
  split at read
  · rename_i empty
    obtain rfl := Except.ok.inj read
    obtain rfl := List.isEmpty_iff.mp empty
    exact ⟨[], Nat.zero_le _, rfl, rfl⟩
  · rename_i some
    obtain ⟨value, first, read⟩ := bind_eq_ok.mp read
    obtain ⟨figures, small, spelled, rfl⟩ := foldlM_eq_ok.mp first
    have count : figures.length = min str.length 12 := by
      rw [← List.length_map symbol, spelled, List.length_take]
      omega
    have nonempty : figures ≠ [] := by
      intro none
      rw [none] at count
      exact some (List.isEmpty_iff.mpr (List.eq_nil_of_length_eq_zero (by simp at count; omega)))
    have value := toNat_first nonempty (by omega) small
    rw [← count] at read spelled
    split at read
    · rename_i ends
      obtain rfl := Except.ok.inj read
      have few := List.getElem?_eq_none_iff.mp ends
      rw [count, Nat.min_eq_left few, List.take_length] at spelled
      exact ⟨figures, by omega, spelled, digits_eq_iff.mpr ⟨(pad_fits (by omega)).mpr small, value.symm⟩⟩
    · rename_i c ends
      obtain ⟨inside, rfl⟩ := List.getElem?_eq_some_iff.mp ends
      obtain ⟨v, taken, read⟩ := bind_eq_ok.mp read
      obtain ⟨_, low, read⟩ := bind_eq_ok.mp read
      obtain rfl := Except.ok.inj read
      rw [check_eq_ok, decide_eq_true_eq, UInt8.le_iff_toNat_le] at low
      have twelve : figures.length = 12 := by omega
      have bits : v.toNat < 16 := Nat.lt_succ_of_le low
      rw [twelve] at spelled
      refine ⟨figures ++ [v.toNat], by simp [twelve], ?_, digits_eq_iff.mpr
        ⟨(thirteen_fit twelve).mpr ⟨small, bits⟩, (toNat_thirteenth twelve value bits).symm⟩⟩
      rw [List.map_append, spelled, List.map_singleton, (charToValue_eq_ok.mp taken).2]
      rw [List.take_concat_get', List.take_of_length_le short]

theorem Name.ofString_of_digits {figures : List Nat} (short : figures.length ≤ 13) (same : name.digits = pad figures) :
    ofString (figures.map symbol) = .ok name := by
  obtain ⟨fits, value⟩ := digits_eq_iff.mp same
  refine bind_eq_ok.mpr ⟨(), by simpa using short, ?_⟩
  by_cases none : figures = []
  · subst none
    have zero : name.value = 0 := UInt64.toNat_inj.mp (value.symm.trans (Radix.ofDigits_zero _ 13))
    exact congrArg Except.ok (value_inj.mp zero.symm)
  · rw [if_neg (by simpa using none), List.length_map]
    by_cases few : figures.length ≤ 12
    · have small := (pad_fits few).mp fits
      have ends : (figures.map symbol)[12]? = Option.none := by simpa using few
      have first : (figures.map symbol).take figures.length = figures.map symbol := by simp
      rw [Nat.min_eq_left few, ends]
      refine bind_eq_ok.mpr ⟨_, foldlM_eq_ok.mpr ⟨figures, small, first.symm, rfl⟩, ?_⟩
      exact congrArg Except.ok (value_inj.mp (UInt64.toNat_inj.mp ((toNat_first none few small).trans value)))
    · obtain ⟨front, last, rfl⟩ := (List.eq_nil_or_concat figures).resolve_left none
      rw [List.concat_eq_append] at *
      rw [List.length_append, List.length_singleton] at short few
      have twelve : front.length = 12 := by omega
      obtain ⟨small, bits⟩ := (thirteen_fit twelve).mp fits
      have some : front ≠ [] := List.length_pos_iff.mp (by omega)
      have first : ((front ++ [last]).map symbol).take 12 = front.map symbol := by simp [twelve]
      have ends : ((front ++ [last]).map symbol)[12]? = Option.some (symbol last) := by simp [← twelve]
      have count : min (front ++ [last]).length 12 = 12 := by simp [twelve]
      have low : (UInt8.ofNat last).toNat = last := by
        rw [UInt8.toNat_ofNat']
        omega
      have whole := toNat_thirteenth (v := UInt8.ofNat last) twelve (toNat_first some twelve.le small) (low.symm ▸ bits)
      rw [count, ends]
      refine bind_eq_ok.mpr ⟨_, foldlM_eq_ok.mpr ⟨front, small, first.symm, rfl⟩,
        bind_eq_ok.mpr ⟨_, charToValue_symbol last (by omega), bind_eq_ok.mpr ⟨(), ?_, ?_⟩⟩⟩
      · rw [check_eq_ok, decide_eq_true_eq, UInt8.le_iff_toNat_le, low]
        exact Nat.le_of_lt_succ bits
      · rw [low, value, twelve] at whole
        exact congrArg Except.ok (value_inj.mp (UInt64.toNat_inj.mp whole))

theorem Name.pad_trimmed (name : Name) : pad (name.digits.rdropWhile (· = 0)) = name.digits := by
  have split : name.digits.rdropWhile (· = 0) ++ name.digits.rtakeWhile (· = 0) = name.digits :=
    List.rdropWhile_append_rtakeWhile
  have total : (name.digits.rdropWhile (· = 0)).length + (name.digits.rtakeWhile (· = 0)).length = 13 := by
    rw [← List.length_append, split, digits, Radix.length_digits]
    rfl
  have zeros : name.digits.rtakeWhile (· = 0) = .replicate (13 - (name.digits.rdropWhile (· = 0)).length) 0 :=
    List.eq_replicate_iff.mpr ⟨by omega, fun digit member => by simpa using List.mem_rtakeWhile_imp member⟩
  rw [pad, ← zeros, split]

theorem Name.toString_of_ofString (read : ofString str = .ok name) :
    name.toString = str.rdropWhile (· = '.'.toUInt8) := by
  obtain ⟨figures, short, rfl, same⟩ := digits_of_ofString read
  have dots : (fun c => decide (c = '.'.toUInt8)) ∘ symbol = fun digit => decide (digit = 0) := by
    funext digit
    exact decide_eq_decide.mpr (symbol_eq_dot digit)
  rw [toString_eq, same, pad, Radix.rdropWhile_append_of_pos (by simp), Radix.rdropWhile_map, dots]

/-- A text is accepted as the name if it is short enough and, but for dots at its end, the text of the name. -/
theorem Name.ofString_iff (str : List UInt8) (name : Name) :
    ofString str = .ok name ↔ str.length ≤ 13 ∧ str.rdropWhile (· = '.'.toUInt8) = name.toString := by
  constructor
  · intro read
    obtain ⟨figures, short, rfl, _⟩ := digits_of_ofString read
    exact ⟨by rwa [List.length_map], (toString_of_ofString read).symm⟩
  · rintro ⟨short, same⟩
    have dots : str.rtakeWhile (· = '.'.toUInt8) =
        (List.replicate (str.rtakeWhile (· = '.'.toUInt8)).length 0).map symbol := by
      have dot : symbol 0 = '.'.toUInt8 := rfl
      rw [List.map_replicate, dot]
      exact List.eq_replicate_iff.mpr ⟨rfl, fun c member => by simpa using List.mem_rtakeWhile_imp member⟩
    have split : str = (name.digits.rdropWhile (· = 0) ++
        List.replicate (str.rtakeWhile (· = '.'.toUInt8)).length 0).map symbol := by
      rw [List.map_append, ← dots, ← toString_eq, ← same]
      exact List.rdropWhile_append_rtakeWhile.symm
    rw [split] at short ⊢
    rw [List.length_map, List.length_append, List.length_replicate] at short
    apply ofString_of_digits
    · rwa [List.length_append, List.length_replicate]
    · refine name.pad_trimmed.symm.trans ?_
      rw [pad, pad, List.append_assoc, ← List.replicate_add, List.length_append, List.length_replicate]
      congr 2
      omega

end LocalChain.Inery
