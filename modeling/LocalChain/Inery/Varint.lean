import LocalChain.Inery.Datastream
import Mathlib.Data.Nat.Bitwise
import Mathlib.Tactic.Ring

namespace LocalChain.Inery

open LocalChain.Wire
open LocalChain.Refine (run_map_ok run_map_eq_ok)

structure UnsignedInt where
  value : UInt32
deriving DecidableEq, Repr

structure SignedInt where
  value : Int32
deriving DecidableEq, Repr

/-- The bytes that both writers put on the stream one by one, cut off after `rounds` of them. -/
def varintBytes : Nat → UInt64 → List UInt8
  | 0, _ => []
  | rounds + 1, val =>
    let b := val.toUInt8 &&& 0x7f
    let val := val >>> 7
    let b := b ||| (if 0 < val then 1 else 0 : UInt8) <<< 7
    if val = 0 then [b] else b :: varintBytes rounds val

/-- The loop of both readers. The shift of a 32-bit number takes its count modulo 32. -/
def readVarint (v : UInt64) (shift : UInt8) : Reading StreamError UInt64
  | [] => throw (.check "get")
  | b :: rest =>
    let v := v ||| ((b &&& 0x7f).toUInt32 <<< shift.toUInt32).toUInt64
    if b &&& 0x80 = 0 then return (v, rest) else readVarint v (shift + 7) rest

instance : Serialize UnsignedInt where
  format := {
    writes := fun v => (varintBytes 5 v.value.toUInt64).map fun b => [b]
    read := (fun v => ⟨v.toUInt32⟩) <$> readVarint 0 0
  }

variable {val acc : UInt64} {rounds i : Nat} {rest : List UInt8}

theorem toNat_shiftRight_seven (val : UInt64) : (val >>> 7).toNat = val.toNat / 128 := by
  simp [UInt64.toNat_shiftRight, Nat.shiftRight_eq_div_pow]

/-- Seven bits to a byte, and the eighth where more follow. -/
theorem varintBytes_succ (rounds : Nat) (val : UInt64) :
    varintBytes (rounds + 1) val =
      if val >>> 7 = 0 then [UInt8.ofNat (val.toNat % 128)]
      else UInt8.ofNat (val.toNat % 128 + 128) :: varintBytes rounds (val >>> 7) := by
  have low : (val.toUInt8 &&& 0x7f).toNat = val.toNat % 128 := by
    have mask : (0x7f : UInt8).toNat = 2 ^ 7 - 1 := rfl
    rw [UInt8.toNat_and, mask, Nat.and_two_pow_sub_one_eq_mod, UInt64.toNat_toUInt8]
    omega
  have last : val.toUInt8 &&& 0x7f = UInt8.ofNat (val.toNat % 128) := by
    apply UInt8.toNat_inj.mp
    rw [low, UInt8.toNat_ofNat']
    omega
  have more : (val.toUInt8 &&& 0x7f) ||| 0x80 = UInt8.ofNat (val.toNat % 128 + 128) := by
    apply UInt8.toNat_inj.mp
    have bit : (0x80 : UInt8).toNat = 2 ^ 7 * 1 := rfl
    rw [UInt8.toNat_or, low, bit, Nat.or_comm, ← Nat.two_pow_add_eq_or_of_lt (by omega), UInt8.toNat_ofNat']
    omega
  rw [varintBytes]
  split
  · rename_i done
    simp [done, last]
  · rename_i left
    have positive : (0 : UInt64) < val >>> 7 := UInt64.pos_iff_ne_zero.mpr left
    have bit : (1 : UInt8) <<< 7 = 0x80 := rfl
    rw [if_pos positive, bit, more]

/-- A round of the reader adds a digit above those that it has read. -/
theorem toNat_addDigit {b : UInt8} (room : i ≤ 4) (small : acc.toNat < 2 ^ (7 * i))
    (bound : acc.toNat + b.toNat % 128 * 2 ^ (7 * i) < 2 ^ 32) :
    (acc ||| ((b &&& 0x7f).toUInt32 <<< (UInt8.ofNat (7 * i)).toUInt32).toUInt64).toNat =
      acc.toNat + b.toNat % 128 * 2 ^ (7 * i) := by
  have shift : (UInt8.ofNat (7 * i)).toUInt32.toNat % 32 = 7 * i := by
    rw [UInt8.toNat_toUInt32, UInt8.toNat_ofNat']
    omega
  have digit : (b &&& 0x7f).toUInt32.toNat = b.toNat % 128 := by
    have mask : (0x7f : UInt8).toNat = 2 ^ 7 - 1 := rfl
    rw [UInt8.toNat_toUInt32, UInt8.toNat_and, mask, Nat.and_two_pow_sub_one_eq_mod]
  rw [UInt64.toNat_or, UInt32.toNat_toUInt64, UInt32.toNat_shiftLeft, shift, digit, Nat.shiftLeft_eq,
    Nat.mod_eq_of_lt (by omega), Nat.mul_comm (b.toNat % 128), Nat.or_comm,
    ← Nat.two_pow_add_eq_or_of_lt small]
  omega

theorem highBit_eq_zero {b : UInt8} : b &&& 0x80 = 0 ↔ b.toNat < 128 := by
  have bound := b.toNat_lt
  have bit : (b &&& 0x80).toNat = (b.toNat.testBit 7).toNat * 2 ^ 7 := by
    rw [UInt8.toNat_and, ← Nat.and_two_pow]
    rfl
  rw [← UInt8.toNat_inj, bit, Nat.testBit_eq_decide_div_mod_eq]
  by_cases small : b.toNat < 128
  · rw [Nat.div_eq_of_lt small]
    exact iff_of_true rfl small
  · have one : b.toNat / 2 ^ 7 = 1 := by omega
    rw [one]
    exact iff_of_false nofun small

theorem readVarint_last {b : UInt8} (ends : b.toNat < 128) (room : i ≤ 4) (small : acc.toNat < 2 ^ (7 * i))
    (bound : acc.toNat + b.toNat * 2 ^ (7 * i) < 2 ^ 32) :
    readVarint acc (UInt8.ofNat (7 * i)) (b :: rest) =
      .ok (UInt64.ofNat (acc.toNat + b.toNat * 2 ^ (7 * i)), rest) := by
  have digit : b.toNat % 128 = b.toNat := Nat.mod_eq_of_lt ends
  have added := toNat_addDigit room small (digit.symm ▸ bound)
  rw [readVarint, if_pos (highBit_eq_zero.mpr ends), ← UInt64.ofNat_toNat (x := acc ||| _), added, digit]
  rfl

theorem readVarint_more {b : UInt8} (goesOn : 128 ≤ b.toNat) (room : i ≤ 4) (small : acc.toNat < 2 ^ (7 * i))
    (bound : acc.toNat + b.toNat % 128 * 2 ^ (7 * i) < 2 ^ 32) :
    readVarint acc (UInt8.ofNat (7 * i)) (b :: rest) =
      readVarint (UInt64.ofNat (acc.toNat + b.toNat % 128 * 2 ^ (7 * i))) (UInt8.ofNat (7 * (i + 1))) rest := by
  have set : ¬ b &&& 0x80 = 0 := fun clear => absurd (highBit_eq_zero.mp clear) (Nat.not_lt.mpr goesOn)
  have shift : UInt8.ofNat (7 * i) + 7 = UInt8.ofNat (7 * (i + 1)) := by
    rw [Nat.mul_add, UInt8.ofNat_add]
    rfl
  rw [readVarint, if_neg set, shift, ← toNat_addDigit room small bound, UInt64.ofNat_toNat]

theorem readVarint_short (last : val >>> 7 = 0) (room : i ≤ 4) (small : acc.toNat < 2 ^ (7 * i))
    (bound : acc.toNat + val.toNat * 2 ^ (7 * i) < 2 ^ 32) :
    readVarint acc (UInt8.ofNat (7 * i)) (varintBytes (rounds + 1) val ++ rest) =
      .ok (UInt64.ofNat (acc.toNat + val.toNat * 2 ^ (7 * i)), rest) := by
  have none : val.toNat / 128 = 0 := by rw [← toNat_shiftRight_seven, last, UInt64.toNat_zero]
  have low : val.toNat < 128 := by omega
  have byte : (UInt8.ofNat val.toNat).toNat = val.toNat := by
    rw [UInt8.toNat_ofNat']
    omega
  rw [varintBytes_succ, if_pos last, Nat.mod_eq_of_lt low, List.singleton_append,
    readVarint_last (byte.symm ▸ low) room small (byte.symm ▸ bound), byte]

/-- The reader puts the number above what it has read of it already. -/
theorem readVarint_varintBytes (fits : val.toNat < 128 ^ (rounds + 1)) (room : i + rounds ≤ 4)
    (small : acc.toNat < 2 ^ (7 * i)) (bound : acc.toNat + val.toNat * 2 ^ (7 * i) < 2 ^ 32) :
    readVarint acc (UInt8.ofNat (7 * i)) (varintBytes (rounds + 1) val ++ rest) =
      .ok (UInt64.ofNat (acc.toNat + val.toNat * 2 ^ (7 * i)), rest) := by
  induction rounds generalizing val acc i with
  | zero =>
    apply readVarint_short _ (by omega) small bound
    apply UInt64.toNat_inj.mp
    rw [toNat_shiftRight_seven]
    exact Nat.div_eq_of_lt (by simpa using fits)
  | succ rounds ih =>
    by_cases last : val >>> 7 = 0
    · exact readVarint_short last (by omega) small bound
    · have byte : (UInt8.ofNat (val.toNat % 128 + 128)).toNat = val.toNat % 128 + 128 := by
        rw [UInt8.toNat_ofNat']
        omega
      have digit : (val.toNat % 128 + 128) % 128 = val.toNat % 128 := by omega
      have upper := toNat_shiftRight_seven val
      have power : 2 ^ (7 * (i + 1)) = 128 * 2 ^ (7 * i) := by
        rw [Nat.mul_add, pow_add]
        omega
      have value : val.toNat * 2 ^ (7 * i) =
          val.toNat / 128 * (128 * 2 ^ (7 * i)) + val.toNat % 128 * 2 ^ (7 * i) := by
        conv_lhs => rw [← Nat.div_add_mod val.toNat 128]
        ring
      have below : val.toNat % 128 * 2 ^ (7 * i) ≤ 127 * 2 ^ (7 * i) := Nat.mul_le_mul_right _ (by omega)
      have read : (UInt64.ofNat (acc.toNat + val.toNat % 128 * 2 ^ (7 * i))).toNat =
          acc.toNat + val.toNat % 128 * 2 ^ (7 * i) := by
        rw [UInt64.toNat_ofNat']
        omega
      rw [varintBytes_succ, if_neg last, List.cons_append,
        readVarint_more (by omega) (by omega) small (by rw [byte, digit]; omega), byte, digit, ih]
      · rw [read, upper, power, value, Nat.add_right_comm, Nat.add_assoc]
      · rw [upper]
        rw [pow_succ] at fits
        omega
      · omega
      · omega
      · rw [read, upper, power]
        omega

theorem toNat_lt_varint (v : UInt32) : v.toUInt64.toNat < 128 ^ (4 + 1) := by
  have bound := v.toNat_lt
  rw [UInt32.toNat_toUInt64]
  omega

theorem UnsignedInt.bytes_eq (v : UnsignedInt) : format.bytes v = varintBytes 5 v.value.toUInt64 := by
  change ((varintBytes 5 v.value.toUInt64).map fun b => [b]).flatten = _
  rw [← List.flatMap_def]
  exact List.flatMap_singleton' _

theorem UnsignedInt.read_eq :
    (format : Format StreamError UnsignedInt).read = (fun v => ⟨v.toUInt32⟩) <$> readVarint 0 0 := rfl

theorem UnsignedInt.reads (v : UnsignedInt) : format.Reads v := by
  intro rest
  have bound := v.value.toNat_lt
  have value : (0 : UInt64).toNat + v.value.toUInt64.toNat * 2 ^ (7 * 0) = v.value.toNat := by
    rw [UInt32.toNat_toUInt64]
    simp
  have taken : readVarint 0 (UInt8.ofNat (7 * 0)) (varintBytes 5 v.value.toUInt64 ++ rest) = _ :=
    readVarint_varintBytes (toNat_lt_varint v.value) (by omega) Nat.one_pos (by rw [value]; exact bound)
  rw [value] at taken
  have mapped := run_map_ok (f := fun v : UInt64 => UnsignedInt.mk v.toUInt32) taken
  have same : (UInt64.ofNat v.value.toNat).toUInt32 = v.value := by
    apply UInt32.toNat_inj.mp
    rw [UInt64.toNat_toUInt32, UInt64.toNat_ofNat']
    omega
  rw [bytes_eq]
  rw [same] at mapped
  exact mapped

theorem length_varintBytes (rounds : Nat) (val : UInt64) : (varintBytes rounds val).length = varintSize rounds val := by
  induction rounds generalizing val with
  | zero => rfl
  | succ rounds ih =>
    rw [varintBytes_succ, varintSize]
    split
    · rfl
    · rw [List.length_cons, ih]

theorem UnsignedInt.length_bytes (v : UnsignedInt) : (format.bytes v).length = packSizeUnsignedInt v.value := by
  rw [bytes_eq]
  exact length_varintBytes 5 v.value.toUInt64

/-- A number read out of few bytes is small. -/
theorem readVarint_lt {stream : List UInt8} {result : UInt64} (small : acc.toNat < 2 ^ (7 * i))
    (few : i + stream.length ≤ 4) (read : readVarint acc (UInt8.ofNat (7 * i)) stream = .ok (result, rest)) :
    result.toNat < 2 ^ (7 * (i + stream.length)) := by
  induction stream generalizing acc i with
  | nil => cases read
  | cons b tail ih =>
    rw [List.length_cons] at few ⊢
    have digit : b.toNat % 128 * 2 ^ (7 * i) ≤ 127 * 2 ^ (7 * i) := Nat.mul_le_mul_right _ (by omega)
    have power : 2 ^ (7 * (i + 1)) = 128 * 2 ^ (7 * i) := by
      rw [Nat.mul_add, pow_add]
      omega
    have below : 2 ^ (7 * (i + 1)) ≤ 2 ^ 28 := Nat.pow_le_pow_right (by omega) (by omega)
    by_cases ends : b.toNat < 128
    · rw [Nat.mod_eq_of_lt ends] at digit
      rw [readVarint_last ends (by omega) small (by omega)] at read
      obtain ⟨rfl, rfl⟩ := Prod.mk.inj (Except.ok.inj read)
      have grows : 2 ^ (7 * (i + 1)) ≤ 2 ^ (7 * (i + (tail.length + 1))) :=
        Nat.pow_le_pow_right (by omega) (by omega)
      rw [UInt64.toNat_ofNat']
      omega
    · have longer : i + (tail.length + 1) = i + 1 + tail.length := by omega
      rw [readVarint_more (by omega) (by omega) small (by omega)] at read
      rw [longer] at few ⊢
      apply ih _ few read
      rw [UInt64.toNat_ofNat']
      omega

theorem varintSize_le_of_lt {val : UInt64} {count : Nat} (rounds : Nat) (small : val.toNat < 128 ^ (count + 1)) :
    varintSize rounds val ≤ count + 1 := by
  induction rounds generalizing val count with
  | zero => exact Nat.zero_le _
  | succ rounds ih =>
    have shifted := toNat_shiftRight_seven val
    rw [varintSize]
    split
    · omega
    · rename_i left
      cases count with
      | zero =>
        apply absurd _ left
        apply UInt64.toNat_inj.mp
        rw [shifted]
        exact Nat.div_eq_of_lt (by simpa using small)
      | succ count =>
        rw [pow_succ] at small
        exact Nat.succ_le_succ (ih (by rw [shifted]; omega))

theorem UnsignedInt.length_le {v : UnsignedInt} {used : List UInt8} (unpacked : unpack used = .ok v) :
    (format.bytes v).length ≤ used.length := by
  rw [length_bytes, packSizeUnsignedInt]
  by_cases few : used.length ≤ 4
  · obtain ⟨⟨_, rest⟩, read, rfl⟩ := map_eq_ok.mp unpacked
    rw [read_eq] at read
    obtain ⟨result, taken, rfl⟩ := run_map_eq_ok.mp read
    cases used with
    | nil => cases taken
    | cons b tail =>
      rw [List.length_cons] at few ⊢
      have zero : (0 : UInt64).toNat < 2 ^ (7 * 0) := Nat.one_pos
      have small := readVarint_lt zero (by rw [List.length_cons]; omega) taken
      rw [Nat.zero_add, List.length_cons, pow_mul] at small
      apply varintSize_le_of_lt
      rw [UInt32.toNat_toUInt64, UInt64.toNat_toUInt32]
      exact Nat.lt_of_le_of_lt (Nat.mod_le _ _) small
  · have least := varintSize_le 5 v.value.toUInt64
    omega

theorem readVarint_local (v : UInt64) (shift : UInt8) : Local (readVarint v shift) := by
  intro stream result rest read
  change readVarint v shift stream = .ok (result, rest) at read
  induction stream generalizing v shift with
  | nil => cases read
  | cons b tail ih =>
    rw [readVarint] at read
    split at read
    · rename_i last
      obtain ⟨rfl, rfl⟩ := Prod.mk.inj (Except.ok.inj read)
      refine ⟨[b], rfl, fun other => ?_⟩
      change readVarint v shift (b :: other) = _
      rw [readVarint, if_pos last]
      rfl
    · rename_i more
      obtain ⟨used, rfl, free⟩ := ih _ _ read
      refine ⟨b :: used, rfl, fun other => ?_⟩
      change readVarint v shift (b :: (used ++ other)) = _
      rw [readVarint, if_neg more]
      exact free other

theorem UnsignedInt.reading_local : Local (format : Format StreamError UnsignedInt).read :=
  .map _ (readVarint_local 0 0)

/-! Signed numbers, the sign in the lowest bit. -/

def SignedInt.encode (v : SignedInt) : UInt32 := ((v.value <<< 1) ^^^ (v.value >>> 31)).toUInt32

def SignedInt.decode (v : UInt32) : SignedInt :=
  ⟨((v >>> 1).toUInt64 ^^^ ((~~~(v &&& 1)).toUInt64 + 1)).toUInt32.toInt32⟩

instance : Serialize SignedInt where
  format := {
    writes := fun v => (varintBytes 5 v.encode.toUInt64).map fun b => [b]
    read := (fun v => .decode v.toUInt32) <$> readVarint 0 0
  }

theorem SignedInt.bytes_eq (v : SignedInt) : format.bytes v = format.bytes (UnsignedInt.mk v.encode) := rfl

theorem SignedInt.read_eq :
    (format : Format StreamError SignedInt).read =
      (fun v : UnsignedInt => decode v.value) <$> (format : Format StreamError UnsignedInt).read := by
  rw [UnsignedInt.read_eq, Functor.map_map]
  rfl

theorem SignedInt.encode_toBitVec (v : SignedInt) :
    v.encode.toBitVec = v.value.toBitVec <<< 1 ^^^ BitVec.fill 32 v.value.toBitVec.msb := by
  have spread : v.value.toBitVec.sshiftRight 31 = BitVec.fill 32 v.value.toBitVec.msb := by
    ext i h
    rw [BitVec.getElem_fill, BitVec.getElem_sshiftRight]
    split
    · rw [BitVec.msb_eq_getLsbD_last]
      obtain rfl : i = 0 := by omega
      rfl
    · rfl
  rw [← spread]
  rfl

theorem SignedInt.decode_toBitVec (v : UInt32) :
    (SignedInt.decode v).value.toBitVec = v.toBitVec >>> 1 ^^^ BitVec.fill 32 (v.toBitVec.getLsbD 0) := by
  have low : v &&& 1 = (if v.toBitVec.getLsbD 0 then 1 else 0 : UInt32) := by
    apply UInt32.toNat_inj.mp
    have mask : (1 : UInt32).toNat = 2 ^ 1 - 1 := rfl
    rw [UInt32.toNat_and, mask, Nat.and_two_pow_sub_one_eq_mod]
    cases bit : v.toBitVec.getLsbD 0 <;> simp [BitVec.getLsbD, Nat.testBit_zero] at bit ⊢ <;> omega
  have spread : ((~~~(v &&& 1)).toUInt64 + 1).toUInt32.toBitVec = BitVec.fill 32 (v.toBitVec.getLsbD 0) := by
    rw [low]
    cases v.toBitVec.getLsbD 0 <;> rfl
  rw [SignedInt.decode, UInt64.toUInt32_xor, UInt32.toUInt32_toUInt64, ← spread]
  rfl

theorem SignedInt.decode_encode (v : SignedInt) : decode v.encode = v := by
  have same : (decode v.encode).value = v.value := by
    apply Int32.toBitVec_inj.mp
    rw [decode_toBitVec, encode_toBitVec]
    ext i h
    by_cases last : i = 31
    · subst last
      simp [BitVec.msb_eq_getLsbD_last, BitVec.getLsbD_eq_getElem]
    · have inside : i + 1 < 32 := by omega
      simp [Nat.add_comm 1 i, inside]
  cases v
  exact congrArg SignedInt.mk same

theorem SignedInt.encode_decode (v : UInt32) : (decode v).encode = v := by
  apply UInt32.toBitVec_inj.mp
  rw [encode_toBitVec, decode_toBitVec]
  ext i h
  cases i with
  | zero => simp [BitVec.getElem_fill, BitVec.msb_eq_getLsbD_last]
  | succ i => simp [BitVec.getElem_fill, BitVec.msb_eq_getLsbD_last, Nat.add_comm 1 i, BitVec.getLsbD_eq_getElem h]

theorem SignedInt.reads (v : SignedInt) : format.Reads v := by
  intro rest
  have taken := run_map_ok (f := fun v : UnsignedInt => decode v.value) (UnsignedInt.reads ⟨v.encode⟩ rest)
  rw [bytes_eq, read_eq, taken]
  exact congrArg (fun v => Except.ok (v, rest)) v.decode_encode

theorem SignedInt.length_le {v : SignedInt} {used : List UInt8} (unpacked : unpack used = .ok v) :
    (format.bytes v).length ≤ used.length := by
  obtain ⟨⟨_, rest⟩, read, rfl⟩ := map_eq_ok.mp unpacked
  rw [read_eq] at read
  obtain ⟨plain, taken, rfl⟩ := run_map_eq_ok.mp read
  rw [bytes_eq, encode_decode]
  exact UnsignedInt.length_le (map_eq_ok.mpr ⟨_, taken, rfl⟩)

/-- Numbers are read back whatever follows them, and no stream that they can be read from is shorter. -/
theorem varint_packed (v : UnsignedInt) (w : SignedInt) :
    format.Reads v ∧ (∀ used, unpack used = .ok v → (format.bytes v).length ≤ used.length) ∧
      format.Reads w ∧ (∀ used, unpack used = .ok w → (format.bytes w).length ≤ used.length) :=
  ⟨v.reads, fun _ unpacked => UnsignedInt.length_le unpacked,
    w.reads, fun _ unpacked => SignedInt.length_le unpacked⟩

end LocalChain.Inery
