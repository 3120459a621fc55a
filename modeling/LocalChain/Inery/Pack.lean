import LocalChain.Inery.Core
import Mathlib.Algebra.Ring.Nat

namespace LocalChain.Inery

/-! How many bytes a value takes in a data stream. -/

/-- One byte for every seven bits, and one for zero; the writer stops after `rounds` bytes. -/
def varintSize : Nat → UInt64 → Nat
  | 0, _ => 0
  | rounds + 1, val => if val >>> 7 = 0 then 1 else varintSize rounds (val >>> 7) + 1

def packSizeUnsignedInt (v : UInt32) : Nat := varintSize 5 v.toUInt64

def packSizeString (s : ByteString) : Nat :=
  packSizeUnsignedInt s.bytes.length.toUInt32 + s.bytes.length

def packSizeVector {α : Type} (packSize : α → Nat) (v : List α) : Nat :=
  packSizeUnsignedInt v.length.toUInt32 + v.foldl (fun size x => size + packSize x) 0

theorem varintSize_le (rounds : Nat) (val : UInt64) : varintSize rounds val ≤ rounds := by
  induction rounds generalizing val with
  | zero => rfl
  | succ rounds ih =>
    rw [varintSize]
    split
    · omega
    · exact Nat.succ_le_succ (ih _)

theorem packSizeUnsignedInt_pos (v : UInt32) : 0 < packSizeUnsignedInt v := by
  rw [packSizeUnsignedInt, varintSize]
  split <;> omega

/-- A vector takes more bytes with one more element, unless the element is shorter than its length
field can get. -/
theorem packSizeVector_grows {α : Type} {packSize : α → Nat} {x : α} (v : List α)
    (bulky : 5 ≤ packSize x) : packSizeVector packSize v < packSizeVector packSize (v ++ [x]) := by
  have before : packSizeUnsignedInt v.length.toUInt32 ≤ 5 := varintSize_le _ _
  have after := packSizeUnsignedInt_pos (v ++ [x]).length.toUInt32
  simp only [packSizeVector, List.foldl_append, List.foldl_cons, List.foldl_nil]
  omega

end LocalChain.Inery
