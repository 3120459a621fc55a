import LocalChain.Inery.Pack
import LocalChain.Wire.Format

namespace LocalChain.Inery

open LocalChain.Wire

/-- Why a stream stopped. -/
inductive StreamError where
  | check (message : String)
deriving DecidableEq, Repr

/-! The streams. -/

/-- `datastream<char*>`: what is written so far, and the bytes between the position and the end. -/
structure Datastream where
  written : List UInt8
  room : Nat

/-- The difference of the pointers is compared with the size as signed 32-bit numbers. -/
def Datastream.write (ds : Datastream) (data : List UInt8) : Except StreamError Datastream :=
  if Int32.ofNat data.length ≤ Int32.ofNat ds.room then
    return ⟨ds.written ++ data, ds.room - data.length⟩
  else throw (.check "datastream attempted to write past the end")

/-- `datastream<const char*>`, of which the bytes from the position on are left. -/
def Datastream.read (s : Nat) : Reading StreamError (List UInt8) := fun ds =>
  if s ≤ ds.length then return (ds.take s, ds.drop s)
  else throw (.check "datastream attempted to read past the end")

def Datastream.get : Reading StreamError UInt8
  | [] => throw (.check "get")
  | c :: rest => return (c, rest)

/-- Types with `operator<<` and `operator>>`. -/
class Serialize (α : Type) where
  format : Format StreamError α

export Serialize (format)

variable {α β : Type} [Serialize α] [Serialize β]

/-- `pack_size`, through `datastream<size_t>`. -/
def packSize (value : α) : Nat := (format.writes value).foldl (fun size data => size + data.length) 0

/-- `pack`: the result is resized to the packed size first. -/
def pack (value : α) : Except StreamError (List UInt8) := do
  let ds ← (format.writes value).foldlM Datastream.write ⟨[], packSize value⟩
  return ds.written ++ .replicate ds.room 0

def unpack (buffer : List UInt8) : Except StreamError α := Prod.fst <$> format.read.run buffer

/-! Measured, written and read. -/

theorem packSize_eq (value : α) : packSize value = (format.bytes value).length := by
  have grown : ∀ (pieces : List (List UInt8)) (start : Nat),
      pieces.foldl (fun size data => size + data.length) start = start + pieces.flatten.length := by
    intro pieces
    induction pieces with
    | nil => exact fun _ => rfl
    | cons piece pieces ih =>
      intro start
      rw [List.foldl_cons, ih, List.flatten_cons, List.length_append, Nat.add_assoc]
  rw [packSize, grown, Nat.zero_add, Format.bytes]

theorem toInt_ofNat_size {size : Nat} (few : size < 2 ^ 31) : (Int32.ofNat size).toInt = size := by
  rw [Int32.toInt_ofNat']
  exact Int.bmod_eq_of_le (by simp [Int32.size]) (by simp [Int32.size]; omega)

theorem Datastream.write_of_room {ds : Datastream} {data : List UInt8} (room : data.length ≤ ds.room)
    (short : ds.room < 2 ^ 31) : ds.write data = .ok ⟨ds.written ++ data, ds.room - data.length⟩ := by
  have fits : Int32.ofNat data.length ≤ Int32.ofNat ds.room := by
    rw [Int32.le_iff_toInt_le, toInt_ofNat_size (by omega), toInt_ofNat_size short]
    exact Int.ofNat_le.mpr room
  rw [Datastream.write, if_pos fits]
  rfl

/-- A stream of the measured size takes every piece. -/
theorem Datastream.write_all {pieces : List (List UInt8)} {ds : Datastream}
    (room : ds.room = pieces.flatten.length) (short : ds.room < 2 ^ 31) :
    pieces.foldlM Datastream.write ds = .ok ⟨ds.written ++ pieces.flatten, 0⟩ := by
  induction pieces generalizing ds with
  | nil =>
    rw [List.flatten_nil, List.append_nil]
    obtain ⟨written, _⟩ := ds
    obtain rfl : _ = 0 := room
    rfl
  | cons piece pieces ih =>
    rw [List.flatten_cons, List.length_append] at room
    have left : ds.room - piece.length = pieces.flatten.length := by omega
    have written : ds.write piece = .ok ⟨ds.written ++ piece, ds.room - piece.length⟩ :=
      write_of_room (by omega) short
    rw [List.foldlM_cons, written, List.flatten_cons, ← List.append_assoc]
    exact ih left (Nat.lt_of_le_of_lt (Nat.sub_le _ _) short)

theorem pack_eq {value : α} (short : packSize value < 2 ^ 31) : pack value = .ok (format.bytes value) := by
  have written : (format.writes value).foldlM Datastream.write ⟨[], packSize value⟩ =
      .ok ⟨[] ++ (format.writes value).flatten, 0⟩ := Datastream.write_all (packSize_eq value) short
  rw [pack, written]
  exact congrArg Except.ok (List.append_nil _)

theorem Datastream.length_of_writes {pieces : List (List UInt8)} {ds result : Datastream}
    (written : pieces.foldlM Datastream.write ds = .ok result) (room : pieces.flatten.length ≤ ds.room) :
    result.written.length + result.room = ds.written.length + ds.room := by
  induction pieces generalizing ds with
  | nil =>
    obtain rfl := Except.ok.inj written
    rfl
  | cons piece pieces ih =>
    rw [List.flatten_cons, List.length_append] at room
    obtain ⟨next, first, following⟩ := bind_eq_ok.mp written
    rw [Datastream.write] at first
    split at first
    · obtain rfl := Except.ok.inj first
      have rest := ih following (by simp only; omega)
      simp only [List.length_append] at rest
      omega
    · cases first

theorem length_of_pack {value : α} {data : List UInt8} (packed : pack value = .ok data) :
    data.length = packSize value := by
  obtain ⟨ds, written, same⟩ := bind_eq_ok.mp packed
  obtain rfl := Except.ok.inj same
  have total := Datastream.length_of_writes written (packSize_eq value).ge
  rw [List.length_append, List.length_replicate, total]
  exact Nat.zero_add _

theorem unpack_eq {value : α} (reads : format.Reads value) (rest : List UInt8) :
    unpack (format.bytes value ++ rest) = .ok value := by
  rw [unpack, reads rest]
  rfl

theorem Datastream.read_append {size : Nat} {data rest : List UInt8} (length : data.length = size) :
    (Datastream.read size).run (data ++ rest) = .ok (data, rest) := by
  subst length
  have enough : data.length ≤ (data ++ rest).length := by simp
  change Datastream.read data.length (data ++ rest) = _
  rw [Datastream.read, if_pos enough, List.take_left, List.drop_left]
  rfl

theorem Datastream.read_local (size : Nat) : Local (Datastream.read size) := by
  intro stream value rest taken
  change Datastream.read size stream = _ at taken
  rw [Datastream.read] at taken
  split at taken
  · rename_i enough
    obtain ⟨rfl, rfl⟩ := Prod.mk.inj (Except.ok.inj taken)
    exact ⟨_, (List.take_append_drop size stream).symm, fun other =>
      Datastream.read_append (List.length_take_of_le enough)⟩
  · cases taken

end LocalChain.Inery
