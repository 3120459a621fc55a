import LocalChain.Inery.Varint

namespace LocalChain.Inery

open LocalChain.Wire
open LocalChain.Refine (run_bind_ok run_map_ok)

variable {α β : Type}

/-! The operators of the types that rows and arguments are made of. -/

/-- A number of fixed size, written as it lies in memory. -/
def primitive (size : Nat) (toNat : α → Nat) (ofNat : Nat → α) : Format StreamError α where
  writes v := [littleEndian size (toNat v)]
  read := (fun data => ofNat (ofLittleEndian data)) <$> Datastream.read size

theorem primitive_faithful {size : Nat} {toNat : α → Nat} {ofNat : Nat → α} (wide : 0 < size)
    (fits : ∀ v, toNat v < 256 ^ size) (back : ∀ v, ofNat (toNat v) = v) (bound : Nat) :
    (primitive size toNat ofNat).Faithful bound where
  reads v _ rest := by
    have bytes : (primitive size toNat ofNat).bytes v = littleEndian size (toNat v) := List.append_nil _
    have taken : (Datastream.read size).run (littleEndian size (toNat v) ++ rest) = _ :=
      Datastream.read_append (length_littleEndian size (toNat v))
    have mapped := run_map_ok (f := fun data => ofNat (ofLittleEndian data)) taken
    rw [bytes]
    rw [ofLittleEndian_littleEndian (fits v), back v] at mapped
    exact mapped
  takes := (Datastream.read_local size).map _
  bulky v := by
    have bytes : (primitive size toNat ofNat).bytes v = littleEndian size (toNat v) := List.append_nil _
    rw [bytes, length_littleEndian]
    exact wide

instance : Serialize UInt8 where
  format := primitive 1 UInt8.toNat UInt8.ofNat

instance : Serialize UInt64 where
  format := primitive 8 UInt64.toNat UInt64.ofNat

instance : Serialize Int64 where
  format := primitive 8 (fun v => v.toUInt64.toNat) (fun number => (UInt64.ofNat number).toInt64)

/-- Every byte but zero is read as `true`. -/
instance : Serialize Bool where
  format := format.via (fun d => if d then (1 : UInt8) else 0) (fun t => t ≠ 0)

instance : Serialize Name where
  format := format.via Name.value Name.mk

instance : Serialize TimePoint where
  format := format.via TimePoint.elapsed TimePoint.mk

/-- `fixed_bytes`, seen as its bytes. -/
instance (size : Nat) : Serialize (Vector UInt8 size) where
  format := {
    writes := fun d => [d.toList]
    read := (fun data => .ofFn fun i => data.getD i 0) <$> Datastream.read size
  }

instance : Serialize ByteString where
  format := {
    writes := fun v =>
      let size := format.writes (UnsignedInt.mk v.bytes.length.toUInt32)
      if v.bytes = [] then size else size ++ [v.bytes]
    read := do
      let s : UnsignedInt ← format.read
      let tmp ← Datastream.read s.value.toNat
      return ⟨tmp⟩
  }

variable [Serialize α] [Serialize β]

/-- `std::vector`. -/
instance : Serialize (List α) where
  format := format.counted (format.via (fun count => UnsignedInt.mk count.toUInt32) (fun s => s.value.toNat))

/-- `std::pair`, and the members of a tuple or of a class one after another. -/
instance : Serialize (α × β) where
  format := format.pair format

/-! What is written is read back, as long as it is shorter than a count can tell. -/

class LawfulSerialize (α : Type) [Serialize α] : Prop where
  faithful : (format : Format StreamError α).Faithful (2 ^ 32)

instance : LawfulSerialize UInt8 where
  faithful := primitive_faithful Nat.one_pos UInt8.toNat_lt (fun _ => UInt8.ofNat_toNat) _

instance : LawfulSerialize UInt64 where
  faithful := primitive_faithful (by omega) UInt64.toNat_lt (fun _ => UInt64.ofNat_toNat) _

instance : LawfulSerialize Int64 where
  faithful := primitive_faithful (by omega) (fun v => v.toUInt64.toNat_lt) (fun v => by simp) _

instance : LawfulSerialize Bool where
  faithful := LawfulSerialize.faithful.via fun d => by cases d <;> rfl

instance : LawfulSerialize Name where
  faithful := LawfulSerialize.faithful.via fun _ => rfl

instance : LawfulSerialize TimePoint where
  faithful := LawfulSerialize.faithful.via fun _ => rfl

instance : LawfulSerialize UnsignedInt where
  faithful := ⟨fun v _ => v.reads, UnsignedInt.reading_local, fun v => by
    rw [v.length_bytes]
    exact packSizeUnsignedInt_pos v.value⟩

instance : LawfulSerialize SignedInt where
  faithful := ⟨fun v _ => v.reads, by
    rw [SignedInt.read_eq]
    exact UnsignedInt.reading_local.map _, fun v => by
    rw [SignedInt.bytes_eq, UnsignedInt.length_bytes]
    exact packSizeUnsignedInt_pos _⟩

instance (size : Nat) [NeZero size] : LawfulSerialize (Vector UInt8 size) where
  faithful := {
    reads := fun d _ rest => by
      have bytes : format.bytes d = d.toList := List.append_nil _
      have taken : (Datastream.read size).run (d.toList ++ rest) = _ := Datastream.read_append d.length_toList
      have mapped := run_map_ok (f := fun data => Vector.ofFn fun i : Fin size => data.getD i 0) taken
      rw [bytes]
      refine mapped.trans (congrArg (fun d => Except.ok (d, rest)) ?_)
      ext i inside
      simp
    takes := (Datastream.read_local size).map _
    bulky := fun d => by
      have bytes : format.bytes d = d.toList := List.append_nil _
      rw [bytes, d.length_toList]
      exact Nat.pos_of_neZero size
  }

theorem UnsignedInt.toNat_count {size : Nat} (few : size < 2 ^ 32) :
    (UnsignedInt.mk size.toUInt32).value.toNat = size := by
  rw [Nat.toUInt32, UInt32.toNat_ofNat']
  exact Nat.mod_eq_of_lt few

theorem ByteString.bytes_eq (v : ByteString) :
    format.bytes v = format.bytes (UnsignedInt.mk v.bytes.length.toUInt32) ++ v.bytes := by
  rw [Format.bytes]
  change (if v.bytes = [] then _ else _ : List (List UInt8)).flatten = _
  split
  · rename_i empty
    rw [empty]
    exact (List.append_nil _).symm
  · rw [List.flatten_append, List.flatten_singleton]
    rfl

instance : LawfulSerialize ByteString where
  faithful := {
    reads := fun v short rest => by
      rw [ByteString.bytes_eq, List.length_append] at short
      have count : (UnsignedInt.mk v.bytes.length.toUInt32).value.toNat = v.bytes.length :=
        UnsignedInt.toNat_count (by omega)
      rw [ByteString.bytes_eq, List.append_assoc]
      refine (run_bind_ok (UnsignedInt.reads _ _)).trans ?_
      rw [count, run_bind_ok (Datastream.read_append rfl)]
      rfl
    takes := by
      apply LawfulSerialize.faithful.takes.bind
      intro s
      exact (Datastream.read_local s.value.toNat).bind fun _ => .pure _
    bulky := fun v => by
      rw [ByteString.bytes_eq, List.length_append, UnsignedInt.length_bytes]
      exact Nat.add_pos_left (packSizeUnsignedInt_pos _) _
  }

instance [LawfulSerialize α] : LawfulSerialize (List α) where
  faithful := by
    apply LawfulSerialize.faithful.counted
    · intro size few
      exact (UnsignedInt.reads _).via (UnsignedInt.toNat_count few)
    · exact UnsignedInt.reading_local.map _
    · intro size
      exact LawfulSerialize.faithful.bulky (UnsignedInt.mk size.toUInt32)

instance [LawfulSerialize α] [LawfulSerialize β] : LawfulSerialize (α × β) where
  faithful := LawfulSerialize.faithful.pair LawfulSerialize.faithful

/-! Packed sizes. -/

@[simp] theorem packSize_uint64 (v : UInt64) : packSize v = 8 := by
  rw [packSize_eq, ← length_littleEndian 8 v.toNat]
  exact congrArg List.length (List.append_nil _)

@[simp] theorem packSize_name (v : Name) : packSize v = 8 := packSize_uint64 v.value

@[simp] theorem packSize_timePoint (v : TimePoint) : packSize v = 8 := packSize_uint64 v.elapsed.toUInt64

@[simp] theorem packSize_pair (v : α × β) : packSize v = packSize v.1 + packSize v.2 := by
  rw [packSize_eq, packSize_eq v.1, packSize_eq v.2]
  exact Format.length_pair v

@[simp] theorem packSize_string (v : ByteString) : packSize v = packSizeString v := by
  rw [packSize_eq, ByteString.bytes_eq, List.length_append, UnsignedInt.length_bytes, packSizeString]

@[simp] theorem packSize_list (v : List α) : packSize v = packSizeVector packSize v := by
  have grown : ∀ (v : List α) (start : Nat),
      v.foldl (fun size x => size + packSize x) start = start + (v.flatMap (format.bytes)).length := by
    intro v
    induction v with
    | nil => exact fun _ => rfl
    | cons x v ih =>
      intro start
      rw [List.foldl_cons, ih, packSize_eq, List.flatMap_cons, List.length_append, Nat.add_assoc]
  rw [packSize_eq, packSizeVector, grown, Nat.zero_add, ← UnsignedInt.length_bytes ⟨v.length.toUInt32⟩]
  exact Format.length_counted _ v

/-- The value fits into a buffer, and is read back from it. -/
def Reloads (value : α) : Prop :=
  packSize value < 2 ^ 31 →
    ∃ data, pack value = .ok data ∧ data.length = packSize value ∧ unpack data = .ok value

theorem reloads [LawfulSerialize α] (value : α) : Reloads value := by
  intro short
  have size := packSize_eq value
  have reads := LawfulSerialize.faithful.reads value (by omega)
  have unpacked := unpack_eq reads []
  rw [List.append_nil] at unpacked
  exact ⟨_, pack_eq short, size.symm, unpacked⟩

theorem read_packed [LawfulSerialize α] {value : α} {data : List UInt8} (packed : pack value = .ok data)
    (short : data.length < 2 ^ 31) (rest : List UInt8) :
    (format : Format StreamError α).read.run (data ++ rest) = .ok (value, rest) := by
  have size := length_of_pack packed
  obtain rfl := Except.ok.inj ((pack_eq (by omega)).symm.trans packed)
  exact LawfulSerialize.faithful.reads value (by omega) rest

end LocalChain.Inery
