import LocalChain.Refine.Run
import Mathlib.Algebra.Ring.Nat

/-! Values that are written piece by piece and read back from the front of a stream of bytes. -/
namespace LocalChain.Wire

open LocalChain.Refine (run_bind_ok run_bind_eq_ok run_map_ok)

/-- Reads a value off the front of a stream, or fails. -/
abbrev Reading (ε α : Type) := StateT (List UInt8) (Except ε) α

structure Format (ε α : Type) where
  /-- The pieces in the order in which they are written. -/
  writes : α → List (List UInt8)
  read : Reading ε α

variable {ε α β γ : Type} {format : Format ε α} {second : Format ε β} {read : Reading ε α}
  {next : α → Reading ε β} {value : α}

def Format.bytes (format : Format ε α) (value : α) : List UInt8 := (format.writes value).flatten

/-- What is written for the value is read back, whatever follows it. -/
def Format.Reads (format : Format ε α) (value : α) : Prop :=
  ∀ rest, format.read.run (format.bytes value ++ rest) = .ok (value, rest)

/-- Reading takes some bytes off the front of the stream, and what follows them does not matter. -/
def Local (read : Reading ε α) : Prop :=
  ∀ stream value rest, read.run stream = .ok (value, rest) →
    ∃ used, stream = used ++ rest ∧ ∀ other, read.run (used ++ other) = .ok (value, other)

theorem Local.pure (value : α) : Local (pure value : Reading ε α) := by
  intro stream value rest taken
  obtain ⟨rfl, rfl⟩ := Prod.mk.inj (Except.ok.inj taken)
  exact ⟨[], rfl, fun _ => rfl⟩

theorem Local.bind (first : Local read) (following : ∀ value, Local (next value)) :
    Local (read >>= next) := by
  intro stream result tail taken
  obtain ⟨value, rest, taken, continued⟩ := run_bind_eq_ok.mp taken
  obtain ⟨used, rfl, free⟩ := first stream value rest taken
  obtain ⟨more, rfl, freely⟩ := following value rest result tail continued
  refine ⟨used ++ more, by rw [List.append_assoc], fun other => ?_⟩
  rw [List.append_assoc, run_bind_ok (free _)]
  exact freely other

theorem Local.map (f : α → β) (first : Local read) : Local (f <$> read) := by
  rw [map_eq_pure_bind]
  exact .bind first fun value => .pure (f value)

theorem Local.throw (reason : ε) : Local (throw reason : Reading ε α) := by
  intro stream value rest taken
  cases taken

/-! Formats made of formats. -/

/-- A value that is written as another one. -/
def Format.via (format : Format ε α) (encode : β → α) (decode : α → β) : Format ε β where
  writes value := format.writes (encode value)
  read := decode <$> format.read

theorem Format.Reads.via {encode : β → α} {decode : α → β} {value : β} (reads : format.Reads (encode value))
    (back : decode (encode value) = value) : (format.via encode decode).Reads value := by
  intro rest
  have mapped := run_map_ok (f := decode) (reads rest)
  rw [back] at mapped
  exact mapped

/-- One value after another. -/
def Format.pair (format : Format ε α) (second : Format ε β) : Format ε (α × β) where
  writes value := format.writes value.1 ++ second.writes value.2
  read := do
    let first ← format.read
    let rest ← second.read
    return (first, rest)

theorem Format.Reads.pair {value : α × β} (first : format.Reads value.1) (last : second.Reads value.2) :
    (format.pair second).Reads value := by
  intro rest
  have split : (format.pair second).bytes value ++ rest =
      format.bytes value.1 ++ (second.bytes value.2 ++ rest) := by
    simp [Format.bytes, Format.pair]
  rw [split, Format.pair, run_bind_ok (first _), run_bind_ok (last _)]
  rfl

theorem Local.pair (first : Local format.read) (last : Local second.read) :
    Local (format.pair second).read :=
  .bind first fun _ => .bind last fun _ => .pure _

/-- As many values as are asked for. -/
def times (read : Reading ε α) : Nat → Reading ε (List α)
  | 0 => return []
  | count + 1 => do
    let value ← read
    let values ← times read count
    return value :: values

theorem times_run {values : List α} (reads : ∀ value ∈ values, format.Reads value) (rest : List UInt8) :
    (times format.read values.length).run (values.flatMap format.bytes ++ rest) = .ok (values, rest) := by
  induction values with
  | nil => rfl
  | cons value values ih =>
    have following := ih fun other member => reads other (List.mem_cons_of_mem _ member)
    rw [List.flatMap_cons, List.append_assoc, List.length_cons, times,
      run_bind_ok (reads value List.mem_cons_self _), run_bind_ok following]
    rfl

theorem Local.times (each : Local read) (count : Nat) : Local (times read count) := by
  induction count with
  | zero => exact .pure []
  | succ count ih => exact .bind each fun value => .bind ih fun values => .pure (value :: values)

/-- A count, and then as many values. -/
def Format.counted (format : Format ε α) (count : Format ε Nat) : Format ε (List α) where
  writes values := count.writes values.length ++ values.flatMap format.writes
  read := do
    let size ← count.read
    Wire.times format.read size

theorem Format.flatten_flatMap_writes (format : Format ε α) (values : List α) :
    (values.flatMap format.writes).flatten = values.flatMap format.bytes := by
  induction values with
  | nil => rfl
  | cons value values ih => simp [Format.bytes, ih]

theorem Format.Reads.counted {count : Format ε Nat} {values : List α} (short : count.Reads values.length)
    (reads : ∀ value ∈ values, format.Reads value) : (format.counted count).Reads values := by
  intro rest
  have split : (format.counted count).bytes values ++ rest =
      count.bytes values.length ++ (values.flatMap format.bytes ++ rest) := by
    simp [Format.bytes, Format.counted, ← format.flatten_flatMap_writes]
  rw [split, Format.counted, run_bind_ok (short _), times_run reads]

theorem Local.counted {count : Format ε Nat} (counts : Local count.read) (each : Local format.read) :
    Local (format.counted count).read :=
  .bind counts fun size => .times each size

/-! A bound on the length rules out that a count among the bytes overflows. -/

structure Format.Faithful (format : Format ε α) (bound : Nat) : Prop where
  reads : ∀ value, (format.bytes value).length < bound → format.Reads value
  takes : Local format.read
  bulky : ∀ value, 0 < (format.bytes value).length

theorem Format.Faithful.via {bound : Nat} {encode : β → α} {decode : α → β} (faithful : format.Faithful bound)
    (back : ∀ value, decode (encode value) = value) : (format.via encode decode).Faithful bound where
  reads value short := (faithful.reads (encode value) short).via (back value)
  takes := faithful.takes.map decode
  bulky value := faithful.bulky (encode value)

theorem Format.length_pair (value : α × β) :
    ((format.pair second).bytes value).length =
      (format.bytes value.1).length + (second.bytes value.2).length := by
  simp [Format.bytes, Format.pair]

theorem Format.Faithful.pair {bound : Nat} (faithful : format.Faithful bound) (following : second.Faithful bound) :
    (format.pair second).Faithful bound where
  reads value short := by
    rw [Format.length_pair] at short
    exact (faithful.reads value.1 (by omega)).pair (following.reads value.2 (by omega))
  takes := faithful.takes.pair following.takes
  bulky value := by
    have first := faithful.bulky value.1
    rw [Format.length_pair]
    omega

theorem Format.length_counted (count : Format ε Nat) (values : List α) :
    ((format.counted count).bytes values).length =
      (count.bytes values.length).length + (values.flatMap format.bytes).length := by
  rw [Format.bytes, Format.counted, List.flatten_append, List.length_append, format.flatten_flatMap_writes]
  rfl

theorem length_le_flatMap {values : List α} {bytes : α → List UInt8} (bulky : ∀ value, 0 < (bytes value).length) :
    values.length ≤ (values.flatMap bytes).length := by
  induction values with
  | nil => exact Nat.zero_le _
  | cons value values ih =>
    have first := bulky value
    rw [List.flatMap_cons, List.length_append, List.length_cons]
    omega

theorem length_le_of_mem {value : α} {values : List α} {bytes : α → List UInt8} (member : value ∈ values) :
    (bytes value).length ≤ (values.flatMap bytes).length := by
  obtain ⟨before, after, rfl⟩ := List.append_of_mem member
  simp
  omega

theorem Format.Faithful.counted {bound : Nat} {count : Format ε Nat} (faithful : format.Faithful bound)
    (counts : ∀ size < bound, count.Reads size) (counted : Local count.read)
    (bulky : ∀ size, 0 < (count.bytes size).length) : (format.counted count).Faithful bound where
  reads values short := by
    rw [Format.length_counted] at short
    have size : values.length ≤ (values.flatMap format.bytes).length := length_le_flatMap faithful.bulky
    apply (counts values.length (by omega)).counted
    intro value member
    have part : (format.bytes value).length ≤ (values.flatMap format.bytes).length := length_le_of_mem member
    exact faithful.reads value (by omega)
  takes := counted.counted faithful.takes
  bulky values := by
    have size := bulky values.length
    rw [Format.length_counted]
    omega

/-! Numbers, least significant byte first. -/

def littleEndian : Nat → Nat → List UInt8
  | 0, _ => []
  | count + 1, number => UInt8.ofNat (number % 256) :: littleEndian count (number / 256)

def ofLittleEndian (data : List UInt8) : Nat := data.foldr (fun byte number => byte.toNat + 256 * number) 0

@[simp] theorem length_littleEndian (count number : Nat) : (littleEndian count number).length = count := by
  induction count generalizing number with
  | zero => rfl
  | succ count ih => rw [littleEndian, List.length_cons, ih]

theorem ofLittleEndian_littleEndian {count number : Nat} (fits : number < 256 ^ count) :
    ofLittleEndian (littleEndian count number) = number := by
  induction count generalizing number with
  | zero =>
    obtain rfl : number = 0 := by simpa using fits
    rfl
  | succ count ih =>
    rw [pow_succ] at fits
    have upper : ofLittleEndian (littleEndian count (number / 256)) = number / 256 := ih (by omega)
    have lower : (UInt8.ofNat (number % 256)).toNat = number % 256 := by
      rw [UInt8.toNat_ofNat']
      omega
    rw [littleEndian, ofLittleEndian, List.foldr_cons, ← ofLittleEndian, upper, lower]
    omega

end LocalChain.Wire
