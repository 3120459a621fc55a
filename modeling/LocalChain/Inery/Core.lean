import Mathlib.Order.Lattice

namespace LocalChain.Inery

/-- An account or table name: a wrapped 64-bit value. -/
structure Name where
  value : UInt64
deriving DecidableEq, Repr, Inhabited

theorem Name.value_inj {first second : Name} : first.value = second.value ↔ first = second := by
  cases first
  cases second
  simp

/-- An `std::string`: any bytes, whether they are those of a text or not. -/
structure ByteString where
  bytes : List UInt8
deriving DecidableEq, Repr, Inhabited

def ByteString.ofText (text : String) : ByteString := ⟨text.toUTF8.data.toList⟩

/-- A literal. -/
instance : Coe String ByteString := ⟨ByteString.ofText⟩

@[simp] theorem ByteString.ofText_inj {first second : String} : ofText first = ofText second ↔ first = second := by
  rw [ofText, ofText, mk.injEq, Array.toList_inj, ← ByteArray.ext_iff]
  exact String.toByteArray_inj

/-- A point in time, in microseconds since the epoch. -/
structure TimePoint where
  elapsed : Int64
deriving DecidableEq, Repr, Inhabited

def TimePoint.secSinceEpoch (time : TimePoint) : UInt32 :=
  (time.elapsed / 1000000).toUInt64.toUInt32

/-- Why a transaction stopped. All but `check` are raised by the host, not by the contract. -/
inductive Abort where
  | check (message : String)
  | missingAuthority (account : Name)
  | duplicateKey
  | deletedObject
  | deadline
deriving DecidableEq, Repr

def check (condition : Bool) (message : String) : Except Abort Unit :=
  if condition then .ok () else .error (.check message)

/-- What an action writes to the console. -/
inductive Printed where
  | name (account : Name)
  | int (number : Int)
  | string (text : String)
deriving DecidableEq, Repr

@[simp] theorem check_eq_ok {condition : Bool} {message : String} {done : Unit} :
    check condition message = .ok done ↔ condition = true := by
  cases condition <;> simp [check]

@[simp] theorem bind_eq_ok {α β ε : Type} {first : Except ε α} {second : α → Except ε β} {result : β} :
    (first >>= second) = .ok result ↔ ∃ middle, first = .ok middle ∧ second middle = .ok result := by
  cases first <;> simp [bind, Except.bind]

@[simp] theorem map_eq_ok {α β ε : Type} {first : Except ε α} {f : α → β} {result : β} :
    f <$> first = .ok result ↔ ∃ value, first = .ok value ∧ f value = result := by
  cases first <;> simp [Functor.map, Except.map]

@[simp] theorem pure_eq_ok {α ε : Type} {value result : α} :
    (pure value : Except ε α) = .ok result ↔ value = result := by
  simp [pure, Except.pure]

@[simp] theorem throw_ne_ok {α ε : Type} {reason : ε} {result : α} :
    (throw reason : Except ε α) ≠ .ok result := by
  simp [throw, throwThe, MonadExceptOf.throw]

/-- `uint64_t` under the order the machine compares it in. -/
instance uint64LinearOrder : LinearOrder UInt64 where
  le_refl := UInt64.le_refl
  le_trans _ _ _ := UInt64.le_trans
  le_antisymm _ _ := UInt64.le_antisymm
  le_total := UInt64.le_total
  lt_iff_le_not_ge first second := by
    rw [UInt64.lt_iff_toNat_lt, UInt64.le_iff_toNat_le, UInt64.le_iff_toNat_le]
    omega
  toDecidableLE := inferInstance

end LocalChain.Inery
