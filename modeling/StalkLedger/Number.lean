/-!
# Numbers of bounded size

Every quantity of the ledger is a whole number of a fixed size.  `Unsigned bits` holds the naturals
below `2 ^ bits`, `Signed bits` the integers from `-2 ^ (bits - 1)` up to, and without,
`2 ^ (bits - 1)`.  The bound travels with the number, so a ledger never holds one that is too large,
and arithmetic that would leave the range has to say so (`Arithmetic.Checked`).

The order on both is the order of the numbers they stand for.
-/

-- Powers are those of the core library, also where naturals are known to be a monoid.
attribute [instance (high), default_instance high] instPowNat

namespace StalkLedger

/-! ### Naturals below a power of two -/

/-- A natural number of at most `bits` binary digits. -/
structure Unsigned (bits : Nat) where
  toNat : Nat
  toNat_lt : toNat < 2 ^ bits
deriving DecidableEq

namespace Unsigned

variable {bits : Nat}

@[ext] theorem ext {a b : Unsigned bits} (h : a.toNat = b.toNat) : a = b := by
  cases a; cases b; cases h; rfl

/-- A number is known by its value. -/
theorem toNat_inj {a b : Unsigned bits} : a.toNat = b.toNat ↔ a = b :=
  ⟨ext, fun h => h ▸ rfl⟩

/-- The number `n`, if it is small enough. -/
def ofNat? (bits n : Nat) : Option (Unsigned bits) :=
  if h : n < 2 ^ bits then some ⟨n, h⟩ else none

/-- The number given by the lowest `bits` binary digits of `n`. -/
def ofNat (n : Nat) : Unsigned bits :=
  ⟨n % 2 ^ bits, Nat.mod_lt _ (Nat.two_pow_pos bits)⟩

instance (n : Nat) : OfNat (Unsigned bits) n := ⟨ofNat n⟩

instance : Inhabited (Unsigned bits) := ⟨0⟩

instance : LE (Unsigned bits) := ⟨fun a b => a.toNat ≤ b.toNat⟩

instance : LT (Unsigned bits) := ⟨fun a b => a.toNat < b.toNat⟩

instance (a b : Unsigned bits) : Decidable (a ≤ b) := inferInstanceAs (Decidable (a.toNat ≤ b.toNat))

instance (a b : Unsigned bits) : Decidable (a < b) := inferInstanceAs (Decidable (a.toNat < b.toNat))

instance : Min (Unsigned bits) := minOfLe

instance : Max (Unsigned bits) := maxOfLe

/-- What is left of `a` after taking away as much of `b` as there is. -/
def monus (a b : Unsigned bits) : Unsigned bits :=
  ⟨a.toNat - b.toNat, Nat.lt_of_le_of_lt (Nat.sub_le _ _) a.toNat_lt⟩

/-- The whole quotient; a zero divisor gives zero. -/
def quotient (a b : Unsigned bits) : Unsigned bits :=
  ⟨a.toNat / b.toNat, Nat.lt_of_le_of_lt (Nat.div_le_self _ _) a.toNat_lt⟩

theorem le_iff {a b : Unsigned bits} : a ≤ b ↔ a.toNat ≤ b.toNat := Iff.rfl

theorem lt_iff {a b : Unsigned bits} : a < b ↔ a.toNat < b.toNat := Iff.rfl

theorem min_le_right (a b : Unsigned bits) : min a b ≤ b := by
  show (if a ≤ b then a else b) ≤ b
  split
  next h => exact h
  next => exact Nat.le_refl _

/-- The smaller of two numbers has the smaller value. -/
theorem toNat_min (a b : Unsigned bits) : (min a b).toNat = min a.toNat b.toNat := by
  show (if a ≤ b then a else b).toNat = _
  rw [Nat.min_def]
  simp only [le_iff]
  split <;> rfl

@[simp] theorem toNat_ofNat (n : Nat) : (ofNat n : Unsigned bits).toNat = n % 2 ^ bits := rfl

@[simp] theorem toNat_zero : (0 : Unsigned bits).toNat = 0 := Nat.zero_mod _

@[simp] theorem toNat_monus (a b : Unsigned bits) : (a.monus b).toNat = a.toNat - b.toNat := rfl

@[simp] theorem toNat_quotient (a b : Unsigned bits) :
    (a.quotient b).toNat = a.toNat / b.toNat := rfl

/-- The value of a number is in range already. -/
theorem ofNat_toNat (a : Unsigned bits) : ofNat a.toNat = a :=
  ext (Nat.mod_eq_of_lt a.toNat_lt)

/-- A natural number that is in range is the value of what comes of it. -/
theorem ofNat?_eq_some_iff {n : Nat} {a : Unsigned bits} :
    ofNat? bits n = some a ↔ n = a.toNat := by
  unfold ofNat?
  split
  · exact ⟨fun h => by cases h; rfl, fun h => by subst h; rfl⟩
  · exact ⟨nofun, fun h => absurd (h ▸ a.toNat_lt) ‹_›⟩

/-- The decimal digits. -/
instance : ToString (Unsigned bits) := ⟨fun a => a.toNat.repr⟩

end Unsigned

/-! ### Integers between two powers of two -/

/-- An integer that fits in `bits` binary digits, one of which tells its sign. -/
structure Signed (bits : Nat) where
  toInt : Int
  le_toInt : -2 ^ (bits - 1) ≤ toInt
  toInt_lt : toInt < 2 ^ (bits - 1)
deriving DecidableEq

namespace Signed

variable {bits : Nat}

@[ext] theorem ext {a b : Signed bits} (h : a.toInt = b.toInt) : a = b := by
  cases a; cases b; cases h; rfl

/-- The integer `i`, if it is in range. -/
def ofInt? (bits : Nat) (i : Int) : Option (Signed bits) :=
  if h : -2 ^ (bits - 1) ≤ i ∧ i < 2 ^ (bits - 1) then some ⟨i, h.1, h.2⟩ else none

/-- The smallest number in range. -/
def minimum : Signed bits :=
  ⟨-2 ^ (bits - 1), Int.le_refl _, by
    have h : (0 : Int) < 2 ^ (bits - 1) := Int.pow_pos (by decide)
    omega⟩

/-- The integer of the range that differs from `i` by a multiple of `2 ^ bits`; for no digits at
all, zero. -/
def ofInt (i : Int) : Signed bits :=
  ⟨Int.bmod i (2 ^ bits), by
    cases bits with
    | zero => simp [Int.bmod_one]
    | succ b =>
      have h := @Int.le_bmod i (2 ^ (b + 1)) (Nat.two_pow_pos _)
      have e : ((2 ^ (b + 1) : Nat) : Int) = 2 * 2 ^ b := by push_cast; rw [Int.pow_succ]; omega
      rw [e] at h
      simp only [Nat.add_sub_cancel]
      omega, by
    cases bits with
    | zero => simp [Int.bmod_one]
    | succ b =>
      have h := @Int.bmod_lt i (2 ^ (b + 1)) (Nat.two_pow_pos _)
      have e : ((2 ^ (b + 1) : Nat) : Int) = 2 * 2 ^ b := by push_cast; rw [Int.pow_succ]; omega
      rw [e] at h
      simp only [Nat.add_sub_cancel]
      omega⟩

instance (n : Nat) : OfNat (Signed bits) n := ⟨ofInt n⟩

instance : Inhabited (Signed bits) := ⟨0⟩

instance : LE (Signed bits) := ⟨fun a b => a.toInt ≤ b.toInt⟩

instance : LT (Signed bits) := ⟨fun a b => a.toInt < b.toInt⟩

instance (a b : Signed bits) : Decidable (a ≤ b) := inferInstanceAs (Decidable (a.toInt ≤ b.toInt))

instance (a b : Signed bits) : Decidable (a < b) := inferInstanceAs (Decidable (a.toInt < b.toInt))

theorem le_iff {a b : Signed bits} : a ≤ b ↔ a.toInt ≤ b.toInt := Iff.rfl

theorem lt_iff {a b : Signed bits} : a < b ↔ a.toInt < b.toInt := Iff.rfl

@[simp] theorem toInt_ofInt (i : Int) : (ofInt i : Signed bits).toInt = Int.bmod i (2 ^ bits) := rfl

@[simp] theorem toInt_zero : (0 : Signed bits).toInt = 0 := by
  show Int.bmod 0 _ = 0
  simp

/-- An integer that is in range is the value of what comes of it. -/
theorem ofInt?_eq_some_iff {i : Int} {a : Signed bits} : ofInt? bits i = some a ↔ i = a.toInt := by
  unfold ofInt?
  split
  · exact ⟨fun h => by cases h; rfl, fun h => by subst h; rfl⟩
  next h => exact ⟨nofun, fun e => absurd (e ▸ And.intro a.le_toInt a.toInt_lt) h⟩

/-- The decimal digits, after a minus sign for a negative number. -/
instance : ToString (Signed bits) := ⟨fun a =>
  match a.toInt with
  | .ofNat n => n.repr
  | .negSucc n => "-" ++ (n + 1).repr⟩

end Signed

/-! ### The ledger's numbers -/

/-- Quantities, values, stalk, roots and payouts. -/
abbrev Amount := Unsigned 128

/-- Epoch numbers. -/
abbrev Epoch := Unsigned 64

/-- Accrual indices, their growth per epoch, and differences of balances. -/
abbrev Index := Signed 128

end StalkLedger
