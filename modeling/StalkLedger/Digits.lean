/-!
# Numbers as bytes

A number written in base 256, one byte per digit, least significant digit first.  `digits k n` has
exactly `k` digits, `ofDigits` reads them back; `ofDigits_digits` and `digits_ofDigits` say that the
two undo each other for numbers below `256 ^ k`.
-/

-- Powers are those of the core library, also where naturals are known to be a monoid.
attribute [instance (high), default_instance high] instPowNat

namespace StalkLedger

/-- The lowest `k` base-256 digits of a number, least significant first. -/
def digits : Nat → Nat → List UInt8
  | 0, _ => []
  | k + 1, n => UInt8.ofNat n :: digits k (n / 256)

/-- The number that base-256 digits stand for, least significant first. -/
def ofDigits : List UInt8 → Nat
  | [] => 0
  | b :: bs => b.toNat + 256 * ofDigits bs

/-- There are as many digits as were asked for. -/
@[simp] theorem length_digits (k n : Nat) : (digits k n).length = k := by
  induction k generalizing n with
  | zero => rfl
  | succ k ih => simp [digits, ih]

/-- Digits in base 256 count up to a power of it. -/
theorem ofDigits_lt (bs : List UInt8) : ofDigits bs < 256 ^ bs.length := by
  induction bs with
  | nil => simp [ofDigits]
  | cons b bs ih =>
    have := b.toNat_lt
    simp only [ofDigits, List.length_cons, Nat.pow_succ]
    omega

/-- Digits give back their number, up to what did not fit into them, -/
theorem ofDigits_digits (k n : Nat) : ofDigits (digits k n) = n % 256 ^ k := by
  induction k generalizing n with
  | zero => simp [digits, ofDigits, Nat.mod_one]
  | succ k ih =>
    have h : n % 256 ^ (k + 1) = n % 256 + 256 * (n / 256 % 256 ^ k) := by
      rw [Nat.pow_succ, Nat.mul_comm, Nat.mod_mul]
    simp only [digits, ofDigits, ih, h, UInt8.toNat_ofNat']

/-- and a number that was read from digits gives these back. -/
theorem digits_ofDigits (bs : List UInt8) : digits bs.length (ofDigits bs) = bs := by
  induction bs with
  | nil => rfl
  | cons b bs ih =>
    have hb := b.toNat_lt
    have h₁ : UInt8.ofNat (b.toNat + 256 * ofDigits bs) = b := by
      apply UInt8.toNat_inj.mp
      simp only [UInt8.toNat_ofNat']
      omega
    have h₂ : (b.toNat + 256 * ofDigits bs) / 256 = ofDigits bs := by omega
    simp only [List.length_cons, digits, ofDigits, h₁, h₂, ih]

/-- The two lower-case hexadecimal digits of a byte. -/
def hexByte (b : UInt8) : String :=
  String.ofList [(b.toNat / 16).digitChar, (b.toNat % 16).digitChar]

/-- Bytes in lower-case hexadecimal, two digits each. -/
def hex (bs : List UInt8) : String :=
  String.join (bs.map hexByte)

end StalkLedger
