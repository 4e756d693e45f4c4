import Mathlib.Algebra.Order.Floor.Div
import StalkLedger.Proofs.Arithmetic

/-!
# Multiplying and dividing is exact

`mulDiv_eq_ok` and `mulDivCeil_eq_ok` tell which quotients are returned.  Here the account is made
complete: what is answered where none is, and why no sum on the way needs a check.

* **Every sum of limbs is a word** (`Wide.checkedProduct_eq`).  The product formed with a check at
  each sum and each product of limbs (`Wide.checkedProduct`) passes all its checks, and is the
  product.  The high word has no room to spare: its four terms may come to `2 ^ 128 - 1`.
* **There are two ways to fail** (`Wide.mulDivMod_eq_error`): the divisor is zero, or the quotient is
  too large for a word.
* **The quotient, rounded down or up, is returned if and only if it is an amount**
  (`mulDiv_exact`).
-/

namespace StalkLedger

namespace Wide

/-! ### The product with its checks -/

/-- The sum of two words, if it is a word. -/
def checkedAdd (u v : Word) : Option Word := if u.uaddOverflow v then none else some (u + v)

/-- The product of two words, if it is a word. -/
def checkedMul (u v : Word) : Option Word := if u.umulOverflow v then none else some (u * v)

/-- The sum that is carried from the middle of a product, formed as in `middle` with checked sums. -/
def checkedMiddle (lowLow lowHigh highLow : Word) : Option Word := do
  let sum ← checkedAdd (upperHalf lowLow) (lowerHalf lowHigh)
  checkedAdd sum (lowerHalf highLow)

/-- The sum that is the high word of a product, from left to right with checked sums. -/
def checkedHigh (highHigh fromLowHigh fromHighLow carried : Word) : Option Word := do
  let sum ← checkedAdd highHigh fromLowHigh
  let sum ← checkedAdd sum fromHighLow
  checkedAdd sum carried

/-- The product of two words, formed as in `product` with checked sums and products. -/
def checkedProduct (a b : Word) : Option (Word × Word) := do
  let lowLow ← checkedMul (lowerHalf a) (lowerHalf b)
  let lowHigh ← checkedMul (lowerHalf a) (upperHalf b)
  let highLow ← checkedMul (upperHalf a) (lowerHalf b)
  let highHigh ← checkedMul (upperHalf a) (upperHalf b)
  let mid ← checkedMiddle lowLow lowHigh highLow
  let high ← checkedHigh highHigh (upperHalf lowHigh) (upperHalf highLow) (upperHalf mid)
  return (high, lowerHalf lowLow ||| (mid <<< 64))

/-- A checked sum is answered where it is in range, -/
theorem checkedAdd_of_lt {u v : Word} (h : u.toNat + v.toNat < 2 ^ 128) :
    checkedAdd u v = some (u + v) := by
  simp [checkedAdd, BitVec.uaddOverflow, h]

/-- and so is a checked product. -/
theorem checkedMul_of_lt {u v : Word} (h : u.toNat * v.toNat < 2 ^ 128) :
    checkedMul u v = some (u * v) := by
  simp [checkedMul, BitVec.umulOverflow, h]

/-- A product of two halves leaves room above itself for two more halves. -/
theorem toNat_mul_le {u v : Word} (hu : u.toNat < 2 ^ 64) (hv : v.toNat < 2 ^ 64) :
    (u * v).toNat ≤ (2 ^ 64 - 1) * (2 ^ 64 - 1) := by
  rw [toNat_mul_of_lt hu hv]
  exact Nat.mul_le_mul (Nat.le_pred_of_lt hu) (Nat.le_pred_of_lt hv)

/-- The product of two limbs is always in range. -/
theorem checkedMul_of_halves {u v : Word} (hu : u.toNat < 2 ^ 64) (hv : v.toNat < 2 ^ 64) :
    checkedMul u v = some (u * v) := by
  refine checkedMul_of_lt ?_
  rw [← toNat_mul_of_lt hu hv]
  exact (u * v).isLt

/-! ### No check fails -/

/-- Three halves are a word together. -/
theorem checkedMiddle_eq (lowLow lowHigh highLow : Word) :
    checkedMiddle lowLow lowHigh highLow = some (middle lowLow lowHigh highLow) := by
  have h₀ := toNat_upperHalf_lt lowLow
  have h₁ := toNat_lowerHalf_lt lowHigh
  have h₂ := toNat_lowerHalf_lt highLow
  have hsum : (upperHalf lowLow).toNat + (lowerHalf lowHigh).toNat < 2 ^ 128 := by omega
  rw [checkedMiddle, checkedAdd_of_lt hsum, Option.bind_eq_bind, Option.bind_some,
    checkedAdd_of_lt, middle]
  rw [BitVec.toNat_add_of_lt hsum]
  omega

/-- So what they carry is at most two. -/
theorem toNat_upperHalf_middle_le (lowLow lowHigh highLow : Word) :
    (upperHalf (middle lowLow lowHigh highLow)).toNat ≤ 2 := by
  have h₀ := toNat_upperHalf_lt lowLow
  have h₁ := toNat_lowerHalf_lt lowHigh
  have h₂ := toNat_lowerHalf_lt highLow
  rw [toNat_upperHalf, middle, BitVec.toNat_add, BitVec.toNat_add]
  omega

/-- What a product of two halves carries is not the largest half. -/
theorem toNat_upperHalf_mul_le {u v : Word} (hu : u.toNat < 2 ^ 64) (hv : v.toNat < 2 ^ 64) :
    (upperHalf (u * v)).toNat ≤ 2 ^ 64 - 2 := by
  have := toNat_mul_le hu hv
  rw [toNat_upperHalf]
  omega

theorem checkedHigh_of_lt {w x y z : Word}
    (h : w.toNat + x.toNat + y.toNat + z.toNat < 2 ^ 128) :
    checkedHigh w x y z = some (w + x + y + z) := by
  have hx : w.toNat + x.toNat < 2 ^ 128 := by omega
  have hy : (w + x).toNat + y.toNat < 2 ^ 128 := by
    rw [BitVec.toNat_add_of_lt hx]
    omega
  have hz : (w + x + y).toNat + z.toNat < 2 ^ 128 := by
    rw [BitVec.toNat_add_of_lt hy, BitVec.toNat_add_of_lt hx]
    exact h
  simp only [checkedHigh, checkedAdd_of_lt hx, checkedAdd_of_lt hy, checkedAdd_of_lt hz,
    Option.bind_eq_bind, Option.bind_some]

/-- **Every sum of limbs is a word.**  The high word of a product is a product of two halves, what
the two mixed products carry, and what the middle carries. -/
theorem checkedProduct_eq (a b : Word) : checkedProduct a b = some (product a b) := by
  have hal := toNat_lowerHalf_lt a
  have hau := toNat_upperHalf_lt a
  have hbl := toNat_lowerHalf_lt b
  have hbu := toNat_upperHalf_lt b
  -- The largest that the four terms can be comes to `2 ^ 128 - 1`, all together.
  have hsum : (upperHalf a * upperHalf b).toNat +
      (upperHalf (lowerHalf a * upperHalf b)).toNat +
      (upperHalf (upperHalf a * lowerHalf b)).toNat +
      (upperHalf (middle (lowerHalf a * lowerHalf b) (lowerHalf a * upperHalf b)
        (upperHalf a * lowerHalf b))).toNat < 2 ^ 128 := by
    have hhigh := toNat_mul_le hau hbu
    have hlowHigh := toNat_upperHalf_mul_le hal hbu
    have hhighLow := toNat_upperHalf_mul_le hau hbl
    have hcarry := toNat_upperHalf_middle_le (lowerHalf a * lowerHalf b)
      (lowerHalf a * upperHalf b) (upperHalf a * lowerHalf b)
    omega
  simp only [checkedProduct, checkedMul_of_halves hal hbl, checkedMul_of_halves hal hbu,
    checkedMul_of_halves hau hbl, checkedMul_of_halves hau hbu, checkedMiddle_eq,
    checkedHigh_of_lt hsum, Option.bind_eq_bind, Option.bind_some]
  rfl

/-! ### The two ways to fail -/

/-- Where there is no quotient, the divisor is zero or the quotient is too large. -/
theorem mulDivMod_eq_error {a b d : Word} {fault : Fault} (h : mulDivMod a b d = .error fault) :
    fault = if d = 0 then .divisionByZero else .overflow := by
  unfold mulDivMod divide at h
  dsimp only at h
  split at h
  next hd =>
    cases h
    rw [if_pos hd]
  next hd =>
    rw [if_neg hd]
    split at h
    · cases h
    · split at h <;> cases h
      rfl

end Wide

/-! ### On amounts -/

theorem Unsigned.word_eq_zero_iff {a : Amount} : a.word = 0 ↔ a = 0 := by
  rw [← BitVec.toNat_inj, ← Unsigned.toNat_inj]
  exact Iff.rfl

section Amounts

variable {a b d : Amount} {fault : Fault}

/-- A quotient fails for one of two reasons only, whether it is rounded down -/
theorem mulDiv_eq_error (h : mulDiv a b d = .error fault) :
    fault = if d = 0 then .divisionByZero else .overflow := by
  simp only [← Unsigned.word_eq_zero_iff]
  rcases bind_eq_error.mp h with hm | ⟨division, -, hc⟩
  · exact Wide.mulDivMod_eq_error hm
  · cases hc

/-- or up. -/
theorem mulDivCeil_eq_error (h : mulDivCeil a b d = .error fault) :
    fault = if d = 0 then .divisionByZero else .overflow := by
  rcases bind_eq_error.mp h with hm | ⟨division, hm, hc⟩
  · simp only [← Unsigned.word_eq_zero_iff]
    exact Wide.mulDivMod_eq_error hm
  · have hd : d ≠ 0 := fun hzero => by
      obtain ⟨hne, -⟩ := Wide.mulDivMod_eq_ok.mp hm
      rw [hzero] at hne
      exact hne rfl
    rw [if_neg hd]
    split at hc
    · cases hc
    · exact (Unsigned.add_eq_error.mp hc).2

/-- A computation that divides, returns its quotient whenever it is an amount, and fails in the two
ways. -/
theorem eq_checked_of_divisor {x : Except Fault Amount} {n : ℕ}
    (hok : ∀ c : Amount, x = .ok c ↔ d.toNat ≠ 0 ∧ c.toNat = n)
    (herror : ∀ fault, x = .error fault → fault = if d = 0 then .divisionByZero else .overflow) :
    x = if d = 0 then .error .divisionByZero else Unsigned.checked n := by
  have hzero : d.toNat ≠ 0 ↔ d ≠ 0 := by rw [← Unsigned.toNat_zero, Ne, Unsigned.toNat_inj]
  cases x with
  | ok c =>
    obtain ⟨hd, hc⟩ := (hok c).mp rfl
    rw [if_neg (hzero.mp hd), eq_comm, Unsigned.checked_eq_ok]
    exact hc
  | error fault =>
    rw [herror fault rfl]
    by_cases hd : d = 0
    · rw [if_pos hd, if_pos hd]
    · rw [if_neg hd, if_neg hd, eq_comm, Unsigned.checked_eq_error]
      refine ⟨?_, rfl⟩
      by_contra hlt
      rw [not_le] at hlt
      exact absurd ((hok ⟨n, hlt⟩).mpr ⟨hzero.mpr hd, rfl⟩) (by simp)

/-- **Multiplying and dividing is exact**, rounded down or up: without a divisor there is no quotient,
and a quotient that is not an amount overflows.  No sum of limbs overflows on the way. -/
theorem mulDiv_exact (a b d : Amount) :
    (mulDiv a b d = if d = 0 then .error .divisionByZero
      else Unsigned.checked (a.toNat * b.toNat / d.toNat)) ∧
    (mulDivCeil a b d = if d = 0 then .error .divisionByZero
      else Unsigned.checked ((a.toNat * b.toNat) ⌈/⌉ d.toNat)) ∧
    Wide.checkedProduct a.word b.word = some (Wide.product a.word b.word) := by
  refine ⟨?_, ?_, Wide.checkedProduct_eq _ _⟩
  · exact eq_checked_of_divisor (fun _ => mulDiv_eq_ok) fun _ => mulDiv_eq_error
  · refine eq_checked_of_divisor (fun c => ?_) fun _ => mulDivCeil_eq_error
    rw [mulDivCeil_eq_ok, Nat.ceilDiv_eq_add_pred_div]
    refine and_congr_right fun hd => ?_
    rw [Nat.add_sub_assoc (Nat.pos_of_ne_zero hd)]

end Amounts

end StalkLedger
