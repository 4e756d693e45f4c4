import StalkLedger.Arithmetic.Checked

/-!
# Multiplying and dividing through a double word

`a * b / d` is wanted for 128-bit amounts even where `a * b` needs 256 bits.  The product is formed
from 64-bit limbs as a high and a low word, and divided bit by bit: shift the next bit of the low
word into the remainder, and take the divisor away where it fits.  Everything happens on 128-bit
words; the bit that a shift pushes out of the remainder is looked at before the shift.

`mulDiv` rounds the quotient down, `mulDivCeil` up.
-/

namespace StalkLedger

/-- A machine word of the size of an amount. -/
abbrev Word := BitVec 128

namespace Unsigned

/-- The amount as a word. -/
def word (a : Amount) : Word := BitVec.ofNatLT a.toNat a.toNat_lt

/-- The amount that a word stands for. -/
def ofWord (w : Word) : Amount := ⟨w.toNat, w.isLt⟩

@[simp] theorem toNat_word (a : Amount) : a.word.toNat = a.toNat := rfl

@[simp] theorem toNat_ofWord (w : Word) : (ofWord w).toNat = w.toNat := rfl

end Unsigned

namespace Wide

/-! ### The product -/

/-- The lower half of a word. -/
def lowerHalf (w : Word) : Word := w &&& 0xFFFFFFFFFFFFFFFF#128

/-- The upper half of a word. -/
def upperHalf (w : Word) : Word := w >>> 64

/-- The sum that is carried from the middle of a product into its high word: the upper half of the
lowest partial product and the lower halves of the two mixed ones. -/
def middle (lowLow lowHigh highLow : Word) : Word :=
  upperHalf lowLow + lowerHalf lowHigh + lowerHalf highLow

/-- The product of two words as a high and a low word. -/
def product (a b : Word) : Word × Word :=
  let lowLow := lowerHalf a * lowerHalf b
  let lowHigh := lowerHalf a * upperHalf b
  let highLow := upperHalf a * lowerHalf b
  let highHigh := upperHalf a * upperHalf b
  let mid := middle lowLow lowHigh highLow
  (highHigh + upperHalf lowHigh + upperHalf highLow + upperHalf mid,
    lowerHalf lowLow ||| (mid <<< 64))

/-! ### The quotient -/

/-- What a division has found so far. -/
structure Division where
  quotient : Word
  remainder : Word

/-- One step of a division by `d`: bring down one binary digit, and take `d` away if it fits.  It
fits also where the shift pushes a bit out of the remainder. -/
def Division.step (d digit : Word) (s : Division) : Division :=
  let carry := s.remainder >>> 127
  let remainder := (s.remainder <<< 1) ||| digit
  let quotient := s.quotient <<< 1
  if carry = 1 ∨ d ≤ remainder then
    ⟨quotient ||| 1, remainder - d⟩
  else
    ⟨quotient, remainder⟩

/-- Divide on by `d` through the lowest `n` binary digits of `low`. -/
def Division.run (d low : Word) : Nat → Division → Division
  | 0, s => s
  | n + 1, s => Division.run d low n (s.step d ((low >>> n) &&& 1))

/-- Quotient and remainder of a double word; the quotient has to fit in a word. -/
def divide (high low d : Word) : Except Fault Division :=
  if d = 0 then .error .divisionByZero
  else if high = 0 then .ok ⟨low / d, low % d⟩
  else if d ≤ high then .error .overflow
  else .ok (Division.run d low 128 ⟨0, high⟩)

/-- Quotient and remainder of `a * b` by `d`. -/
def mulDivMod (a b d : Word) : Except Fault Division :=
  let (high, low) := product a b
  divide high low d

end Wide

/-! ### On amounts -/

/-- `a * b / d`, rounded down. -/
def mulDiv (a b d : Amount) : Except Fault Amount := do
  let division ← Wide.mulDivMod a.word b.word d.word
  return .ofWord division.quotient

/-- `a * b / d`, rounded up. -/
def mulDivCeil (a b d : Amount) : Except Fault Amount := do
  let division ← Wide.mulDivMod a.word b.word d.word
  if division.remainder = 0 then
    return .ofWord division.quotient
  else
    (Unsigned.ofWord division.quotient).add 1

end StalkLedger
