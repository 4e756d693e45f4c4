import StalkLedger.Arithmetic.Wide

/-!
# Valuations

The ledger does not price assets.  A valuation is chosen for each asset from outside; it says what a
quantity is worth, or why it cannot.
-/

namespace StalkLedger

/-- What a quantity of an asset is worth. -/
structure Valuation where
  valueOf : Amount → Except Fault Amount

namespace Valuation

/-- One unit is worth one unit of value. -/
def unit : Valuation := ⟨fun quantity => .ok quantity⟩

/-- A fixed rate of exchange, rounded down.  It needs a denominator. -/
def ratio (numerator denominator : Amount) : Except Fault Valuation :=
  if denominator = 0 then
    .error .divisionByZero
  else
    .ok ⟨fun quantity => mulDiv quantity numerator denominator⟩

/-- Any quantity is worth the same. -/
def fixed (value : Amount) : Valuation := ⟨fun _ => .ok value⟩

/-- No quantity can be valued. -/
def failing (fault : Fault) : Valuation := ⟨fun _ => .error fault⟩

end Valuation

end StalkLedger
