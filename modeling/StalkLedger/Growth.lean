import StalkLedger.Arithmetic.Wide

/-!
# Growth and shares

The formulas that the ledger lives by.  All rounding is toward the ledger: a value that leaves it is
rounded down, roots that are burned are rounded up.

* A part of a position carries a part of its value (`proportionalValue`).
* A value grows by itself with every step of its asset's index (`grownReward`); `indexForGrown`
  turns growth back into an index, as far as whole steps go.
* Stalk is minted with roots in the ratio of the totals, and burned with them
  (`rootsForMint`, `rootsForBurn`).
-/

namespace StalkLedger

/-! ### Value -/

/-- The value that `amount` carries out of a position of `quantity` worth `value`: all of it with
the whole quantity, and the rounded-down share with a part. -/
def proportionalValue (value amount quantity : Amount) : Except Fault Amount :=
  if amount = quantity then .ok value else mulDiv value amount quantity

/-! ### Growth -/

/-- What `value` grows between `index` and `tip`: itself, once per step. -/
def grownReward (tip index : Index) (value : Amount) : Except Fault Amount := do
  let steps ← tip.sub index
  if steps < 0 then
    .error .underflow
  else
    Unsigned.checked (steps.toInt.toNat * value.toNat)

/-- Growth turned into an index. -/
structure Backdate where
  /-- The index at which the value has grown what is carried. -/
  index : Index
  /-- How much of the growth whole steps make up. -/
  carried : Amount
deriving DecidableEq

/-- The index from which `value` has grown as much of `grown` as whole steps allow. -/
def indexForGrown (tip : Index) (grown value : Amount) : Except Fault Backdate := do
  if value = 0 then
    .error .divisionByZero
  else
    let steps := grown.quotient value
    let carried ← steps.mul value
    let steps ← steps.gain
    let index ← tip.sub steps
    return ⟨index, carried⟩

/-! ### Roots -/

/-- Roots minted per unit of stalk while the ledger has none of either: `10 ^ 12`. -/
def rootsPerFirstStalk : Amount := ⟨1000000000000, by decide⟩

/-- Roots that come with newly minted stalk, rounded down. -/
def rootsForMint (totalRoots totalStalk stalk : Amount) : Except Fault Amount :=
  if totalRoots = 0 ∨ totalStalk = 0 then
    stalk.mul rootsPerFirstStalk
  else
    mulDiv totalRoots stalk totalStalk

/-- Roots that go with burned stalk, rounded up but never more than the account has. -/
def rootsForBurn (totalRoots totalStalk stalk accountRoots : Amount) : Except Fault Amount :=
  if totalStalk = 0 then
    .ok accountRoots
  else do
    let roots ← mulDivCeil totalRoots stalk totalStalk
    return min roots accountRoots

end StalkLedger
