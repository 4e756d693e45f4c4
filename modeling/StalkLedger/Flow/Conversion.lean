import StalkLedger.Flow.Deposit

/-!
# Conversions

Positions of one asset become a single position of another (or of the same).  The new position is
worth at least what was removed, and it is entered as far below the tip as it takes for it to have
grown what the removed positions had grown.  Only whole steps of the index can be carried; the
remainder is forfeited.
-/

namespace StalkLedger

/-- What is to be converted into what. -/
structure ConversionOrder where
  owner : AccountId
  fromAsset : AssetId
  toAsset : AssetId
  /-- The indices of the positions to retire. -/
  indices : List Index
  /-- The quantity to retire from each. -/
  amounts : List Amount
  /-- The quantity of the other asset that comes of it. -/
  toQuantity : Amount
deriving DecidableEq

/-- What a conversion did. -/
structure ConversionReceipt where
  index : Index
  quantity : Amount
  value : Amount
  removedQuantity : Amount
  removedValue : Amount
  carriedReward : Amount
  forfeitedReward : Amount
  stalkRemoved : Amount
  stalkAdded : Amount
deriving DecidableEq

/-- The sum of some amounts. -/
def sumOf : List Amount → Amount → Except Fault Amount
  | [], sum => .ok sum
  | amount :: amounts, sum => do
    let sum ← sum.add amount
    sumOf amounts sum

namespace Action

/-- What has been retired, and the stalk that was burned with it. -/
structure Retired where
  removal : Removal
  carried : CarriedStalk

/-- Retire the positions of an order, with the stalk that they carry. -/
def retire (order : ConversionOrder) : Action Retired := do
  let requested ← sumOf order.amounts 0
  let removal ← removeMultiple order.owner order.fromAsset order.indices order.amounts
  if removal.totalQuantity ≠ requested then
    fail (.insufficientRemoved requested removal.totalQuantity)
  else
    let ledger ← Action.ledger
    let entry ← ledger.asset order.fromAsset
    let carried ← entry.stalkOf order.indices removal
    debitValue order.owner order.fromAsset removal.totalValue
    let _ ← burnStalk order.owner carried.stalk
    return ⟨removal, carried⟩

/-- Enter the new position of an order, with the stalk that it carries. -/
def enter (order : ConversionOrder) (retired : Retired) (value : Amount) :
    Action ConversionReceipt := do
  let ledger ← Action.ledger
  let target ← ledger.asset order.toAsset
  let backdate ← indexForGrown target.accrualIndex retired.carried.grown value
  let forfeited ← retired.carried.grown.sub backdate.carried
  let base ← value.mul target.stalkPerValue
  let stalkAdded ← base.add backdate.carried
  addPositionAt ⟨order.owner, order.toAsset, backdate.index⟩ ⟨order.toQuantity, value⟩
  creditValue order.owner order.toAsset value
  let _ ← mintStalk order.owner stalkAdded
  let removed := retired.removal
  emit (.converted order.owner order.fromAsset order.toAsset removed.totalQuantity
    removed.totalValue backdate.index order.toQuantity value backdate.carried forfeited)
  return ⟨backdate.index, order.toQuantity, value, removed.totalQuantity, removed.totalValue,
    backdate.carried, forfeited, retired.carried.stalk, stalkAdded⟩

/-- Convert positions; `valueOf` prices the quantity that comes of it. -/
def convert (order : ConversionOrder) (valueOf : Amount → Except Fault Amount) :
    Action ConversionReceipt := do
  if order.indices.length ≠ order.amounts.length then
    fail (.lengthMismatch order.indices.length order.amounts.length)
  else
    let ledger ← Action.ledger
    ledger.requireOpen order.toAsset
    let _ ← mow order.owner order.fromAsset
    if order.toAsset ≠ order.fromAsset then
      let _ ← mow order.owner order.toAsset
    let retired ← retire order
    let recomputed ← valueOf order.toQuantity
    let value := max recomputed retired.removal.totalValue
    if order.toQuantity = 0 ∨ value = 0 then
      fail (.zeroValueConversion order.toAsset order.toQuantity value)
    else
      enter order retired value

end Action

end StalkLedger
