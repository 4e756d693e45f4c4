import StalkLedger.Store

/-!
# Earned reward

Reward in the base asset joins a pool, and its stalk joins the total without roots.  So every root
stands for a little more stalk than before, and the difference to the stalk that an account has is
what it may *plant*: that much of the pool becomes a position of its own.
-/

namespace StalkLedger

/-- What planting made. -/
structure PlantReceipt where
  /-- The quantity of the base asset, and its value. -/
  quantity : Amount
  index : Index
  stalk : Amount
deriving DecidableEq

/-- The quantity of the base asset that an account could plant. -/
def Ledger.earnedBalance (ledger : Ledger) (id : AccountId) : Except Fault Amount :=
  let account := ledger.account id
  if account.roots = 0 ∨ ledger.totals.roots = 0 then
    .ok 0
  else do
    let share ← mulDiv ledger.totals.stalk account.roots ledger.totals.roots
    let base ← ledger.asset ledger.charter.baseAsset
    let earned := (share.monus account.stalk).quotient base.stalkPerValue
    return min earned ledger.totals.earnedPool

namespace Action

/-- Let reward join the pool. -/
def receiveReward (quantity : Amount) : Action Unit :=
  if quantity = 0 then
    return ()
  else do
    let ledger ← Action.ledger
    let base ← ledger.asset ledger.charter.baseAsset
    let earnedPool ← ledger.totals.earnedPool.add quantity
    let added ← quantity.mul base.stalkPerValue
    let stalk ← ledger.totals.stalk.add added
    setTotals { ledger.totals with stalk, earnedPool }
    emit (.earnedRewardReceived quantity earnedPool)

/-- Turn an account's share of the pool into a position of the base asset at the tip. -/
def plant (id : AccountId) : Action PlantReceipt := do
  let base := (← Action.ledger).charter.baseAsset
  let _ ← mow id base
  let ledger ← Action.ledger
  let quantity ← ledger.earnedBalance id
  let entry ← ledger.asset base
  if quantity = 0 then
    return ⟨0, entry.accrualIndex, 0⟩
  else
    let stalk ← quantity.mul entry.stalkPerValue
    let earnedPool ← ledger.totals.earnedPool.sub quantity
    setTotals { ledger.totals with earnedPool }
    let index ← addPosition id base ⟨quantity, quantity⟩
    creditValue id base quantity
    -- The total has counted this stalk since the reward joined the pool.
    creditStalk id stalk 0
    emit (.planted id index quantity stalk)
    return ⟨quantity, index, stalk⟩

end Action

end StalkLedger
