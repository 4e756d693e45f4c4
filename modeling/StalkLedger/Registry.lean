import StalkLedger.Action

/-!
# The registry of assets

Assets are whitelisted on their terms, at most `maxAssets` of them.  Their growth can be changed, and
an asset can be dewhitelisted: it stops growing and takes no more deposits, but what is there can
still leave.
-/

namespace StalkLedger

/-- How many assets there may be. -/
def maxAssets : Nat := 64

namespace Action

/-- Whitelist an asset. -/
def whitelist (id : AssetId) (terms : AssetTerms) : Action Unit := do
  terms.validate
  let ledger ← Action.ledger
  if ledger.assets.contains id then
    fail (.assetAlreadyWhitelisted id)
  else if maxAssets ≤ ledger.assets.size then
    fail .assetLimitReached
  else
    setAsset id (.whitelisted terms ledger.epoch)
    emit (.assetWhitelisted id terms.stalkPerValue terms.accrualRate)

/-- Take an asset off the list. -/
def dewhitelist (id : AssetId) : Action Unit := do
  let entry ← (← Action.ledger).asset id
  setAsset id { entry with depositsEnabled := false, accrualRate := 0 }
  emit (.assetDewhitelisted id)

/-- Change how fast an asset grows from now on. -/
def setAccrualRate (id : AssetId) (rate : Index) : Action Unit := do
  if rate < 0 then
    fail .negativeAccrualRate
  else
    let entry ← (← Action.ledger).asset id
    setAsset id { entry with accrualRate := rate }
    emit (.accrualRateChanged id entry.accrualRate rate)

end Action

end StalkLedger
