import StalkLedger.Stalk
import StalkLedger.Flood.Settlement

/-!
# Realizing reward

Reward grows on its own and is credited when an account is *mown* in an asset: the account gets
`(tip - lastIndex) * value` stalk, and its checkpoint moves to the tip.  That is the growth of all
its positions, because each of them has been realized up to the checkpoint.

Mowing also updates the account, at most once per epoch: floods are settled before anything changes
the roots.  An account that is updated in this epoch and whose checkpoint is at the tip is *current*;
positions are touched only then (`Action.ensureCurrent`).
-/

namespace StalkLedger

namespace Action

/-! ### Updates and mowing -/

/-- Settle the floods of an account and note the epoch, unless that was done in this epoch. -/
def updateAccount (id : AccountId) : Action Unit := do
  let ledger ← Action.ledger
  let account := ledger.account id
  if ledger.epoch ≤ account.lastUpdate then
    setAccount id account
  else
    let flood ← ledger.floodBook.settle account.roots account.flood
    setAccount id { account with flood, lastUpdate := ledger.epoch }

/-- Credit what an account has grown in an asset since its checkpoint; the growth is returned. -/
def creditGrowth (id : AccountId) (asset : AssetId) : Action Amount := do
  let ledger ← Action.ledger
  let tip ← ledger.accrualIndex asset
  let account := ledger.account id
  let checkpoint := account.checkpoint asset
  if checkpoint.lastIndex = tip then
    setAccount id (account.withCheckpoint asset checkpoint)
    return 0
  else
    let grown ← grownReward tip checkpoint.lastIndex checkpoint.value
    setAccount id (account.withCheckpoint asset { checkpoint with lastIndex := tip })
    let _ ← mintStalk id grown
    return grown

/-- Realize all that is pending for an account in an asset; the growth is returned. -/
def mow (id : AccountId) (asset : AssetId) : Action Amount := do
  updateAccount id
  creditGrowth id asset

/-! ### Value held -/

/-- The account holds more value in an asset. -/
def creditValue (id : AccountId) (asset : AssetId) (value : Amount) : Action Unit := do
  let account := (← Action.ledger).account id
  let checkpoint := account.checkpoint asset
  let value ← checkpoint.value.add value
  setAccount id (account.withCheckpoint asset { checkpoint with value })

/-- The account holds less value in an asset. -/
def debitValue (id : AccountId) (asset : AssetId) (value : Amount) : Action Unit := do
  let account := (← Action.ledger).account id
  let checkpoint := account.checkpoint asset
  let value ← checkpoint.value.sub value
  setAccount id (account.withCheckpoint asset { checkpoint with value })

end Action

namespace Ledger

/-! ### Being current -/

/-- The index through which an account is realized in an asset, if it has been updated in this
epoch. -/
def realizedIndex (ledger : Ledger) (id : AccountId) (asset : AssetId) : Option Index :=
  match ledger.accounts.get? id with
  | some account =>
    if ledger.epoch ≤ account.lastUpdate then
      (account.checkpoints.get? asset).map (·.lastIndex)
    else
      none
  | none => none

/-- Fail unless an account is current in an asset. -/
def requireCurrent (ledger : Ledger) (id : AccountId) (asset : AssetId) : Except Fault Unit := do
  let tip ← ledger.accrualIndex asset
  let realized := ledger.realizedIndex id asset
  if realized = some tip then
    return ()
  else
    .error (.staleAccrual id asset (realized.getD .minimum) tip)

/-! ### What is pending -/

/-- The stalk that mowing would credit. -/
def grownBalance (ledger : Ledger) (id : AccountId) (asset : AssetId) : Except Fault Amount := do
  let tip ← ledger.accrualIndex asset
  match (ledger.account id).checkpoints.get? asset with
  | some checkpoint => grownReward tip checkpoint.lastIndex checkpoint.value
  | none => return 0

/-- The flood payout that an account could claim. -/
def floodBalance (ledger : Ledger) (id : AccountId) : Except Fault Amount :=
  match ledger.accounts.get? id with
  | none => .ok 0
  | some account =>
    if ledger.epoch ≤ account.lastUpdate then
      .ok account.flood.claimable
    else do
      let share ← ledger.floodBook.settle account.roots account.flood
      return share.claimable

end Ledger

/-- Go on only if an account is current in an asset. -/
def Action.ensureCurrent (id : AccountId) (asset : AssetId) : Action Unit := do
  let ledger ← Action.ledger
  ledger.requireCurrent id asset

end StalkLedger
