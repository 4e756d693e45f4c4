import StalkLedger.Flow.Earned
import StalkLedger.Flow.Flood

/-!
# The clock

The source of epochs reports each new epoch.  All assets grow by their rate for every epoch that has
gone by, reward joins the pool, a flood begins or ends, and a payout is shared out.  A report of an
epoch that has been reached already changes nothing.
-/

namespace StalkLedger

/-- A number of epochs as a number of steps of an index. -/
def Unsigned.steps (epochs : Epoch) : Index :=
  ⟨epochs.toNat, by omega, by
    have : epochs.toNat < 2 ^ 64 := epochs.toNat_lt
    omega⟩

namespace Action

/-- Begin or end a flood, as reported. -/
def turnFlood (flooding : Bool) : Action Unit := do
  let ledger ← Action.ledger
  match flooding, ledger.floodBook.active with
  | true, none => beginFlood
  | false, some _ => endFlood
  | _, _ => return ()

/-- Follow a report; the answer tells whether the epoch is new. -/
def advanceEpoch (report : EpochReport) : Action Bool := do
  let ledger ← Action.ledger
  if report.epoch ≤ ledger.epoch then
    return false
  else
    let elapsed := (report.epoch.monus ledger.epoch).steps
    let assets ← ledger.assets.mapEach (Asset.grow elapsed)
    update fun ledger => { ledger with assets, epoch := report.epoch }
    emit (.epochAdvanced ledger.epoch)
    receiveReward report.earnedReward
    turnFlood report.flooding
    if 0 < report.floodPayout then
      payFlood report.floodPayout
    return true

end Action

end StalkLedger
