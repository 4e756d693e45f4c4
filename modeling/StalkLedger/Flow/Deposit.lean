import StalkLedger.Store

/-!
# Deposits and withdrawals

A deposit realizes the account, enters a position at the tip, and mints the stalk of its value.  A
withdrawal realizes the account, removes positions, and burns the stalk of their value together with
all that they have grown.
-/

namespace StalkLedger

/-- What a deposit made. -/
structure DepositReceipt where
  positionId : Identifier
  index : Index
  quantity : Amount
  value : Amount
  stalk : Amount
  roots : Amount
deriving DecidableEq

/-- What a withdrawal took. -/
structure WithdrawReceipt where
  asset : AssetId
  quantity : Amount
  value : Amount
  stalkRemoved : Amount
  rootsRemoved : Amount
deriving DecidableEq

namespace Ledger

/-- Fail unless an asset takes deposits. -/
def requireOpen (ledger : Ledger) (asset : AssetId) : Except Fault Unit := do
  let entry ← ledger.asset asset
  if entry.depositsEnabled then
    return ()
  else
    .error (.depositsDisabled asset)

end Ledger

namespace Action

/-- Deposit a quantity of some value. -/
def deposit (owner : AccountId) (asset : AssetId) (quantity value : Amount) :
    Action DepositReceipt := do
  let ledger ← Action.ledger
  ledger.requireOpen asset
  let _ ← mow owner asset
  let index ← addPosition owner asset ⟨quantity, value⟩
  creditValue owner asset value
  let ledger ← Action.ledger
  let entry ← ledger.asset asset
  let stalk ← value.mul entry.stalkPerValue
  let roots ← mintStalk owner stalk
  return ⟨Slot.positionId ⟨owner, asset, index⟩, index, quantity, value, stalk, roots⟩

/-- Withdraw quantities at some indices. -/
def withdraw (owner : AccountId) (asset : AssetId) (indices : List Index)
    (amounts : List Amount) : Action WithdrawReceipt := do
  let _ ← mow owner asset
  let removal ← removeMultiple owner asset indices amounts
  let ledger ← Action.ledger
  let entry ← ledger.asset asset
  let carried ← entry.stalkOf indices removal
  debitValue owner asset removal.totalValue
  let roots ← burnStalk owner carried.stalk
  return ⟨asset, removal.totalQuantity, removal.totalValue, carried.stalk, roots⟩

end Action

end StalkLedger
