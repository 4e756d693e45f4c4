import StalkLedger.Store

/-!
# Transfers

Positions change hands at their indices, so that the recipient inherits what they have grown, and
the stalk that they carry goes with them.  What the sender had in the legacy store, the recipient
has in the current store.
-/

namespace StalkLedger

/-- What a transfer moved. -/
structure TransferReceipt where
  quantity : Amount
  value : Amount
  stalk : Amount
  roots : Amount
deriving DecidableEq

namespace Action

/-- Enter removed positions for a recipient; entries of no quantity are passed over. -/
def receiveEach (sender recipient : AccountId) (asset : AssetId) :
    List (Index × Amount × Amount) → Action Unit
  | [] => return ()
  | (index, amount, value) :: entries => do
    if amount = 0 then
      receiveEach sender recipient asset entries
    else
      addPositionAt ⟨recipient, asset, index⟩ ⟨amount, value⟩
      emit (.positionTransferred sender recipient asset index amount value)
      receiveEach sender recipient asset entries

/-- Move positions between two accounts that are current. -/
def transferRealized (sender recipient : AccountId) (asset : AssetId) (indices : List Index)
    (amounts : List Amount) : Action TransferReceipt := do
  checkLengths indices amounts
  ensureCurrent recipient asset
  let removal ← removeMultiple sender asset indices amounts
  receiveEach sender recipient asset (indices.zip (amounts.zip removal.values))
  let ledger ← Action.ledger
  let entry ← ledger.asset asset
  let carried ← entry.stalkOf indices removal
  debitValue sender asset removal.totalValue
  creditValue recipient asset removal.totalValue
  let roots ← transferStalk sender recipient carried.stalk
  return ⟨removal.totalQuantity, removal.totalValue, carried.stalk, roots⟩

/-- Move positions to another account, after both have been realized. -/
def transfer (sender recipient : AccountId) (asset : AssetId) (indices : List Index)
    (amounts : List Amount) : Action TransferReceipt := do
  let _ ← mow sender asset
  let _ ← mow recipient asset
  transferRealized sender recipient asset indices amounts

end Action

end StalkLedger
