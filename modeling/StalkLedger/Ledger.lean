import StalkLedger.Asset
import StalkLedger.Account
import StalkLedger.Flood
import StalkLedger.Growth

/-!
# The ledger

All books in one value: the registry of assets, the accounts, the current store of positions under
accrual indices and the legacy store of positions under epochs, the totals, and the book of floods.

This module reads the ledger; what changes it is built from `Action`.
-/

namespace StalkLedger

/-- Balances of the ledger as a whole. -/
structure Totals where
  /-- All stalk, together with the stalk that backs the earned pool. -/
  stalk : Amount
  roots : Amount
  /-- Reward in the base asset that waits to be planted. -/
  earnedPool : Amount
deriving DecidableEq

/-- What the source of epochs says about a new one. -/
structure EpochReport where
  epoch : Epoch
  /-- Whether there is a flood. -/
  flooding : Bool
  /-- Flood asset paid in for the holders of roots. -/
  floodPayout : Amount
  /-- Reward in the base asset that joins the earned pool. -/
  earnedReward : Amount
deriving DecidableEq

/-- All books. -/
structure Ledger where
  charter : Charter
  epoch : Epoch
  assets : SortedMap AssetId Asset
  accounts : SortedMap AccountId Account
  /-- The current store. -/
  deposits : SortedMap (Slot Index) Position
  /-- The legacy store. -/
  legacyDeposits : SortedMap (Slot Epoch) Position
  totals : Totals
  floodBook : FloodBook
deriving DecidableEq

namespace Ledger

/-- A new ledger. -/
def genesis (charter : Charter) : Except Fault Ledger := do
  charter.validate
  return {
    charter
    epoch := charter.genesisEpoch
    assets := ∅
    accounts := ∅
    deposits := ∅
    legacyDeposits := ∅
    totals := ⟨0, 0, 0⟩
    floodBook := .fresh }

/-! ### Assets and accounts -/

/-- The entry of a whitelisted asset. -/
def asset (ledger : Ledger) (asset : AssetId) : Except Fault Asset :=
  match ledger.assets.get? asset with
  | some entry => .ok entry
  | none => .error (.unknownAsset asset)

/-- The accrual index of a whitelisted asset. -/
def accrualIndex (ledger : Ledger) (asset : AssetId) : Except Fault Index :=
  return (← ledger.asset asset).accrualIndex

/-- The account, a fresh one if it was never touched. -/
def account (ledger : Ledger) (account : AccountId) : Account :=
  (ledger.accounts.get? account).getD .fresh

/-! ### Positions -/

/-- The position in the current store under an index. -/
def positionAt (ledger : Ledger) (owner : AccountId) (asset : AssetId) (index : Index) :
    Option Position :=
  ledger.deposits.get? ⟨owner, asset, index⟩

/-- The position in the legacy store under an epoch. -/
def legacyPosition (ledger : Ledger) (owner : AccountId) (asset : AssetId) (epoch : Epoch) :
    Option Position :=
  ledger.legacyDeposits.get? ⟨owner, asset, epoch⟩

/-- The quantity in the current store under an index. -/
def quantityAt (ledger : Ledger) (owner : AccountId) (asset : AssetId) (index : Index) : Amount :=
  ((ledger.positionAt owner asset index).map (·.quantity)).getD 0

/-- The quantity in the legacy store under an epoch. -/
def legacyQuantity (ledger : Ledger) (owner : AccountId) (asset : AssetId) (epoch : Epoch) :
    Amount :=
  ((ledger.legacyPosition owner asset epoch).map (·.quantity)).getD 0

/-- The position at an index: the current one, or, if there is none, the legacy one that the index
stands for. -/
def resolvedPosition (ledger : Ledger) (owner : AccountId) (asset : AssetId) (index : Index) :
    Except Fault (Option Position) :=
  match ledger.positionAt owner asset index with
  | some position => .ok (some position)
  | none => do
    let entry ← ledger.asset asset
    return (entry.locate ledger.charter index).epoch?.bind (ledger.legacyPosition owner asset)

/-- The positions of an account in an asset that a store keeps, by mark. -/
def stored {μ : Type} [Key μ] (store : SortedMap (Slot μ) Position) (owner : AccountId)
    (asset : AssetId) : List (μ × Position) :=
  store.entries.filterMap fun (slot, position) =>
    if slot.owner = owner ∧ slot.asset = asset then some (slot.mark, position) else none

/-- The positions of an account in an asset in the current store, by index. -/
def positionsOf (ledger : Ledger) (owner : AccountId) (asset : AssetId) :
    List (Index × Position) :=
  stored ledger.deposits owner asset

/-- The positions of an account in an asset in the legacy store, by epoch. -/
def legacyPositionsOf (ledger : Ledger) (owner : AccountId) (asset : AssetId) :
    List (Epoch × Position) :=
  stored ledger.legacyDeposits owner asset

/-- What the positions of an asset in a store measure together. -/
def measured {μ : Type} [Key μ] (store : SortedMap (Slot μ) Position) (asset : AssetId)
    (measure : Position → Amount) : Nat :=
  (store.entries.map fun (slot, position) =>
    if slot.asset = asset then (measure position).toNat else 0).foldr (· + ·) 0

/-- The value of all positions of an asset. -/
def storedValue (ledger : Ledger) (asset : AssetId) : Nat :=
  measured ledger.deposits asset (·.value) + measured ledger.legacyDeposits asset (·.value)

/-- The quantity of all positions of an asset. -/
def storedQuantity (ledger : Ledger) (asset : AssetId) : Nat :=
  measured ledger.deposits asset (·.quantity) + measured ledger.legacyDeposits asset (·.quantity)

end Ledger

end StalkLedger
