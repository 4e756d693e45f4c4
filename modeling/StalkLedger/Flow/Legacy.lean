import StalkLedger.Store

/-!
# Positions from before the migration

An older position is imported into the legacy store under its epoch, as if it had been held all
along: its account gets the stalk of its value, and what it has grown since the index that its epoch
stands for.  Migration moves older positions into the current store at that index; it changes
neither balances nor totals.
-/

namespace StalkLedger

namespace Ledger

/-- How the older positions of an asset are read. -/
def legacyTerms (ledger : Ledger) (asset : AssetId) : Except Fault LegacyTerms := do
  let entry ← ledger.asset asset
  match entry.legacy with
  | some terms => return terms
  | none => .error (.noLegacyFormat asset)

/-- Fail unless an epoch is in the legacy range. -/
def requireLegacy (ledger : Ledger) (asset : AssetId) (epoch : Epoch) : Except Fault Unit :=
  if ledger.charter.isLegacy epoch then .ok () else .error (.notLegacyEpoch asset epoch)

end Ledger

namespace Action

/-- Import a position under a legacy epoch; the index that the epoch stands for is returned. -/
def importLegacy (owner : AccountId) (asset : AssetId) (legacyEpoch : Epoch)
    (quantity value : Amount) : Action Index := do
  let ledger ← Action.ledger
  let terms ← ledger.legacyTerms asset
  ledger.requireLegacy asset legacyEpoch
  let position ← Position.make asset quantity value
  let index ← terms.indexOf ledger.charter legacyEpoch
  let _ ← mow owner asset
  ensureCurrent owner asset
  let ledger ← Action.ledger
  let legacyDeposits ← ledger.legacyDeposits.put ⟨owner, asset, legacyEpoch⟩ position
  let entry ← ledger.asset asset
  let entry ← entry.take position
  update fun ledger => { ledger with legacyDeposits }
  setAsset asset entry
  creditValue owner asset value
  let base ← value.mul entry.stalkPerValue
  let grown ← grownReward entry.accrualIndex index value
  let stalk ← base.add grown
  let _ ← mintStalk owner stalk
  emit (.legacyPositionImported owner asset legacyEpoch index quantity value)
  return index

/-- Move the position under a legacy epoch, if there is one; its index is returned. -/
def migrateEpoch (owner : AccountId) (asset : AssetId) (terms : LegacyTerms)
    (legacyEpoch : Epoch) : Action (Option Index) := do
  let ledger ← Action.ledger
  ledger.requireLegacy asset legacyEpoch
  match ledger.legacyDeposits.get? ⟨owner, asset, legacyEpoch⟩ with
  | none => return none
  | some position =>
    let index ← terms.indexOf ledger.charter legacyEpoch
    let deposits ← ledger.deposits.put ⟨owner, asset, index⟩ position
    let legacyDeposits := ledger.legacyDeposits.erase ⟨owner, asset, legacyEpoch⟩
    update fun ledger => { ledger with deposits, legacyDeposits }
    emit (.legacyPositionMigrated owner asset legacyEpoch index position.quantity position.value)
    return some index

/-- Move the positions under some legacy epochs, one after the other. -/
def migrateEach (owner : AccountId) (asset : AssetId) (terms : LegacyTerms) :
    List Epoch → Action (List Index)
  | [] => return []
  | epoch :: epochs => do
    let moved ← migrateEpoch owner asset terms epoch
    let others ← migrateEach owner asset terms epochs
    return moved.toList ++ others

/-- Move the positions under some legacy epochs into the current store; the indices at which they
are now are returned.  Epochs without a position are passed over. -/
def migrate (owner : AccountId) (asset : AssetId) (epochs : List Epoch) : Action (List Index) := do
  let ledger ← Action.ledger
  let terms ← ledger.legacyTerms asset
  let _ ← mow owner asset
  migrateEach owner asset terms epochs

end Action

end StalkLedger
