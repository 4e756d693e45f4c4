import StalkLedger.Fault

/-!
# The charter of a ledger

What is settled when a ledger is founded: the epoch it starts in, the epoch in which positions
changed from being kept by epoch to being kept by accrual index, and the two assets that the ledger
itself hands out.

The *legacy range* is the range of epochs under which older positions may be kept: the
`migrationHorizon` epochs before the migration, or as many as there are.
-/

namespace StalkLedger

/-- What a ledger is founded on. -/
structure Charter where
  /-- The epoch the ledger starts in. -/
  genesisEpoch : Epoch
  /-- The first epoch in which positions are kept by accrual index. -/
  migrationEpoch : Epoch
  /-- The asset of the earned reward, worth one unit of value each. -/
  baseAsset : AssetId
  /-- The asset paid out in floods. -/
  floodAsset : AssetId
deriving DecidableEq

namespace Charter

/-- A ledger starts no earlier than the migration. -/
def validate (charter : Charter) : Except Fault Unit :=
  if charter.genesisEpoch < charter.migrationEpoch then .error .migrationAfterGenesis else .ok ()

/-- How many epochs before the migration a legacy position may come from. -/
def migrationHorizon : Epoch := ⟨1000000, by decide⟩

/-- The first epoch of the legacy range. -/
def legacyStart (charter : Charter) : Epoch := charter.migrationEpoch.monus migrationHorizon

/-- The end of the legacy range, no longer part of it. -/
def legacyEnd (charter : Charter) : Epoch := charter.migrationEpoch

/-- Whether positions may be kept under the epoch. -/
def isLegacy (charter : Charter) (epoch : Epoch) : Bool :=
  charter.legacyStart ≤ epoch ∧ epoch < charter.legacyEnd

theorem isLegacy_iff {charter : Charter} {epoch : Epoch} :
    charter.isLegacy epoch = true ↔ charter.legacyStart ≤ epoch ∧ epoch < charter.legacyEnd :=
  decide_eq_true_iff

end Charter

end StalkLedger
