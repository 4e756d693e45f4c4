import StalkLedger.Charter
import StalkLedger.Position

/-!
# Assets

An asset is whitelisted on terms: the stalk it gives for a unit of value, how fast its accrual index
grows, and, if it has positions from before the migration, how far apart the indices of two legacy
epochs are.  Its entry in the ledger adds the index, the totals held, and whether deposits are taken.

Legacy epochs stand for indices below zero, `rate` apart and ending with zero at the migration
(`LegacyTerms.indexOf`).  `Asset.locate` goes back from an index to the epoch.
-/

namespace StalkLedger

/-! ### Terms -/

/-- How positions from before the migration are read. -/
structure LegacyTerms where
  /-- The distance of the indices of consecutive legacy epochs. -/
  ratePerEpoch : Index
  /-- Whether a removal may draw on both stores. -/
  grandfatheredExcess : Bool
deriving DecidableEq

/-- The terms on which an asset is whitelisted. -/
structure AssetTerms where
  /-- The stalk given for a unit of value. -/
  stalkPerValue : Amount
  /-- The growth of the accrual index per epoch. -/
  accrualRate : Index
  /-- How older positions are read, if there are any. -/
  legacy : Option LegacyTerms
deriving DecidableEq

namespace AssetTerms

/-- The terms if nothing else is agreed. -/
def default : AssetTerms :=
  ⟨⟨10000, by decide⟩, ⟨2, by decide, by decide⟩, none⟩

/-- Stalk is given, the index does not fall, and legacy epochs have different indices. -/
def validate (terms : AssetTerms) : Except Fault Unit :=
  if terms.stalkPerValue = 0 then
    .error .stalkPerValueNotPositive
  else if terms.accrualRate < 0 then
    .error .negativeAccrualRate
  else if terms.legacy.any (·.ratePerEpoch ≤ 0) then
    .error .legacyRateNotPositive
  else
    .ok ()

end AssetTerms

/-- The distance of legacy epochs if nothing else is agreed. -/
def LegacyTerms.defaultRate : Index := ⟨2, by decide, by decide⟩

/-! ### Entries of the registry -/

/-- What the ledger keeps about an asset. -/
structure Asset where
  stalkPerValue : Amount
  accrualRate : Index
  /-- How far the asset has grown; it never falls. -/
  accrualIndex : Index
  legacy : Option LegacyTerms
  /-- The quantity held in all positions. -/
  totalQuantity : Amount
  /-- The value held in all positions. -/
  totalValue : Amount
  depositsEnabled : Bool
  whitelistedAt : Epoch
deriving DecidableEq

namespace Asset

/-- A newly whitelisted asset: nothing is held, and the index starts at zero. -/
def whitelisted (terms : AssetTerms) (epoch : Epoch) : Asset where
  stalkPerValue := terms.stalkPerValue
  accrualRate := terms.accrualRate
  accrualIndex := 0
  legacy := terms.legacy
  totalQuantity := 0
  totalValue := 0
  depositsEnabled := true
  whitelistedAt := epoch

/-- The totals with a position more. -/
def take (asset : Asset) (position : Position) : Except Fault Asset := do
  let totalQuantity ← asset.totalQuantity.add position.quantity
  let totalValue ← asset.totalValue.add position.value
  return { asset with totalQuantity, totalValue }

/-- The totals with a position less. -/
def release (asset : Asset) (position : Position) : Except Fault Asset := do
  let totalQuantity ← asset.totalQuantity.sub position.quantity
  let totalValue ← asset.totalValue.sub position.value
  return { asset with totalQuantity, totalValue }

/-- The asset after some epochs of growth. -/
def grow (elapsed : Index) (asset : Asset) : Except Fault Asset := do
  let growth ← asset.accrualRate.mul elapsed
  let accrualIndex ← asset.accrualIndex.add growth
  return { asset with accrualIndex }

/-- Whether a removal may draw on both stores. -/
def grandfathered (asset : Asset) : Bool := asset.legacy.any (·.grandfatheredExcess)

end Asset

/-! ### Legacy epochs as indices -/

/-- The index that a legacy epoch stands for: below zero by the rate for each epoch that the
migration is away. -/
def LegacyTerms.indexOf (terms : LegacyTerms) (charter : Charter) (epoch : Epoch) :
    Except Fault Index :=
  Signed.checked (((epoch.toNat : Int) - charter.migrationEpoch.toNat) * terms.ratePerEpoch.toInt)

/-- Where to look for the position at an index.  An index belongs to the legacy store if the asset
has older positions and the index is a negative multiple of their rate that stands for an epoch of
the legacy range. -/
def Asset.locate (asset : Asset) (charter : Charter) (index : Index) : Location :=
  match asset.legacy with
  | none => .current index
  | some terms =>
    if 0 ≤ index ∨ index.toInt.tmod terms.ratePerEpoch.toInt ≠ 0 then
      .current index
    else
      -- The division is exact; with a positive rate it counts epochs back from the migration.
      let epoch := (charter.migrationEpoch.toNat : Int) + index.toInt.tdiv terms.ratePerEpoch.toInt
      if epoch < 0 then
        .current index
      else
        match Unsigned.ofNat? 64 epoch.toNat with
        | some epoch => if charter.isLegacy epoch then .legacy index epoch else .current index
        | none => .current index

end StalkLedger
