import StalkLedger.Ledger
import StalkLedger.Wire

/-!
# The ledger on the wire

Records are written field after field, in the order of their declaration; an alternative is one byte
that numbers it and then its fields.  `Ledger.toBytes` and `Ledger.ofBytes` keep a whole ledger: it
can be written as long as none of its maps has `2 ^ 32` entries, and bytes that are not exactly a
ledger are refused.
-/

namespace StalkLedger

open Wire

/-! ### Records -/

instance : Record Position (Amount × Amount) where
  parts p := (p.quantity, p.value)
  ofParts := fun (quantity, value) => ⟨quantity, value⟩
  ofParts_parts _ := rfl
  parts_ofParts _ := rfl

instance {μ : Type} : Record (Slot μ) (AccountId × AssetId × μ) where
  parts s := (s.owner, s.asset, s.mark)
  ofParts := fun (owner, asset, mark) => ⟨owner, asset, mark⟩
  ofParts_parts _ := rfl
  parts_ofParts _ := rfl

instance : Record LegacyTerms (Index × Bool) where
  parts t := (t.ratePerEpoch, t.grandfatheredExcess)
  ofParts := fun (ratePerEpoch, grandfatheredExcess) => ⟨ratePerEpoch, grandfatheredExcess⟩
  ofParts_parts _ := rfl
  parts_ofParts _ := rfl

instance : Record AssetTerms (Amount × Index × Option LegacyTerms) where
  parts t := (t.stalkPerValue, t.accrualRate, t.legacy)
  ofParts := fun (stalkPerValue, accrualRate, legacy) => ⟨stalkPerValue, accrualRate, legacy⟩
  ofParts_parts _ := rfl
  parts_ofParts _ := rfl

instance : Record Asset
    (Amount × Index × Index × Option LegacyTerms × Amount × Amount × Bool × Epoch) where
  parts a := (a.stalkPerValue, a.accrualRate, a.accrualIndex, a.legacy, a.totalQuantity,
    a.totalValue, a.depositsEnabled, a.whitelistedAt)
  ofParts := fun (stalkPerValue, accrualRate, accrualIndex, legacy, totalQuantity, totalValue,
      depositsEnabled, whitelistedAt) =>
    ⟨stalkPerValue, accrualRate, accrualIndex, legacy, totalQuantity, totalValue, depositsEnabled,
      whitelistedAt⟩
  ofParts_parts _ := rfl
  parts_ofParts _ := rfl

instance : Record Checkpoint (Index × Amount) where
  parts c := (c.lastIndex, c.value)
  ofParts := fun (lastIndex, value) => ⟨lastIndex, value⟩
  ofParts_parts _ := rfl
  parts_ofParts _ := rfl

instance : Record FloodShare (Option Epoch × Amount × Amount × Amount) where
  parts s := (s.trackedFlood, s.rootsSnapshot, s.checkpoint, s.claimable)
  ofParts := fun (trackedFlood, rootsSnapshot, checkpoint, claimable) =>
    ⟨trackedFlood, rootsSnapshot, checkpoint, claimable⟩
  ofParts_parts _ := rfl
  parts_ofParts _ := rfl

instance : Record Account
    (Amount × Amount × Epoch × SortedMap AssetId Checkpoint × FloodShare) where
  parts a := (a.stalk, a.roots, a.lastUpdate, a.checkpoints, a.flood)
  ofParts := fun (stalk, roots, lastUpdate, checkpoints, flood) =>
    ⟨stalk, roots, lastUpdate, checkpoints, flood⟩
  ofParts_parts _ := rfl
  parts_ofParts _ := rfl

instance : Record Totals (Amount × Amount × Amount) where
  parts t := (t.stalk, t.roots, t.earnedPool)
  ofParts := fun (stalk, roots, earnedPool) => ⟨stalk, roots, earnedPool⟩
  ofParts_parts _ := rfl
  parts_ofParts _ := rfl

instance : Record Flood (Amount × Amount × Amount × Amount × Option Epoch) where
  parts f := (f.startIndex, f.endIndex, f.roots, f.paid, f.endedAt)
  ofParts := fun (startIndex, endIndex, roots, paid, endedAt) =>
    ⟨startIndex, endIndex, roots, paid, endedAt⟩
  ofParts_parts _ := rfl
  parts_ofParts _ := rfl

instance : Record FloodBook
    (Option Epoch × Amount × SortedMap Epoch Flood × Amount × Amount × Amount) where
  parts b := (b.active, b.payoutPerRoot, b.floods, b.totalPaid, b.unallocated, b.totalClaimed)
  ofParts := fun (active, payoutPerRoot, floods, totalPaid, unallocated, totalClaimed) =>
    ⟨active, payoutPerRoot, floods, totalPaid, unallocated, totalClaimed⟩
  ofParts_parts _ := rfl
  parts_ofParts _ := rfl

instance : Record Charter (Epoch × Epoch × AssetId × AssetId) where
  parts c := (c.genesisEpoch, c.migrationEpoch, c.baseAsset, c.floodAsset)
  ofParts := fun (genesisEpoch, migrationEpoch, baseAsset, floodAsset) =>
    ⟨genesisEpoch, migrationEpoch, baseAsset, floodAsset⟩
  ofParts_parts _ := rfl
  parts_ofParts _ := rfl

instance : Record EpochReport (Epoch × Bool × Amount × Amount) where
  parts r := (r.epoch, r.flooding, r.floodPayout, r.earnedReward)
  ofParts := fun (epoch, flooding, floodPayout, earnedReward) =>
    ⟨epoch, flooding, floodPayout, earnedReward⟩
  ofParts_parts _ := rfl
  parts_ofParts _ := rfl

instance : Record Ledger
    (Charter × Epoch × SortedMap AssetId Asset × SortedMap AccountId Account ×
      SortedMap (Slot Index) Position × SortedMap (Slot Epoch) Position × Totals × FloodBook) where
  parts l := (l.charter, l.epoch, l.assets, l.accounts, l.deposits, l.legacyDeposits, l.totals,
    l.floodBook)
  ofParts := fun (charter, epoch, assets, accounts, deposits, legacyDeposits, totals, floodBook) =>
    ⟨charter, epoch, assets, accounts, deposits, legacyDeposits, totals, floodBook⟩
  ofParts_parts _ := rfl
  parts_ofParts _ := rfl

set_option synthInstance.maxSize 512 in
/-- The ledger is written as its books are, one after the other. -/
instance : Wire Ledger := inferInstance

/-! ### Locations -/

instance : Wire Location where
  write
    | .current index => 0 :: write index
    | .legacy index epoch => 1 :: write (index, epoch)
  read
    | 0 :: bytes => (Wire.read bytes).map fun (index, rest) => (.current index, rest)
    | 1 :: bytes => (Wire.read bytes).map fun ((index, epoch), rest) => (.legacy index epoch, rest)
    | _ => none

instance : Lawful Location where
  read_write location rest := by
    cases location with
    | current index =>
      show (Wire.read (write index ++ rest)).map _ = _
      rw [Lawful.read_write]
      rfl
    | legacy index epoch =>
      show (Wire.read (write (index, epoch) ++ rest)).map _ = _
      rw [Lawful.read_write]
      rfl

/-! ### Whole ledgers -/

/-- Whether the length of a map can be written. -/
def SortedMap.writable {κ α : Type} [Key κ] (m : SortedMap κ α) : Bool := m.size < 2 ^ 32

namespace Ledger

/-- Whether the length of every map can be written. -/
def writable (ledger : Ledger) : Bool :=
  ledger.assets.writable && ledger.accounts.writable &&
    ledger.accounts.entries.all (fun e => e.2.checkpoints.writable) &&
    ledger.deposits.writable && ledger.legacyDeposits.writable && ledger.floodBook.floods.writable

/-- The bytes of a ledger. -/
def toBytes (ledger : Ledger) : Except Fault (List UInt8) :=
  if ledger.writable then .ok (write ledger) else .error .unwritableLedger

/-- The ledger that some bytes write. -/
def ofBytes (bytes : List UInt8) : Except Fault Ledger :=
  match decode bytes with
  | some ledger => .ok ledger
  | none => .error .malformedLedger

end Ledger

end StalkLedger
