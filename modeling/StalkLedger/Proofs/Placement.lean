import StalkLedger.Proofs.Tally

/-!
# Every position can be found

A legacy epoch stands for an index below zero, and whoever looks for the position at that index is led
back to the epoch (`Asset.locate_indexOf`): the rate goes into the index as often as the epoch is away
from the migration, and an epoch of the legacy range is not out of the range.

**Placement** (`Vault.positions_placed`).  So after any requests every position of either store holds
something, is in a listed asset and no further than its owner has been realized, and is found at its
index.
-/

namespace StalkLedger

theorem Unsigned.pos_of_ne_zero {bits : ℕ} {a : Unsigned bits} (h : a ≠ 0) : 0 < a := by
  rw [lt_iff, toNat_zero]
  exact Nat.pos_of_ne_zero fun h₀ => h (ext (h₀.trans toNat_zero.symm))

/-! ### From an index back to its epoch -/

/-- **An epoch is found at the index that it stands for.** -/
theorem Asset.locate_indexOf {entry : Asset} {charter : Charter} {terms : LegacyTerms}
    {epoch : Epoch} {index : Index} (hterms : entry.legacy = some terms)
    (hrate : 0 < terms.ratePerEpoch.toInt) (hlegacy : charter.isLegacy epoch = true)
    (hindex : terms.indexOf charter epoch = .ok index) :
    entry.locate charter index = .legacy index epoch := by
  have hi : index.toInt =
      ((epoch.toNat : ℤ) - charter.migrationEpoch.toNat) * terms.ratePerEpoch.toInt :=
    Signed.checked_eq_ok.mp hindex
  have hbefore : epoch.toNat < charter.migrationEpoch.toNat := (Charter.isLegacy_iff.mp hlegacy).2
  have hnegative : ¬(0 ≤ index) := by
    rw [Signed.le_iff, Signed.toInt_zero, hi, not_le]
    exact mul_neg_of_neg_of_pos (by omega) hrate
  have hdivides : index.toInt.tmod terms.ratePerEpoch.toInt = 0 := by
    rw [hi]
    exact Int.mul_tmod_left ..
  have hback : (charter.migrationEpoch.toNat : ℤ) +
      index.toInt.tdiv terms.ratePerEpoch.toInt = epoch.toNat := by
    rw [hi, Int.mul_tdiv_cancel _ hrate.ne']
    exact add_sub_cancel ..
  have hepoch : Unsigned.ofNat? 64 ((epoch.toNat : ℤ).toNat) = some epoch :=
    Unsigned.ofNat?_eq_some_iff.mpr (Int.toNat_natCast _)
  unfold locate
  simp only [hterms, hnegative, hdivides, hback, hepoch, hlegacy, ne_eq, not_true_eq_false, or_self,
    if_false, if_true]
  rw [if_neg (Int.not_lt.mpr (Int.natCast_nonneg _))]

namespace Ledger

variable {ledger : Ledger}

/-! ### Where positions are -/

/-- A position of the current store has its place. -/
structure Placed (ledger : Ledger) (owner : AccountId) (asset : AssetId) (index : Index)
    (position : Position) : Prop where
  quantity : 0 < position.quantity
  value : 0 < position.value
  /-- Its asset is listed, its owner has a checkpoint in it, and neither is the position beyond the
  checkpoint nor the checkpoint beyond the tip. -/
  realized : ∃ entry checkpoint, ledger.asset asset = .ok entry ∧
    (ledger.account owner).checkpoints.get? asset = some checkpoint ∧
      index ≤ checkpoint.lastIndex ∧ checkpoint.lastIndex ≤ entry.accrualIndex

/-- A position of the legacy store has its place. -/
structure LegacyPlaced (ledger : Ledger) (owner : AccountId) (asset : AssetId) (epoch : Epoch)
    (position : Position) : Prop where
  quantity : 0 < position.quantity
  value : 0 < position.value
  /-- Its epoch is in the legacy range. -/
  range : ledger.charter.legacyStart ≤ epoch ∧ epoch < ledger.charter.legacyEnd
  /-- Its asset is listed and has older positions; the epoch stands for an index, and the index is
  looked up under the epoch, so that the position is found there. -/
  found : ∃ entry terms index, ledger.asset asset = .ok entry ∧ entry.legacy = some terms ∧
    terms.indexOf ledger.charter epoch = .ok index ∧
      entry.locate ledger.charter index = .legacy index epoch

namespace Housed

/-- In a housed ledger every position of the current store is in its place, -/
theorem placed (h : ledger.Housed) {owner : AccountId} {asset : AssetId} {index : Index}
    {position : Position} (hget : ledger.positionAt owner asset index = some position) :
    ledger.Placed owner asset index position := by
  obtain ⟨hquantity, hvalue, checkpoint, hcheckpoint, hindex⟩ := h.deposits _ _ hget
  obtain ⟨-, entry, hentry, htip⟩ := h.checkpoint hcheckpoint
  exact ⟨Unsigned.pos_of_ne_zero hquantity, Unsigned.pos_of_ne_zero hvalue, entry, checkpoint,
    asset_eq_ok.mpr hentry, hcheckpoint, hindex, htip⟩

/-- and so is every position of the legacy store. -/
theorem legacyPlaced (h : ledger.Housed) {owner : AccountId} {asset : AssetId} {epoch : Epoch}
    {position : Position} (hget : ledger.legacyPosition owner asset epoch = some position) :
    ledger.LegacyPlaced owner asset epoch position := by
  obtain ⟨hquantity, hvalue, -, hrange, terms, index, hterms, hindex⟩ := h.legacyDeposits _ _ hget
  obtain ⟨entry, hentry, hlegacy⟩ := legacyTerms_eq_ok.mp hterms
  have hrate := (h.asset (asset_eq_ok.mp hentry)).legacyRate hlegacy
  exact ⟨Unsigned.pos_of_ne_zero hquantity, Unsigned.pos_of_ne_zero hvalue,
    Charter.isLegacy_iff.mp hrange, entry, terms, index, hentry, hlegacy, hindex,
    Asset.locate_indexOf hlegacy hrate hrange hindex⟩

end Housed

end Ledger

namespace Vault

/-- **Every position has its place.**  After any requests to a new vault, every position of the current
store holds quantity and value, is in a listed asset, and at an index no further than the checkpoint
of its owner, which is no further than the tip.  Every position of the legacy store holds quantity and
value, and is kept under an epoch of the legacy range that stands for an index of its asset; and who
looks at that index is led to the epoch. -/
theorem positions_placed {charter : Charter} {start : Vault} (h : genesis charter = .ok start)
    (requests : List Request) :
    let ledger := (run requests start).2.ledger
    (∀ owner asset index position, ledger.positionAt owner asset index = some position →
      ledger.Placed owner asset index position) ∧
      ∀ owner asset epoch position, ledger.legacyPosition owner asset epoch = some position →
        ledger.LegacyPlaced owner asset epoch position := by
  have hhoused := (consistent h requests).housed
  exact ⟨fun _ _ _ _ => hhoused.placed, fun _ _ _ _ => hhoused.legacyPlaced⟩

/-- Account 7 holds something in both stores: it was given a position at the tip of its asset, and
what it had imported under epoch 6 it has withdrawn in part. -/
theorem positions_placed_sample : genesis ⟨10, 10, 0, 9⟩ = .ok sample ∧
    let ledger := (run sampleRequests sample).2.ledger
    ledger.positionAt 7 1 0 = some ⟨7, 7⟩ ∧ ledger.legacyPosition 7 1 6 = some ⟨20, 27⟩ ∧
      ledger.Placed 7 1 0 ⟨7, 7⟩ ∧ ledger.LegacyPlaced 7 1 6 ⟨20, 27⟩ := by
  have hcurrent : (run sampleRequests sample).2.ledger.positionAt 7 1 0 = some ⟨7, 7⟩ := by
    decide +kernel
  have hlegacy : (run sampleRequests sample).2.ledger.legacyPosition 7 1 6 = some ⟨20, 27⟩ := by
    decide +kernel
  have hplaced := positions_placed genesis_sample sampleRequests
  exact ⟨genesis_sample, hcurrent, hlegacy, hplaced.1 _ _ _ _ hcurrent, hplaced.2 _ _ _ _ hlegacy⟩

end Vault

end StalkLedger
