import StalkLedger.Proofs.Exit
import StalkLedger.Proofs.Placement

/-!
# Looking an index up

Going from a legacy epoch to the index that it stands for multiplies; going back divides, and gives up
wherever the division is not exact, the quotient is no epoch, or the epoch is not in the legacy range.

* **The way back is the inverse of the way there** (`Asset.locate_eq_legacy_iff`).  The remainder tells
  whether an index is a multiple of the rate, and the quotient of an exact division is one number only:
  so the legacy store is looked at for the indices of legacy epochs, each under its own epoch, and for
  no others (`Asset.locate_resolves`).
* **New positions are out of the way.**  Positions are entered at the tip, which is never below zero
  (`deposit_stamps`, `plant_stamps`), and an index that is not below zero is never that of a legacy
  epoch (`Asset.locate_of_nonneg`).

Together (`Vault.locations_exact`): no index means two things.
-/

namespace StalkLedger

open StalkLedger.Action

/-! ### There and back -/

namespace LegacyTerms

variable {terms : LegacyTerms} {charter : Charter} {epoch epoch' : Epoch} {index : Index}

theorem indexOf_eq_ok : terms.indexOf charter epoch = .ok index ↔ index.toInt =
    ((epoch.toNat : ℤ) - charter.migrationEpoch.toNat) * terms.ratePerEpoch.toInt :=
  Signed.checked_eq_ok

/-- Two epochs do not stand for one index. -/
theorem indexOf_injective (hrate : 0 < terms.ratePerEpoch.toInt)
    (h : terms.indexOf charter epoch = .ok index) (h' : terms.indexOf charter epoch' = .ok index) :
    epoch = epoch' := by
  have hsame := (indexOf_eq_ok.mp h).symm.trans (indexOf_eq_ok.mp h')
  have hepochs := mul_right_cancel₀ hrate.ne' hsame
  exact Unsigned.ext (by omega)

end LegacyTerms

namespace Asset

variable {entry : Asset} {charter : Charter} {terms : LegacyTerms} {index i : Index} {epoch : Epoch}

/-- Wherever the position is to be looked for, it is at the index that was asked for. -/
theorem index_locate (entry : Asset) (charter : Charter) (index : Index) :
    (entry.locate charter index).index = index := by
  unfold locate
  split
  · rfl
  · split
    · rfl
    · dsimp only
      split
      · rfl
      · split
        · split <;> rfl
        · rfl

/-- An index that is not below zero belongs to the current store, whatever the asset. -/
theorem locate_of_nonneg (entry : Asset) (charter : Charter) (h : 0 ≤ index) :
    entry.locate charter index = .current index := by
  unfold locate
  split
  · rfl
  · rw [if_pos (Or.inl h)]

/-- **The way back is the inverse of the way there.** -/
theorem locate_eq_legacy_iff (hterms : entry.legacy = some terms)
    (hrate : 0 < terms.ratePerEpoch.toInt) :
    entry.locate charter index = .legacy i epoch ↔
      i = index ∧ charter.isLegacy epoch = true ∧ terms.indexOf charter epoch = .ok index := by
  constructor
  · intro h
    have hindex : i = index := by
      rw [← index_locate entry charter index, h]
      rfl
    obtain ⟨terms', hterms', hrange, hi⟩ := locate_eq_legacy h
    obtain rfl := Option.some.inj (hterms.symm.trans hterms')
    exact ⟨hindex, hrange, LegacyTerms.indexOf_eq_ok.mpr hi⟩
  · rintro ⟨rfl, hrange, hi⟩
    exact locate_indexOf hterms hrate hrange hi

/-- How the indices of an asset with older positions are looked up. -/
structure Resolves (entry : Asset) (charter : Charter) (terms : LegacyTerms) : Prop where
  /-- The legacy store is looked at under an epoch just if the epoch is in the legacy range and stands
  for the index, -/
  legacy_iff : ∀ index epoch, entry.locate charter index = .legacy index epoch ↔
    (charter.legacyStart ≤ epoch ∧ epoch < charter.legacyEnd) ∧
      terms.indexOf charter epoch = .ok index
  /-- and the current store if there is no such epoch. -/
  current : ∀ index, (∀ epoch, charter.legacyStart ≤ epoch → epoch < charter.legacyEnd →
    terms.indexOf charter epoch ≠ .ok index) → entry.locate charter index = .current index
  /-- Legacy epochs that stand for indices stand for different ones. -/
  distinct : ∀ epoch epoch' index, charter.legacyStart ≤ epoch → epoch < charter.legacyEnd →
    charter.legacyStart ≤ epoch' → epoch' < charter.legacyEnd →
    terms.indexOf charter epoch = .ok index → terms.indexOf charter epoch' = .ok index →
      epoch = epoch'

theorem locate_resolves (charter : Charter) (hterms : entry.legacy = some terms)
    (hrate : 0 < terms.ratePerEpoch.toInt) : entry.Resolves charter terms := by
  refine ⟨fun index epoch => ?_, fun index hnone => ?_, fun epoch epoch' index _ _ _ _ h h' =>
    LegacyTerms.indexOf_injective hrate h h'⟩
  · rw [locate_eq_legacy_iff hterms hrate, Charter.isLegacy_iff]
    exact and_iff_right rfl
  · cases hlocate : entry.locate charter index with
    | current i =>
      have hindex := index_locate entry charter index
      rw [hlocate] at hindex
      exact congrArg Location.current hindex
    | legacy i epoch =>
      obtain ⟨-, hrange, hi⟩ := (locate_eq_legacy_iff hterms hrate).mp hlocate
      obtain ⟨hstart, hend⟩ := Charter.isLegacy_iff.mp hrange
      exact absurd hi (hnone epoch hstart hend)

end Asset

/-! ### Where new positions are -/

variable {ledger : Ledger}

/-- A position that is entered is there afterwards. -/
theorem positionAt_of_add {slot : Slot Index} {position : Position} {out : Outcome Unit}
    (h : addPositionAt slot position ledger = .ok out) :
    ∃ merged, out.ledger.positionAt slot.owner slot.asset slot.mark = some merged := by
  obtain ⟨deposits, entry, entry', -, -, -, hput, -, -, rfl⟩ := addPositionAt_eq_ok.mp h
  obtain ⟨merged, -, -, rfl⟩ := SortedMap.put_eq_ok.mp hput
  exact ⟨merged, SortedMap.get?_insert_self ..⟩

/-- A deposit enters a position at an index that is not below zero. -/
theorem deposit_stamps {owner : AccountId} {asset : AssetId} {quantity value : Amount}
    {out : Outcome DepositReceipt} (hl : ledger.Housed)
    (h : deposit owner asset quantity value ledger = .ok out) : 0 ≤ out.result.index ∧
      ∃ position, out.ledger.positionAt owner asset out.result.index = some position := by
  obtain ⟨mown, tip, added, booked, entry, stalk, minted, -, hmow, htip, hadd, hbook, -, -, hmint,
    rfl⟩ := deposit_stages h
  obtain ⟨hmoves, -⟩ := mow_moves hmow
  obtain ⟨position, hposition⟩ := positionAt_of_add hadd
  obtain ⟨_, -, rfl⟩ := creditValue_eq_ok.mp hbook
  obtain ⟨accounts, totals, hminted⟩ := mintStalk_frame hmint
  have hnonneg := (hmoves.housed hl).tip_nonneg asset
  rw [Ledger.tip_eq htip] at hnonneg
  refine ⟨?_, position, ?_⟩
  · rw [Signed.le_iff, Signed.toInt_zero]
    exact hnonneg
  · dsimp only
    rw [hminted]
    exact hposition

/-- So does planting, unless it plants nothing: then it reports the tip, and enters nothing. -/
theorem plant_stamps {id : AccountId} {out : Outcome PlantReceipt} (hl : ledger.Housed)
    (h : plant id ledger = .ok out) : 0 ≤ out.result.index ∧ (out.result.quantity ≠ 0 →
      ∃ position, out.ledger.positionAt id ledger.charter.baseAsset out.result.index =
        some position) := by
  obtain ⟨mown, quantity, entry, hmow, -, hentry, hplant⟩ := plant_stages h
  obtain ⟨hmoves, -⟩ := mow_moves hmow
  have hnonneg : 0 ≤ entry.accrualIndex := by
    rw [Signed.le_iff, Signed.toInt_zero, ← Ledger.tip_eq hentry]
    exact (hmoves.housed hl).tip_nonneg _
  rcases hplant with ⟨-, rfl⟩ | ⟨stalk, pool, tip, added, booked, credited, event, -, -, htip, hadd,
    hbook, hcredit, -, rfl⟩
  · exact ⟨hnonneg, fun hne => absurd rfl hne⟩
  · obtain rfl := Except.ok.inj (hentry.symm.trans htip)
    obtain ⟨position, hposition⟩ := positionAt_of_add hadd
    obtain ⟨_, -, rfl⟩ := creditValue_eq_ok.mp hbook
    obtain ⟨_, _, _, -, -, rfl⟩ := creditStalk_spec hcredit
    exact ⟨hnonneg, fun _ => ⟨position, hposition⟩⟩

namespace Vault

variable {vault : Vault} {answer : Answer}

/-- A deposit that is answered has taken place, at what the quantity is worth. -/
theorem deposit_of_answer {owner : AccountId} {asset : AssetId} {quantity : Amount}
    (hentered : vault.entered = false)
    (h : (serve (.deposit owner asset quantity) vault).1.result = .ok answer) :
    ∃ value out, Action.deposit owner asset quantity value vault.ledger = .ok out ∧
      (serve (.deposit owner asset quantity) vault).2.ledger = out.ledger ∧
        answer = .deposited out.result := by
  rw [serve] at h ⊢
  obtain ⟨out, hrun, hledger, rfl⟩ := (transact_changed hentered).answered h
  obtain ⟨value, -, hdeposit⟩ := lift_bind.mp hrun
  exact ⟨value, out, hdeposit, hledger, rfl⟩

/-- So has a planting. -/
theorem plant_of_answer {id : AccountId} (hentered : vault.entered = false)
    (h : (serve (.plant id) vault).1.result = .ok answer) :
    ∃ out, Action.plant id vault.ledger = .ok out ∧
      (serve (.plant id) vault).2.ledger = out.ledger ∧ answer = .planted out.result := by
  rw [serve] at h ⊢
  obtain ⟨out, hrun, hledger, rfl⟩ := (transact_changed hentered).answered h
  exact ⟨out, hrun, hledger, rfl⟩

/-- **No index means two things.**  Take any asset with older positions whose legacy epochs are some way
apart: its indices are looked up in the legacy store just where a legacy epoch stands for them, and
under that epoch, and in the current store otherwise; and legacy epochs have different indices.  After
any requests to a new vault, the index that a deposit or a planting gives to its position is looked up
in the current store, whatever the asset and the charter by then. -/
theorem locations_exact :
    (∀ (entry : Asset) (charter : Charter) (terms : LegacyTerms), entry.legacy = some terms →
      0 < terms.ratePerEpoch → entry.Resolves charter terms) ∧
    ∀ (charter : Charter) (start : Vault), genesis charter = .ok start → ∀ requests : List Request,
      let vault := (run requests start).2
      (∀ owner asset quantity receipt,
        (serve (.deposit owner asset quantity) vault).1.result = .ok (.deposited receipt) →
          (∃ position, (serve (.deposit owner asset quantity) vault).2.ledger.positionAt owner asset
            receipt.index = some position) ∧
          ∀ (entry : Asset) (charter' : Charter),
            entry.locate charter' receipt.index = .current receipt.index) ∧
      ∀ id receipt, (serve (.plant id) vault).1.result = .ok (.planted receipt) →
        (receipt.quantity ≠ 0 → ∃ position, (serve (.plant id) vault).2.ledger.positionAt id
          vault.ledger.charter.baseAsset receipt.index = some position) ∧
        ∀ (entry : Asset) (charter' : Charter),
          entry.locate charter' receipt.index = .current receipt.index := by
  refine ⟨fun entry charter terms hterms hrate => Asset.locate_resolves charter hterms ?_,
    fun charter start h requests => ?_⟩
  · rwa [Signed.lt_iff, Signed.toInt_zero] at hrate
  obtain ⟨horderly, hentered⟩ := orderly h requests
  have hhoused := horderly.consistent.housed
  refine ⟨fun owner asset quantity receipt hanswer => ?_, fun id receipt hanswer => ?_⟩
  · obtain ⟨value, out, hdeposit, hledger, hreceipt⟩ := deposit_of_answer hentered hanswer
    obtain rfl := Answer.deposited.inj hreceipt
    obtain ⟨hnonneg, hposition⟩ := deposit_stamps hhoused hdeposit
    exact ⟨hledger ▸ hposition, fun entry charter => entry.locate_of_nonneg charter hnonneg⟩
  · obtain ⟨out, hplant, hledger, hreceipt⟩ := plant_of_answer hentered hanswer
    obtain rfl := Answer.planted.inj hreceipt
    obtain ⟨hnonneg, hposition⟩ := plant_stamps hhoused hplant
    exact ⟨hledger ▸ hposition, fun entry charter => entry.locate_of_nonneg charter hnonneg⟩

/-- Asset 1 has older positions: index -8 stands for epoch 6, and the smallest of all indices for none.
What account 7 then deposits is at the tip. -/
theorem locations_exact_sample :
    let entry : Asset := ⟨10000, 3, 9, some ⟨2, true⟩, 75, 82, true, 10⟩
    let vault := (run sampleRequests sample).2
    (entry.legacy = some ⟨2, true⟩ ∧ (0 : Index) < 2 ∧ entry.Resolves ⟨10, 10, 0, 9⟩ ⟨2, true⟩ ∧
      entry.locate ⟨10, 10, 0, 9⟩ (.ofInt (-8)) = .legacy (.ofInt (-8)) 6 ∧
      entry.locate ⟨10, 10, 0, 9⟩ .minimum = .current .minimum) ∧
    genesis ⟨10, 10, 0, 9⟩ = .ok sample ∧
      ∃ receipt, (serve (.deposit 7 1 4) vault).1.result = .ok (.deposited receipt) ∧
        (∃ position, (serve (.deposit 7 1 4) vault).2.ledger.positionAt 7 1 receipt.index =
          some position) ∧
        ∀ (entry : Asset) (charter' : Charter),
          entry.locate charter' receipt.index = .current receipt.index := by
  have hresolves : (⟨10000, 3, 9, some ⟨2, true⟩, 75, 82, true, 10⟩ : Asset).Resolves
      ⟨10, 10, 0, 9⟩ ⟨2, true⟩ := locations_exact.1 _ _ _ rfl (by decide)
  refine ⟨⟨rfl, by decide, hresolves, (hresolves.legacy_iff _ _).mpr (by decide +kernel),
    hresolves.current _ fun epoch hstart hend h => ?_⟩, genesis_sample, ?_⟩
  · -- The smallest index is further away than any epoch of the legacy range.
    rw [LegacyTerms.indexOf_eq_ok] at h
    have hfar : (Signed.minimum : Index).toInt < -20 := by decide
    have hnear : -20 ≤ ((epoch.toNat : ℤ) - 10) * 2 := by omega
    exact absurd (h ▸ hfar) (not_lt.mpr hnear)
  · have hok : (serve (.deposit 7 1 4) (run sampleRequests sample).2).1.result.toOption.isSome =
        true := by decide +kernel
    obtain ⟨answer, hanswer⟩ := exists_ok hok
    obtain ⟨value, out, -, -, rfl⟩ :=
      deposit_of_answer (orderly genesis_sample sampleRequests).2 hanswer
    exact ⟨out.result, hanswer,
      (locations_exact.2 _ _ genesis_sample sampleRequests).1 7 1 4 out.result hanswer⟩

end Vault

end StalkLedger
