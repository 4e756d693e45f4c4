import StalkLedger.Proofs.Tally

/-!
# Stalk is backed by positions

The stalk of an account is what its positions back and nothing else: the value of each position, once
for each unit of stalk that a unit of value gives, and once for each step from the index of the
position up to the checkpoint of the account (`Vault.stalk_backed`).

A ledger in balance says so of an account as a whole, with the value booked in its checkpoints.  Here
the positions are sorted into the assets of the checkpoints (`Ledger.sum_placed`), each of which
accounts for its own.
-/

namespace StalkLedger

namespace Ledger

variable {ledger : Ledger}

/-- The stalk that the positions of an account in an asset back. -/
def backing (ledger : Ledger) (id : AccountId) (asset : AssetId) (checkpoint : Checkpoint) : ℤ :=
  ((ledger.positionsOf id asset).map fun (index, position) => (position.value.toNat : ℤ) *
      (ledger.stalkPerValue asset + checkpoint.lastIndex.toInt - index.toInt)).sum +
    ((ledger.legacyPositionsOf id asset).map fun (epoch, position) => (position.value.toNat : ℤ) *
      (ledger.stalkPerValue asset + checkpoint.lastIndex.toInt -
        ledger.legacyIndex asset epoch)).sum

/-- The stalk of an account is backed by its positions. -/
structure Backed (ledger : Ledger) (id : AccountId) : Prop where
  stalk : ((ledger.account id).stalk.toNat : ℤ) =
    (ledger.account id).checkpoints.sum (ledger.backing id)
  /-- Checkpoints are in listed assets. -/
  listed : ∀ asset checkpoint, (ledger.account id).checkpoints.get? asset = some checkpoint →
    ∃ entry, ledger.asset asset = .ok entry ∧
      ledger.stalkPerValue asset = entry.stalkPerValue.toNat
  /-- Every position is in an asset with a checkpoint, and no further than it. -/
  realized : ∀ asset index position, (index, position) ∈ ledger.positionsOf id asset →
    ∃ checkpoint, (ledger.account id).checkpoints.get? asset = some checkpoint ∧
      index.toInt ≤ checkpoint.lastIndex.toInt
  /-- So is every legacy position, at the index that its epoch stands for. -/
  legacyRealized : ∀ asset epoch position, (epoch, position) ∈ ledger.legacyPositionsOf id asset →
    ∃ checkpoint terms index, (ledger.account id).checkpoints.get? asset = some checkpoint ∧
      ledger.legacyTerms asset = .ok terms ∧ terms.indexOf ledger.charter epoch = .ok index ∧
        ledger.legacyIndex asset epoch = index.toInt ∧
          index.toInt ≤ checkpoint.lastIndex.toInt

/-! ### Positions by asset -/

theorem mem_stored {μ : Type} [Key μ] {store : SortedMap (Slot μ) Position} {owner : AccountId}
    {asset : AssetId} {mark : μ} {position : Position} :
    (mark, position) ∈ stored store owner asset ↔
      store.get? ⟨owner, asset, mark⟩ = some position := by
  rw [stored, List.mem_filterMap, ← SortedMap.mem_entries_iff]
  constructor
  · rintro ⟨⟨slot, position'⟩, hmem, h⟩
    dsimp only at h
    split at h
    next hplace =>
      obtain ⟨rfl, rfl⟩ := hplace
      cases h
      exact hmem
    next => cases h
  · intro hmem
    exact ⟨_, hmem, by simp⟩

/-- Where every position of an account is in an asset of some map, the positions are those in its
assets, each counted once. -/
theorem sum_weighed {μ : Type} [Key μ] (store : SortedMap (Slot μ) Position)
    (checkpoints : SortedMap AssetId Checkpoint) (id : AccountId) (f : AssetId → μ → ℤ)
    (h : ∀ slot position, store.get? slot = some position → slot.owner = id →
      ∃ checkpoint, checkpoints.get? slot.asset = some checkpoint) :
    (checkpoints.sum fun asset _ => store.weighed fun slot =>
      (0, if slot.owner = id ∧ slot.asset = asset then f slot.asset slot.mark else 0)) =
      store.weighed fun slot => (0, if slot.owner = id then f slot.asset slot.mark else 0) := by
  refine (SortedMap.sum_comm ..).trans (SortedMap.sum_congr fun slot position hget => ?_)
  dsimp only
  by_cases hid : slot.owner = id
  · obtain ⟨checkpoint, hcheckpoint⟩ := h slot position hget hid
    refine (SortedMap.sum_eq_single hcheckpoint ?_).trans ?_
    · intro asset _ _ hne
      rw [if_neg fun hplace => hne hplace.2.symm]
      exact position.weigh_zero
    · rw [if_pos ⟨hid, rfl⟩, if_pos hid]
  · rw [if_neg hid]
    refine (SortedMap.sum_eq_zero fun asset _ _ => ?_).trans position.weigh_zero.symm
    rw [if_neg fun hplace => hid hplace.1]
    exact position.weigh_zero

/-- What the positions of an account count is summed asset by asset. -/
theorem sum_placed (h : ledger.Housed) (id : AccountId) (f : ℤ → ℤ) :
    ((ledger.account id).checkpoints.sum fun asset _ => ledger.holdings (placed id asset f)) =
      ledger.holdings fun owner _ index => (0, if owner = id then f index else 0) := by
  rw [holdings, ← sum_weighed ledger.deposits (ledger.account id).checkpoints id
      fun _ mark => f mark.toInt,
    ← sum_weighed ledger.legacyDeposits (ledger.account id).checkpoints id
      fun asset mark => f (ledger.legacyIndex asset mark), ← SortedMap.sum_add]
  · rfl
  · rintro slot position hget rfl
    obtain ⟨-, -, ⟨checkpoint, hcheckpoint, -⟩, -⟩ := h.legacyDeposits slot position hget
    exact ⟨checkpoint, hcheckpoint⟩
  · rintro slot position hget rfl
    obtain ⟨-, -, checkpoint, hcheckpoint, -⟩ := h.deposits slot position hget
    exact ⟨checkpoint, hcheckpoint⟩

/-- Where the value of the positions is booked, a checkpoint accounts for what they back, and for
what they had grown before their indices. -/
theorem backing_eq {id : AccountId} {asset : AssetId} {checkpoint : Checkpoint}
    (hbooked : ledger.valueUnbooked id asset = 0)
    (hget : (ledger.account id).checkpoints.get? asset = some checkpoint) :
    ledger.backing id asset checkpoint =
      ledger.standing asset checkpoint - ledger.holdings (placed id asset fun index => index) := by
  have hlisted : ledger.backing id asset checkpoint = ledger.holdings (placed id asset fun index =>
      ledger.stalkPerValue asset + checkpoint.lastIndex.toInt - index) :=
    (holdings_placed ledger id asset _).symm
  have hvalue : (checkpoint.value.toNat : ℤ) = ledger.holdings (valuesOf id asset) := by
    rw [valueUnbooked, Account.checkpoint, hget, Option.getD_some] at hbooked
    exact sub_eq_zero.mp hbooked
  rw [hlisted, standing, hvalue]
  refine holdings_of_eq ledger fun owner asset' index => ?_
  rw [placed, valuesOf, placed]
  split
  · simp
  · simp

namespace Housed

/-- The stalk that is due is what an account has beyond what its positions back. -/
theorem stalkDue_eq (h : ledger.Housed) {id : AccountId}
    (hbooked : ∀ asset, ledger.valueUnbooked id asset = 0) :
    ledger.stalkDue id = (ledger.account id).stalk.toNat -
      (ledger.account id).checkpoints.sum (ledger.backing id) := by
  have hbacking : (ledger.account id).checkpoints.sum (ledger.backing id) =
      (ledger.account id).checkpoints.sum fun asset checkpoint =>
        ledger.standing asset checkpoint + -1 *
          ledger.holdings (placed id asset fun index => index) :=
    SortedMap.sum_congr fun asset checkpoint hget => by
      rw [backing_eq (hbooked asset) hget]
      ring
  -- No position is outside the assets of the checkpoints, so these leave none out.
  have hmarks : ((ledger.account id).checkpoints.sum fun asset _ =>
      ledger.holdings (placed id asset fun index => index)) = ledger.holdings (marksOf id) :=
    sum_placed h id fun index => index
  rw [stalkDue, hbacking, SortedMap.sum_add, SortedMap.sum_mul_left, hmarks]
  ring

/-- No position backs less than nothing: none is beyond the checkpoint in its asset. -/
theorem backing_nonneg (h : ledger.Housed) {id : AccountId} {asset : AssetId}
    {checkpoint : Checkpoint}
    (hget : (ledger.account id).checkpoints.get? asset = some checkpoint) :
    0 ≤ ledger.backing id asset checkpoint := by
  have hstalk := ledger.stalkPerValue_nonneg asset
  have counts {index : ℤ} (position : Position) (hle : index ≤ checkpoint.lastIndex.toInt) :
      0 ≤ (position.value.toNat : ℤ) *
        (ledger.stalkPerValue asset + checkpoint.lastIndex.toInt - index) :=
    mul_nonneg (Int.natCast_nonneg _) (by omega)
  refine add_nonneg (List.sum_nonneg ?_) (List.sum_nonneg ?_)
  · intro x hx
    obtain ⟨⟨index, position⟩, hmem, rfl⟩ := List.mem_map.mp hx
    obtain ⟨-, -, checkpoint', hget', hle⟩ := h.deposits _ position (mem_stored.mp hmem)
    obtain rfl := Option.some.inj (hget.symm.trans hget')
    exact counts position hle
  · intro x hx
    obtain ⟨⟨epoch, position⟩, hmem, rfl⟩ := List.mem_map.mp hx
    obtain ⟨-, -, ⟨checkpoint', hget', hle⟩, hindexed⟩ :=
      h.legacyDeposits _ position (mem_stored.mp hmem)
    obtain rfl := Option.some.inj (hget.symm.trans hget')
    exact counts position ((h.legacyIndex_nonpos hindexed).trans hle)

/-- The stalk that is due to be burned or handed over is there. -/
theorem stalkDue_le (h : ledger.Housed) {id : AccountId}
    (hbooked : ∀ asset, ledger.valueUnbooked id asset = 0) :
    ledger.stalkDue id ≤ (ledger.account id).stalk.toNat := by
  have hnn : 0 ≤ (ledger.account id).checkpoints.sum (ledger.backing id) :=
    SortedMap.sum_nonneg fun _ _ hget => h.backing_nonneg hget
  rw [h.stalkDue_eq hbooked]
  exact sub_le_self _ hnn

end Housed

/-- **What a consistent ledger says of the stalk of an account.** -/
theorem Consistent.backed (h : ledger.Consistent) (id : AccountId) : ledger.Backed id where
  stalk := by
    have hdue := h.housed.stalkDue_eq (h.balanced.booked id)
    rw [h.balanced.due id] at hdue
    exact (sub_eq_zero.mp hdue.symm)
  listed := by
    intro asset checkpoint hget
    obtain ⟨-, entry, hentry, -⟩ := h.housed.checkpoint hget
    exact ⟨entry, asset_eq_ok.mpr hentry, stalkPerValue_eq (asset_eq_ok.mpr hentry)⟩
  realized := by
    intro asset index position hmem
    obtain ⟨-, -, checkpoint, hget, hle⟩ := h.housed.deposits _ position (mem_stored.mp hmem)
    exact ⟨checkpoint, hget, hle⟩
  legacyRealized := by
    intro asset epoch position hmem
    obtain ⟨-, -, ⟨checkpoint, hget, hle⟩, hindexed⟩ :=
      h.housed.legacyDeposits _ position (mem_stored.mp hmem)
    have hnonpos := h.housed.legacyIndex_nonpos hindexed
    obtain ⟨-, terms, index, hterms, hindex⟩ := hindexed
    have heq := legacyIndex_eq hterms hindex
    exact ⟨checkpoint, terms, index, hget, hterms, hindex, heq,
      (heq.symm.trans_le hnonpos).trans hle⟩

end Ledger

namespace Vault

/-- **Stalk is backed by positions.**  After any requests to a new vault, the stalk of every account
is what its positions back: over all assets with a checkpoint, over the positions there in both
stores, the value times the stalk for a unit of value and the steps from the index of the position to
the checkpoint.  The steps are never less than zero, and no position is left out. -/
theorem stalk_backed {charter : Charter} {start : Vault} (h : genesis charter = .ok start)
    (requests : List Request) (id : AccountId) : (run requests start).2.ledger.Backed id :=
  (consistent h requests).backed id

theorem stalk_backed_sample : genesis ⟨10, 10, 0, 9⟩ = .ok sample ∧
    ((run sampleRequests sample).2.ledger.account 7).stalk = 340420 ∧
      (run sampleRequests sample).2.ledger.Backed 7 :=
  ⟨genesis_sample, by decide +kernel, stalk_backed genesis_sample sampleRequests 7⟩

end Vault

end StalkLedger
