import Mathlib.Algebra.BigOperators.Ring.Finset
import StalkLedger.Proofs.Balance

/-!
# The books and the positions

The quantity and the value of an asset are told three times: by the positions of both stores, by the
totals of the asset, and, as far as value goes, by what is booked for each account.

* The totals are those of the positions after every move (`Move.tallied`) and every transition
  (`Transition.tallied`): what is put into a store or taken out of it is put on or taken off the
  totals of its asset.
* So the three agree after any requests (`Vault.books_agree`), the value booked for accounts because
  the ledger is in balance.
-/

namespace StalkLedger

/-! ### Positions in lists -/

namespace Ledger

variable {μ : Type} [Key μ]

/-- A sum over the positions of an account in an asset is a sum over the store. -/
theorem sum_stored (store : SortedMap (Slot μ) Position) (owner : AccountId) (asset : AssetId)
    (f : μ → Position → ℤ) :
    ((stored store owner asset).map fun e => f e.1 e.2).sum = store.sum fun slot position =>
      if slot.owner = owner ∧ slot.asset = asset then f slot.mark position else 0 := by
  rw [stored, SortedMap.sum]
  induction store.entries with
  | nil => rfl
  | cons e es ih =>
    rw [List.map_cons, List.sum_cons, ← ih]
    by_cases h : e.1.owner = owner ∧ e.1.asset = asset
    · simp [h]
    · simp [h]

theorem measured_eq_sum (store : SortedMap (Slot μ) Position) (asset : AssetId)
    (measure : Position → Amount) : (measured store asset measure : ℤ) =
      store.sum fun slot position =>
        if slot.asset = asset then ((measure position).toNat : ℤ) else 0 := by
  rw [measured, ← List.sum_eq_foldr, ← store.sum_natCast fun slot position =>
    if slot.asset = asset then (measure position).toNat else 0]
  refine SortedMap.sum_congr fun slot position _ => ?_
  push_cast
  rfl

/-- The positions of an account in an asset count their value, as often as is said of their index. -/
def placed (id : AccountId) (asset : AssetId) (f : ℤ → ℤ) : Weight :=
  fun owner asset' index => (0, if owner = id ∧ asset' = asset then f index else 0)

/-- A sum over the positions of an account in an asset, as they are listed. -/
theorem holdings_placed (ledger : Ledger) (id : AccountId) (asset : AssetId) (f : ℤ → ℤ) :
    ledger.holdings (placed id asset f) =
      ((ledger.positionsOf id asset).map fun e => (e.2.value.toNat : ℤ) * f e.1.toInt).sum +
        ((ledger.legacyPositionsOf id asset).map fun e =>
          (e.2.value.toNat : ℤ) * f (ledger.legacyIndex asset e.1)).sum := by
  rw [positionsOf, legacyPositionsOf,
    sum_stored _ _ _ fun (mark : Index) position => (position.value.toNat : ℤ) * f mark.toInt,
    sum_stored _ _ _ fun (mark : Epoch) position =>
      (position.value.toNat : ℤ) * f (ledger.legacyIndex asset mark)]
  refine congrArg₂ HAdd.hAdd (SortedMap.sum_congr ?_) (SortedMap.sum_congr ?_)
  · intro slot position _
    dsimp only [Position.weigh, placed]
    rw [zero_mul, zero_add]
    split
    · exact Int.mul_comm _ _
    · exact Int.zero_mul _
  · intro slot position _
    dsimp only [Position.weigh, placed]
    rw [zero_mul, zero_add]
    split
    next h => rw [h.2, mul_comm]
    next => exact Int.zero_mul _

end Ledger

/-! ### The totals of assets -/

/-- All that is held in an asset, as if it were one position. -/
def Asset.held (entry : Asset) : Position := ⟨entry.totalQuantity, entry.totalValue⟩

namespace Ledger

variable {ledger ledger' : Ledger}

/-- The positions in an asset all count the same. -/
def amountsIn (asset : AssetId) (weight : ℤ × ℤ) : Weight :=
  fun _ asset' _ => if asset' = asset then weight else 0

/-- The totals of every asset are those of the positions in it. -/
def Tallied (ledger : Ledger) : Prop :=
  ∀ asset entry, ledger.assets.get? asset = some entry →
    ∀ weight, entry.held.weigh weight = ledger.holdings (amountsIn asset weight)

/-- Where a position counts the same at any index, the terms do not matter. -/
theorem holdings_amountsIn_congr (hdeposits : ledger'.deposits = ledger.deposits)
    (hlegacy : ledger'.legacyDeposits = ledger.legacyDeposits) (asset : AssetId) (weight : ℤ × ℤ) :
    ledger'.holdings (amountsIn asset weight) = ledger.holdings (amountsIn asset weight) := by
  rw [holdings, hdeposits, hlegacy]
  rfl

/-- Entries may change in anything but what is held. -/
theorem Tallied.of_assets (h : ledger.Tallied) (hdeposits : ledger'.deposits = ledger.deposits)
    (hlegacy : ledger'.legacyDeposits = ledger.legacyDeposits)
    (hassets : ∀ asset entry', ledger'.assets.get? asset = some entry' →
      ∃ entry, ledger.assets.get? asset = some entry ∧ entry'.held = entry.held) :
    ledger'.Tallied := by
  intro asset entry' hget weight
  obtain ⟨entry, hentry, hheld⟩ := hassets asset entry' hget
  rw [holdings_amountsIn_congr hdeposits hlegacy, hheld]
  exact h asset entry hentry weight

/-- A change of the accounts or of the totals of stalk. -/
theorem Tallied.of_assets_eq (h : ledger.Tallied) (hassets : ledger'.assets = ledger.assets)
    (hdeposits : ledger'.deposits = ledger.deposits)
    (hlegacy : ledger'.legacyDeposits = ledger.legacyDeposits) : ledger'.Tallied :=
  h.of_assets hdeposits hlegacy fun _ entry hget => ⟨entry, hassets ▸ hget, rfl⟩

/-- There is more at a place in an asset, and its totals follow. -/
theorem Tallied.withAsset {owner : AccountId} {asset : AssetId} {index quantity value : ℤ}
    {entry entry' : Asset} (h : ledger.Tallied)
    (hgains : Gains ledger ledger' owner asset index quantity value)
    (hassets : ledger'.assets = ledger.assets) (he : ledger.asset asset = .ok entry)
    (hs : entry'.emptied = entry.emptied)
    (hq : (entry'.totalQuantity.toNat : ℤ) = entry.totalQuantity.toNat + quantity)
    (hv : (entry'.totalValue.toNat : ℤ) = entry.totalValue.toNat + value) :
    (ledger'.withAsset asset entry').Tallied := by
  have he' : ledger'.asset asset = .ok entry := asset_eq_ok.mpr (hassets ▸ asset_eq_ok.mp he)
  intro asset' entry'' hget weight
  rw [holdings_withAsset he' hs, hgains, amountsIn]
  rw [Ledger.withAsset, SortedMap.get?_insert] at hget
  by_cases heq : asset' = asset
  · subst heq
    rw [if_pos rfl] at hget
    cases hget
    rw [← h _ _ (asset_eq_ok.mp he), if_pos rfl, Position.weigh, Asset.held, hq, hv, Position.weigh,
      Asset.held]
    ring
  · rw [if_neg heq, hassets] at hget
    rw [h _ _ hget, if_neg (Ne.symm heq), Prod.fst_zero, Prod.snd_zero, zero_mul, zero_mul, add_zero,
      add_zero]

/-- Nothing is held in an asset that is not listed. -/
theorem Housed.holdings_of_unlisted (h : ledger.Housed) {asset : AssetId}
    (hnone : ledger.assets.get? asset = none) (weight : ℤ × ℤ) :
    ledger.holdings (amountsIn asset weight) = 0 := by
  -- Whoever has a position has a checkpoint in its asset, and checkpoints are in listed assets.
  have elsewhere {id : AccountId} {asset' : AssetId} {index : ℤ}
      (hr : ledger.Reached id asset' index) : asset' ≠ asset := by
    rintro rfl
    obtain ⟨checkpoint, hget, -⟩ := hr
    obtain ⟨-, entry, hentry, -⟩ := h.checkpoint hget
    rw [hnone] at hentry
    cases hentry
  have nothing {asset' : AssetId} (hne : asset' ≠ asset) (position : Position) :
      position.weigh (if asset' = asset then weight else 0) = 0 := by
    rw [if_neg hne, Position.weigh_zero]
  have hdeposits : (ledger.deposits.weighed fun slot =>
      amountsIn asset weight slot.owner slot.asset slot.mark.toInt) = 0 :=
    SortedMap.sum_eq_zero fun slot position hget =>
      nothing (elsewhere (h.deposits slot position hget).2.2) position
  have hlegacy : (ledger.legacyDeposits.weighed fun slot =>
      amountsIn asset weight slot.owner slot.asset (ledger.legacyIndex slot.asset slot.mark)) = 0 :=
    SortedMap.sum_eq_zero fun slot position hget =>
      nothing (elsewhere (h.legacyDeposits slot position hget).2.2.1) position
  rw [holdings, hdeposits, hlegacy, add_zero]

end Ledger

open StalkLedger.Action Ledger

/-! ### Moves -/

/-- **Moves keep the totals.** -/
theorem Move.tallied {ledger ledger' : Ledger} {more : Imbalance} {events : Event.Log}
    (h : Move ledger more events ledger') (ht : ledger.Tallied) : ledger'.Tallied := by
  cases h with
  | update h =>
    rcases updateAccount_eq_ok.mp h with ⟨-, rfl⟩ | ⟨-, flood, -, rfl⟩
    · exact ht.of_assets_eq rfl rfl rfl
    · exact ht.of_assets_eq rfl rfl rfl
  | realize hu he hg => exact ht.of_assets_eq rfl rfl rfl
  | mint hu hs h =>
    obtain ⟨_, totals, credited, -, -, hc, rfl⟩ := (mintStalk_eq_ok hs).mp h
    obtain ⟨_, _, _, -, -, rfl⟩ := creditStalk_spec hc
    exact ht.of_assets_eq rfl rfl rfl
  | burn hu hs h =>
    obtain ⟨_, totals, debited, -, -, hd, rfl⟩ := (burnStalk_eq_ok hs).mp h
    obtain ⟨_, _, _, -, -, rfl⟩ := debitStalk_spec hd
    exact ht.of_assets_eq rfl rfl rfl
  | handOver hu hu' hs h =>
    obtain ⟨_, debited, credited, -, hd, hc, rfl⟩ := (transferStalk_eq_ok hs).mp h
    obtain ⟨_, _, _, -, -, rfl⟩ := debitStalk_spec hd
    obtain ⟨_, _, _, -, -, rfl⟩ := creditStalk_spec hc
    exact ht.of_assets_eq rfl rfl rfl
  | credit hu h =>
    obtain ⟨_, _, _, -, -, rfl⟩ := creditStalk_spec h
    exact ht.of_assets_eq rfl rfl rfl
  | drawPool h => exact ht.of_assets_eq rfl rfl rfl
  | book hc h =>
    obtain ⟨held, -, rfl⟩ := creditValue_eq_ok.mp h
    exact ht.of_assets_eq rfl rfl rfl
  | unbook hc h =>
    obtain ⟨held, -, rfl⟩ := debitValue_eq_ok.mp h
    exact ht.of_assets_eq rfl rfl rfl
  | enter hi h =>
    obtain ⟨deposits, entry, entry', -, -, -, hput, he, htake, rfl⟩ := addPositionAt_eq_ok.mp h
    obtain ⟨quantity, value, hq, hv, rfl⟩ := Asset.take_eq_ok.mp htake
    exact ht.withAsset (gains_put hput) rfl he rfl (congrArg Nat.cast hq) (congrArg Nat.cast hv)
  | remove ha h =>
    obtain ⟨value, taken, entry, entry', -, he, htake, hr, rfl⟩ := (removePosition_eq_ok ha).mp h
    obtain ⟨quantity, rest, hq, hv, rfl⟩ := Asset.release_eq_ok.mp hr
    have hgains := gains_takeAt he htake
    obtain ⟨deposits, legacyDeposits, rfl⟩ := (taken_of_takeAt htake).frame
    exact ht.withAsset hgains rfl he rfl (by rw [← hq, Nat.cast_add, add_neg_cancel_right])
      (by rw [← hv, Nat.cast_add, add_neg_cancel_right])
  | importLegacy hc hr hterms hi hq hv hp he he' =>
    obtain ⟨quantity, value, hq', hv', rfl⟩ := Asset.take_eq_ok.mp he'
    exact ht.withAsset (gains_putLegacy hterms hi hp) rfl he rfl (congrArg Nat.cast hq')
      (congrArg Nat.cast hv')
  | migrate hc hr hterms hi hg hp =>
    intro asset entry hget weight
    rw [holdings_migrate hg (legacyIndex_eq hterms hi) hp]
    exact ht asset entry hget weight
  | note event => exact ht

theorem Moves.tallied {ledger ledger' : Ledger} {more : Imbalance} {events : Event.Log}
    (h : Moves ledger more events ledger') (ht : ledger.Tallied) : ledger'.Tallied := by
  induction h with
  | refl => exact ht
  | step h _ ih => exact ih (h.tallied ht)

/-! ### Transitions -/

/-- An entry is put in the place of another that holds as much. -/
theorem Ledger.Tallied.replace {ledger : Ledger} (h : ledger.Tallied) {id : AssetId}
    {entry entry' : Asset} (he : ledger.asset id = .ok entry) (hheld : entry'.held = entry.held) :
    (ledger.withAsset id entry').Tallied := by
  refine h.of_assets rfl rfl ?_
  intro asset entry'' hget
  rw [Ledger.withAsset, SortedMap.get?_insert] at hget
  split at hget
  next heq =>
    cases hget
    exact ⟨entry, heq ▸ asset_eq_ok.mp he, hheld⟩
  next => exact ⟨entry'', hget, rfl⟩

/-- **Transitions keep the totals.** -/
theorem Transition.tallied {ledger ledger' : Ledger} {paid : AccountId → ℕ} {events : Event.Log}
    (h : Transition ledger paid events ledger') (hl : ledger.Housed) (ht : ledger.Tallied) :
    ledger'.Tallied := by
  cases h with
  | posting h => exact h.tallied ht
  | claim h =>
    obtain ⟨updated, totalClaimed, hu, -, -, rfl⟩ := claimFlood_stages h
    exact ((Move.update hu).tallied ht).of_assets_eq rfl rfl rfl
  | @whitelist id terms _ h =>
    obtain ⟨-, hnew, -, rfl⟩ := whitelist_stages h
    intro asset entry hget weight
    have hsame : (ledger.withAsset id (.whitelisted terms ledger.epoch)).holdings
        (amountsIn asset weight) = ledger.holdings (amountsIn asset weight) := by
      apply holdings_amountsIn_congr <;> rfl
    refine Eq.trans ?_ hsame.symm
    rw [Ledger.withAsset, SortedMap.get?_insert] at hget
    split at hget
    next heq =>
      cases hget
      rw [heq, hl.holdings_of_unlisted hnew]
      exact Position.weigh_nothing weight
    next => exact ht asset entry hget weight
  | dewhitelist h =>
    obtain ⟨entry, he, rfl⟩ := dewhitelist_stages h
    exact ht.replace he rfl
  | setAccrualRate h =>
    obtain ⟨hrate, entry, he, rfl⟩ := setAccrualRate_stages h
    exact ht.replace he rfl
  | reward h =>
    rcases receiveReward_stages h with ⟨-, rfl⟩ | ⟨_, _, _, _, -, -, -, -, rfl⟩
    · exact ht
    · exact ht.of_assets_eq rfl rfl rfl
  | advance h =>
    rcases advanceEpoch_frame h with heq | ⟨elapsed, assets, totals, floodBook, -, hgrow, heq⟩
    · rw [heq]
      exact ht
    rw [heq]
    refine ht.of_assets rfl rfl ?_
    intro id entry' hget
    rcases SortedMap.get?_of_mapEach hgrow id with ⟨-, hnone⟩ | ⟨entry, e, hentry, hg, he⟩
    · exact absurd (hget.symm.trans hnone) (Option.some_ne_none _)
    · obtain rfl := Option.some.inj (he.symm.trans hget)
      obtain ⟨_, -, rfl⟩ := Asset.grow_spec hg
      exact ⟨entry, hentry, rfl⟩

/-! ### Runs -/

/-- The books agree with the positions, and all that is in them has its place. -/
structure Ledger.Consistent (ledger : Ledger) : Prop where
  housed : ledger.Housed
  balanced : ledger.Balanced
  tallied : ledger.Tallied

theorem Transition.consistent {ledger ledger' : Ledger} {paid : AccountId → ℕ} {events : Event.Log}
    (h : Transition ledger paid events ledger') (hl : ledger.Consistent) : ledger'.Consistent :=
  ⟨h.housed hl.housed, h.balanced hl.housed hl.balanced, h.tallied hl.housed hl.tallied⟩

/-- A new ledger has nothing in its books. -/
theorem Ledger.consistent_of_genesis {charter : Charter} {ledger : Ledger}
    (h : Ledger.genesis charter = .ok ledger) : ledger.Consistent := by
  simp only [Ledger.genesis, bind_eq_ok, StalkLedger.pure_eq_ok] at h
  obtain ⟨_, -, rfl⟩ := h
  have none {κ α : Type} [Key κ] {P : Prop} {k : κ} {a : α}
      (h : (∅ : SortedMap κ α).get? k = some a) : P := absurd h (SortedMap.get?_empty_ne_some k a)
  refine ⟨⟨none, none, fun _ _ => none, fun _ _ => none⟩, ⟨fun _ => ?_, fun _ _ => ?_⟩,
    fun _ _ => none⟩
  · rfl
  · rfl

namespace Ledger.Consistent

variable {ledger : Ledger}

/-- The totals of an asset are summed over both stores. -/
theorem total_eq (h : ledger.Consistent) {asset : AssetId} {entry : Asset}
    (he : ledger.asset asset = .ok entry) :
    entry.totalQuantity.toNat = ledger.storedQuantity asset ∧
      entry.totalValue.toNat = ledger.storedValue asset := by
  have hheld := h.tallied asset entry (asset_eq_ok.mp he)
  have measure {μ : Type} [Key μ] (store : SortedMap (Slot μ) Position) {weight : ℤ × ℤ}
      {measure : Position → Amount}
      (hw : ∀ position : Position, position.weigh weight = (measure position).toNat) :
      (store.weighed fun slot => if slot.asset = asset then weight else 0) =
        measured store asset measure := by
    rw [measured_eq_sum]
    refine SortedMap.sum_congr fun slot position _ => ?_
    dsimp only
    split
    · exact hw position
    · exact Position.weigh_zero position
  constructor
  · have hsum := hheld (1, 0)
    rw [Position.weigh_quantity] at hsum
    exact_mod_cast hsum.trans (congrArg₂ HAdd.hAdd (measure _ Position.weigh_quantity)
      (measure _ Position.weigh_quantity))
  · have hsum := hheld (0, 1)
    rw [Position.weigh_value] at hsum
    exact_mod_cast hsum.trans (congrArg₂ HAdd.hAdd (measure _ Position.weigh_value)
      (measure _ Position.weigh_value))

/-- The value booked for an account is that of its positions. -/
theorem booked_eq (h : ledger.Consistent) (id : AccountId) (asset : AssetId) :
    ((ledger.account id).checkpoint asset).value.toNat =
      ((ledger.positionsOf id asset).map fun e => e.2.value.toNat).sum +
        ((ledger.legacyPositionsOf id asset).map fun e => e.2.value.toNat).sum := by
  have hbooked := h.balanced.booked id asset
  have hvalues : ledger.holdings (valuesOf id asset) = _ :=
    holdings_placed ledger id asset fun _ => 1
  rw [valueUnbooked, hvalues, sub_eq_zero] at hbooked
  rw [← Int.natCast_inj, hbooked]
  simp only [mul_one, Nat.cast_add, Nat.cast_list_sum, List.map_map, Function.comp_def]

end Ledger.Consistent

namespace Vault

theorem consistent {charter : Charter} {start : Vault} (h : genesis charter = .ok start)
    (requests : List Request) : (run requests start).2.ledger.Consistent := by
  obtain ⟨hledger, hentered⟩ := genesis_eq_ok h
  exact run_invariant (fun hl ht => ht.consistent hl) requests hentered
    (consistent_of_genesis hledger)

/-- **The books agree with the positions.**  After any requests to a new vault, the totals of every
listed asset are the sums of the quantities and of the values of all positions in it, over both
stores and all accounts; and the value booked for an account in an asset, zero without a checkpoint,
is that of its positions there. -/
theorem books_agree {charter : Charter} {start : Vault} (h : genesis charter = .ok start)
    (requests : List Request) :
    let ledger := (run requests start).2.ledger
    (∀ asset entry, ledger.asset asset = .ok entry →
      entry.totalQuantity.toNat = ledger.storedQuantity asset ∧
        entry.totalValue.toNat = ledger.storedValue asset) ∧
      ∀ id asset, ((ledger.account id).checkpoint asset).value.toNat =
        ((ledger.positionsOf id asset).map fun e => e.2.value.toNat).sum +
          ((ledger.legacyPositionsOf id asset).map fun e => e.2.value.toNat).sum := by
  have hconsistent := consistent h requests
  exact ⟨fun _ _ he => hconsistent.total_eq he, hconsistent.booked_eq⟩

theorem books_agree_sample : genesis ⟨10, 10, 0, 9⟩ = .ok sample ∧
    let ledger := (run sampleRequests sample).2.ledger
    ledger.storedQuantity 1 = 75 ∧ ledger.storedValue 1 = 82 ∧
      ((ledger.account 7).checkpoint 1).value.toNat =
        ((ledger.positionsOf 7 1).map fun e => e.2.value.toNat).sum +
          ((ledger.legacyPositionsOf 7 1).map fun e => e.2.value.toNat).sum :=
  ⟨genesis_sample, by decide +kernel, by decide +kernel,
    (books_agree genesis_sample sampleRequests).2 7 1⟩

end Vault

end StalkLedger
