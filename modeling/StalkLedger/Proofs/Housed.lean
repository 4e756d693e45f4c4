import StalkLedger.Proofs.Transition

/-!
# What is in the books has its place

An invariant of the ledger that the comparison of the books rests on (`Ledger.Housed`): the terms of
an asset are sound; an account has checkpoints in listed assets only, between zero and the tip; and a
position is not empty, its owner has a checkpoint in its asset, and its index is no further than that
checkpoint.  A legacy position is kept under an epoch of the legacy range that stands for an index.

Moves preserve it because positions are entered only for accounts that are current, and a checkpoint
never goes back (`Move.housed`); the clock preserves it because no index falls
(`Transition.housed`).
-/

namespace StalkLedger

/-- The terms on which an asset is kept make sense, and its index has not fallen below zero. -/
structure Asset.Sound (entry : Asset) : Prop where
  stalkPerValue : entry.stalkPerValue ≠ 0
  accrualRate : 0 ≤ entry.accrualRate.toInt
  accrualIndex : 0 ≤ entry.accrualIndex.toInt
  legacyRate : ∀ {terms}, entry.legacy = some terms → 0 < terms.ratePerEpoch.toInt

/-- Every position of a store holds something, and its slot is one where a position may be. -/
def SortedMap.Holds {μ : Type} [Key μ] (store : SortedMap (Slot μ) Position)
    (place : Slot μ → Prop) : Prop :=
  ∀ slot position, store.get? slot = some position →
    position.quantity ≠ 0 ∧ position.value ≠ 0 ∧ place slot

namespace Ledger

/-- An account has a checkpoint in an asset, at an index or beyond it. -/
def Reached (ledger : Ledger) (id : AccountId) (asset : AssetId) (index : ℤ) : Prop :=
  ∃ checkpoint, (ledger.account id).checkpoints.get? asset = some checkpoint ∧
    index ≤ checkpoint.lastIndex.toInt

/-- A legacy epoch stands for an index of an asset. -/
def Indexed (ledger : Ledger) (asset : AssetId) (epoch : Epoch) : Prop :=
  ledger.charter.isLegacy epoch = true ∧ ∃ terms index, ledger.legacyTerms asset = .ok terms ∧
    terms.indexOf ledger.charter epoch = .ok index

/-- What is in the books has its place. -/
structure Housed (ledger : Ledger) : Prop where
  asset : ∀ {id entry}, ledger.assets.get? id = some entry → entry.Sound
  checkpoint : ∀ {id asset checkpoint},
    (ledger.account id).checkpoints.get? asset = some checkpoint →
      0 ≤ checkpoint.lastIndex.toInt ∧
        ∃ entry, ledger.assets.get? asset = some entry ∧
          checkpoint.lastIndex.toInt ≤ entry.accrualIndex.toInt
  deposits : ledger.deposits.Holds fun slot => ledger.Reached slot.owner slot.asset slot.mark.toInt
  legacyDeposits : ledger.legacyDeposits.Holds fun slot =>
    ledger.Reached slot.owner slot.asset 0 ∧ ledger.Indexed slot.asset slot.mark

end Ledger

/-! ### Stores -/

namespace SortedMap.Holds

variable {μ : Type} [Key μ] {store store' : SortedMap (Slot μ) Position} {slot : Slot μ}
  {place place' : Slot μ → Prop}

/-- Places may be widened. -/
theorem mono (h : store.Holds place) (himp : ∀ {slot}, place slot → place' slot) :
    store.Holds place' := by
  intro slot position hget
  obtain ⟨hq, hv, hplace⟩ := h slot position hget
  exact ⟨hq, hv, himp hplace⟩

/-- A position that holds something may be entered in its place, -/
theorem insert [DecidableEq μ] {position : Position} (h : store.Holds place)
    (hq : position.quantity ≠ 0) (hv : position.value ≠ 0) (hplace : place slot) :
    (store.insert slot position).Holds place := by
  intro slot' position' hget
  rw [SortedMap.get?_insert] at hget
  split at hget
  next heq =>
    cases hget
    exact ⟨hq, hv, heq ▸ hplace⟩
  next => exact h _ _ hget

/-- positions may be erased, -/
theorem erase [DecidableEq μ] (h : store.Holds place) : (store.erase slot).Holds place := by
  intro slot' position' hget
  rw [SortedMap.get?_erase] at hget
  split at hget
  · cases hget
  · exact h _ _ hget

/-- and something may be put on top of what is there. -/
theorem put [DecidableEq μ] {position : Position} (h : store.Holds place)
    (hput : store.put slot position = .ok store') (hq : position.quantity ≠ 0)
    (hv : position.value ≠ 0) (hplace : place slot) : store'.Holds place := by
  obtain ⟨merged, hmq, hmv, rfl⟩ := SortedMap.put_eq_ok.mp hput
  have positive {a b : Amount} {n : ℕ} (ha : a.toNat = n + b.toNat) (hb : b ≠ 0) : a ≠ 0 := by
    rintro rfl
    exact hb (Unsigned.ext (Nat.eq_zero_of_add_eq_zero_left ha.symm))
  exact h.insert (positive hmq hq) (positive hmv hv) hplace

/-- A part of a position never takes all of its value, so what is left is worth something. -/
theorem take [DecidableEq μ] {amount value : Amount} (h : store.Holds place)
    (htake : store.take slot amount = .ok (value, store')) : store'.Holds place := by
  obtain ⟨position, hslot, htaken⟩ := SortedMap.take_eq_ok htake
  rcases htaken with ⟨-, -, rfl⟩ | ⟨hlt, hvalue, rest, hq, hv, rfl⟩
  · exact h.erase
  · obtain ⟨-, hworth, hplace⟩ := h _ _ hslot
    have hpos : 0 < position.value.toNat :=
      Nat.pos_of_ne_zero fun h₀ => hworth (Unsigned.ext h₀)
    have hless : value.toNat < position.value.toNat := by
      rw [hvalue]
      exact Nat.div_lt_of_lt_mul (by rw [Nat.mul_comm]; exact Nat.mul_lt_mul_of_pos_right hlt hpos)
    refine h.insert ?_ ?_ hplace
    · rintro h₀
      rw [h₀, Unsigned.toNat_zero] at hq
      omega
    · rintro h₀
      rw [h₀, Unsigned.toNat_zero] at hv
      omega

end SortedMap.Holds

/-! ### Housed ledgers -/

namespace Ledger

variable {ledger ledger' : Ledger}

/-- An account that has reached an index has reached every lower one. -/
theorem Reached.mono {id : AccountId} {asset : AssetId} {index index' : ℤ}
    (h : ledger.Reached id asset index) (hle : index' ≤ index) :
    ledger.Reached id asset index' := by
  obtain ⟨checkpoint, hget, hindex⟩ := h
  exact ⟨checkpoint, hget, le_trans hle hindex⟩

/-- A current account has reached the tip. -/
theorem Current.reached {id : AccountId} {asset : AssetId} (h : ledger.Current id asset) :
    ledger.Reached id asset (ledger.tip asset) := by
  obtain ⟨account, checkpoint, entry, ha, -, hc, he, hi⟩ := h
  refine ⟨checkpoint, ?_, ?_⟩
  · rw [account_of_get? ha]
    exact hc
  · rw [tip_eq (asset_eq_ok.mpr he), hi]

namespace Housed

/-- No tip is below zero. -/
theorem tip_nonneg (h : ledger.Housed) (asset : AssetId) : 0 ≤ ledger.tip asset := by
  unfold Ledger.tip
  cases hget : ledger.assets.get? asset with
  | none => exact le_rfl
  | some entry => exact (h.asset hget).accrualIndex

/-- A legacy epoch stands for an index below zero. -/
theorem legacyIndex_nonpos (h : ledger.Housed) {asset : AssetId} {epoch : Epoch}
    (hindexed : ledger.Indexed asset epoch) : ledger.legacyIndex asset epoch ≤ 0 := by
  obtain ⟨hlegacy, terms, index, hterms, -⟩ := hindexed
  obtain ⟨entry, hentry, hl⟩ := legacyTerms_eq_ok.mp hterms
  rw [legacyIndex, legacyRate_eq hentry hl]
  have hrate := (h.asset (asset_eq_ok.mp hentry)).legacyRate hl
  have hepoch : epoch.toNat < ledger.charter.migrationEpoch.toNat :=
    (Charter.isLegacy_iff.mp hlegacy).2
  exact mul_nonpos_of_nonpos_of_nonneg (by omega) hrate.le

/-- Assets may be listed, and their entries may change as long as no index falls and the legacy
terms stay. -/
theorem of_assets (h : ledger.Housed) (hcharter : ledger'.charter = ledger.charter)
    (haccounts : ledger'.accounts = ledger.accounts) (hdeposits : ledger'.deposits = ledger.deposits)
    (hlegacy : ledger'.legacyDeposits = ledger.legacyDeposits)
    (hsound : ∀ {id entry}, ledger'.assets.get? id = some entry → entry.Sound)
    (hgrow : ∀ {id entry}, ledger.assets.get? id = some entry →
      ∃ entry', ledger'.assets.get? id = some entry' ∧ entry'.legacy = entry.legacy ∧
        entry.accrualIndex.toInt ≤ entry'.accrualIndex.toInt) : ledger'.Housed := by
  have haccount := account_congr haccounts
  have hreached {id : AccountId} {asset : AssetId} {index : ℤ}
      (hr : ledger.Reached id asset index) : ledger'.Reached id asset index := by
    rw [Reached, haccount]
    exact hr
  refine ⟨hsound, ?_, ?_, ?_⟩
  · intro id asset checkpoint hget
    rw [haccount] at hget
    obtain ⟨hnn, entry, hentry, hle⟩ := h.checkpoint hget
    obtain ⟨entry', hentry', -, hle'⟩ := hgrow hentry
    exact ⟨hnn, entry', hentry', hle.trans hle'⟩
  · rw [hdeposits]
    exact h.deposits.mono hreached
  · rw [hlegacy]
    refine h.legacyDeposits.mono ?_
    rintro slot ⟨hr, hrange, terms, index, hterms, hindex⟩
    obtain ⟨entry, hentry, hl⟩ := legacyTerms_eq_ok.mp hterms
    obtain ⟨entry', hentry', hl', -⟩ := hgrow (asset_eq_ok.mp hentry)
    rw [Indexed, hcharter]
    exact ⟨hreached hr, hrange, terms, index,
      legacyTerms_eq_ok.mpr ⟨entry', asset_eq_ok.mpr hentry', hl'.trans hl⟩, hindex⟩

/-- The totals of the assets do not matter. -/
theorem of_sameTerms (h : ledger.Housed) (hterms : SameTerms ledger ledger')
    (haccounts : ledger'.accounts = ledger.accounts) (hdeposits : ledger'.deposits = ledger.deposits)
    (hlegacy : ledger'.legacyDeposits = ledger.legacyDeposits) : ledger'.Housed := by
  refine h.of_assets hterms.charter haccounts hdeposits hlegacy ?_ ?_
  · intro id entry' hget
    obtain ⟨entry, hentry, hsame⟩ := hterms.symm.entry hget
    obtain ⟨hs, hr, hi, hl⟩ := h.asset hentry
    exact ⟨congrArg Asset.stalkPerValue hsame ▸ hs, congrArg Asset.accrualRate hsame ▸ hr,
      congrArg Asset.accrualIndex hsame ▸ hi,
      fun ht => hl ((congrArg Asset.legacy hsame).trans ht)⟩
  · intro id entry hget
    obtain ⟨entry', hentry', hsame⟩ := hterms.entry hget
    exact ⟨entry', hentry', (congrArg Asset.legacy hsame :),
      (congrArg (·.accrualIndex.toInt) hsame).ge⟩

/-- An account may change as long as no checkpoint goes back, and each stays within its asset. -/
theorem withAccount (h : ledger.Housed) {id : AccountId} {account : Account}
    (hin : ∀ {asset checkpoint}, account.checkpoints.get? asset = some checkpoint →
      0 ≤ checkpoint.lastIndex.toInt ∧ ∃ entry, ledger.assets.get? asset = some entry ∧
        checkpoint.lastIndex.toInt ≤ entry.accrualIndex.toInt)
    (hforward : ∀ {asset checkpoint},
      (ledger.account id).checkpoints.get? asset = some checkpoint →
        ∃ checkpoint', account.checkpoints.get? asset = some checkpoint' ∧
          checkpoint.lastIndex.toInt ≤ checkpoint'.lastIndex.toInt) :
    (ledger.withAccount id account).Housed := by
  have hreached {id' : AccountId} {asset : AssetId} {index : ℤ}
      (hr : ledger.Reached id' asset index) :
      (ledger.withAccount id account).Reached id' asset index := by
    obtain ⟨checkpoint, hget, hle⟩ := hr
    unfold Reached
    rw [account_withAccount]
    split
    next heq =>
      obtain ⟨checkpoint', hget', hle'⟩ := hforward (heq ▸ hget)
      exact ⟨checkpoint', hget', hle.trans hle'⟩
    next => exact ⟨checkpoint, hget, hle⟩
  refine ⟨h.asset, ?_, h.deposits.mono hreached, h.legacyDeposits.mono fun ⟨hr, hi⟩ =>
    ⟨hreached hr, hi⟩⟩
  intro id' asset checkpoint hget
  rw [account_withAccount] at hget
  split at hget
  · exact hin hget
  · exact h.checkpoint hget

/-- Balances and floods of an account do not matter. -/
theorem withBalances (h : ledger.Housed) {id : AccountId} {account : Account}
    (hc : account.checkpoints = (ledger.account id).checkpoints) :
    (ledger.withAccount id account).Housed :=
  h.withAccount (fun hget => h.checkpoint (hc ▸ hget)) fun hget => ⟨_, hc ▸ hget, le_rfl⟩

/-- A checkpoint may move up to the tip. -/
theorem withCheckpoint (h : ledger.Housed) {id : AccountId} {asset : AssetId}
    {checkpoint : Checkpoint} {entry : Asset} (he : ledger.assets.get? asset = some entry)
    (hforward : ∀ {old}, (ledger.account id).checkpoints.get? asset = some old →
      old.lastIndex.toInt ≤ checkpoint.lastIndex.toInt)
    (hnn : 0 ≤ checkpoint.lastIndex.toInt)
    (hle : checkpoint.lastIndex.toInt ≤ entry.accrualIndex.toInt) :
    (ledger.withAccount id ((ledger.account id).withCheckpoint asset checkpoint)).Housed := by
  refine h.withAccount ?_ ?_
  · intro asset' checkpoint' hget
    rw [Account.withCheckpoint, SortedMap.get?_insert] at hget
    split at hget
    next heq =>
      cases hget
      exact ⟨hnn, entry, heq ▸ he, hle⟩
    next => exact h.checkpoint hget
  · intro asset' old hget
    by_cases heq : asset' = asset
    · subst heq
      exact ⟨checkpoint, SortedMap.get?_insert_self .., hforward hget⟩
    · exact ⟨old, (SortedMap.get?_insert_of_ne _ heq _).trans hget, le_rfl⟩

end Housed

end Ledger

open StalkLedger.Action Ledger

/-! ### Moves -/

/-- Totals do not matter, -/
theorem Ledger.Housed.withTotals {ledger : Ledger} (h : ledger.Housed) (totals : Totals) :
    { ledger with totals }.Housed :=
  h.of_sameTerms ⟨rfl, fun _ => rfl⟩ rfl rfl rfl

/-- nor does stalk that is credited, -/
theorem Ledger.Housed.creditStalk {ledger : Ledger} {id : AccountId} {stalk roots : Amount}
    {out : Outcome Unit} (h : ledger.Housed)
    (hc : Action.creditStalk id stalk roots ledger = .ok out) : out.ledger.Housed := by
  obtain ⟨_, _, _, -, -, rfl⟩ := creditStalk_spec hc
  exact h.withBalances rfl

/-- or taken off. -/
theorem Ledger.Housed.debitStalk {ledger : Ledger} {id : AccountId} {stalk roots : Amount}
    {out : Outcome Unit} (h : ledger.Housed)
    (hd : Action.debitStalk id stalk roots ledger = .ok out) : out.ledger.Housed := by
  obtain ⟨_, _, _, -, -, rfl⟩ := debitStalk_spec hd
  exact h.withBalances rfl

/-- Another value at a checkpoint that is at the tip. -/
theorem Ledger.Housed.rebook {ledger : Ledger} {id : AccountId} {asset : AssetId}
    (h : ledger.Housed) (hc : ledger.Current id asset) (value : Amount) :
    (ledger.withAccount id ((ledger.account id).withCheckpoint asset
      { (ledger.account id).checkpoint asset with value })).Housed := by
  obtain ⟨account, checkpoint, entry, ha, -, hcheck, he, hi⟩ := hc
  have hcheckpoint : (ledger.account id).checkpoint asset = checkpoint := by
    rw [account_of_get? ha, Account.checkpoint, hcheck, Option.getD_some]
  have htip : ((ledger.account id).checkpoint asset).lastIndex = entry.accrualIndex := by
    rw [hcheckpoint, hi]
  refine h.withCheckpoint he ?_ ?_ ?_
  · intro old hold
    obtain ⟨-, entry', he', hle⟩ := h.checkpoint hold
    obtain rfl := Option.some.inj (he.symm.trans he')
    exact hle.trans (congrArg Signed.toInt htip).ge
  · exact (congrArg Signed.toInt htip).ge.trans' (h.asset he).accrualIndex
  · exact (congrArg Signed.toInt htip).le

/-- **Moves keep everything in its place.** -/
theorem Move.housed {ledger ledger' : Ledger} {more : Imbalance} {events : Event.Log}
    (h : Move ledger more events ledger') (hl : ledger.Housed) : ledger'.Housed := by
  cases h with
  | update h =>
    rcases updateAccount_eq_ok.mp h with ⟨-, rfl⟩ | ⟨-, flood, -, rfl⟩
    · exact hl.withBalances rfl
    · exact hl.withBalances rfl
  | @realize id asset entry grown hu he hg =>
    have hentry := asset_eq_ok.mp he
    refine hl.withCheckpoint hentry ?_ (hl.asset hentry).accrualIndex le_rfl
    intro old hold
    obtain ⟨-, entry', he', hle⟩ := hl.checkpoint hold
    obtain rfl := Option.some.inj (hentry.symm.trans he')
    exact hle
  | mint hu hs h =>
    obtain ⟨_, totals, credited, -, -, hc, rfl⟩ := (mintStalk_eq_ok hs).mp h
    exact (hl.withTotals totals).creditStalk hc
  | burn hu hs h =>
    obtain ⟨_, totals, debited, -, -, hd, rfl⟩ := (burnStalk_eq_ok hs).mp h
    exact (hl.withTotals totals).debitStalk hd
  | handOver hu hu' hs h =>
    obtain ⟨_, debited, credited, -, hd, hc, rfl⟩ := (transferStalk_eq_ok hs).mp h
    exact (hl.debitStalk hd).creditStalk hc
  | credit hu h => exact hl.creditStalk h
  | drawPool h => exact hl.withTotals _
  | book hc h =>
    obtain ⟨held, -, rfl⟩ := creditValue_eq_ok.mp h
    exact hl.rebook hc held
  | unbook hc h =>
    obtain ⟨held, -, rfl⟩ := debitValue_eq_ok.mp h
    exact hl.rebook hc held
  | @enter slot position out hi h =>
    obtain ⟨deposits, entry, entry', hq, hv, hc, hput, he, ht, rfl⟩ := addPositionAt_eq_ok.mp h
    obtain ⟨_, _, -, -, rfl⟩ := Asset.take_eq_ok.mp ht
    have hreached := (requireCurrent_eq_ok.mp hc).reached.mono hi
    have hput : { ledger with deposits }.Housed :=
      ⟨hl.asset, hl.checkpoint, hl.deposits.put hput hq hv hreached, hl.legacyDeposits⟩
    exact hput.of_sameTerms (SameTerms.of_insert rfl rfl he rfl) rfl rfl rfl
  | remove ha h =>
    obtain ⟨value, taken, entry, entry', -, he, ht, hr, rfl⟩ := (removePosition_eq_ok ha).mp h
    obtain ⟨_, _, -, -, rfl⟩ := Asset.release_eq_ok.mp hr
    have htaken : taken.Housed ∧ taken.assets = ledger.assets := by
      cases taken_of_takeAt ht with
      | current hc =>
        exact ⟨⟨hl.asset, hl.checkpoint, hl.deposits.take hc, hl.legacyDeposits⟩, rfl⟩
      | legacy _ hg =>
        exact ⟨⟨hl.asset, hl.checkpoint, hl.deposits, hl.legacyDeposits.take hg⟩, rfl⟩
      | both _ _ _ _ hc hg =>
        exact ⟨⟨hl.asset, hl.checkpoint, hl.deposits.take hc, hl.legacyDeposits.take hg⟩, rfl⟩
    obtain ⟨hhoused, hassets⟩ := htaken
    have hentry : taken.asset _ = .ok entry :=
      asset_eq_ok.mpr (hassets ▸ asset_eq_ok.mp he)
    exact hhoused.of_sameTerms (SameTerms.of_insert rfl rfl hentry rfl) rfl rfl rfl
  | @importLegacy owner asset epoch _ _ _ legacyDeposits _ _ hc hr ht hi hq hv hp he he' =>
    obtain ⟨_, _, -, -, rfl⟩ := Asset.take_eq_ok.mp he'
    have hreached : ledger.Reached owner asset 0 := hc.reached.mono (hl.tip_nonneg asset)
    have hindexed : ledger.Indexed asset epoch := ⟨hr, _, _, ht, hi⟩
    have hput : { ledger with legacyDeposits }.Housed :=
      ⟨hl.asset, hl.checkpoint, hl.deposits, hl.legacyDeposits.put hp hq hv ⟨hreached, hindexed⟩⟩
    exact hput.of_sameTerms (SameTerms.of_insert rfl rfl he rfl) rfl rfl rfl
  | @migrate owner asset epoch terms deposits index position hc hr ht hi hg hp =>
    -- A legacy epoch stands for no index above zero, which its owner has reached.
    obtain ⟨hq, hv, hreached, hindexed⟩ := hl.legacyDeposits _ _ hg
    have hindex : index.toInt ≤ 0 := by
      rw [← legacyIndex_eq ht hi]
      exact hl.legacyIndex_nonpos hindexed
    exact ⟨hl.asset, hl.checkpoint, hl.deposits.put hp hq hv (hreached.mono hindex),
      hl.legacyDeposits.erase⟩
  | note event => exact hl

/-- So does a sequence of moves. -/
theorem Moves.housed {ledger ledger' : Ledger} {more : Imbalance} {events : Event.Log}
    (h : Moves ledger more events ledger') (hl : ledger.Housed) : ledger'.Housed := by
  induction h with
  | refl => exact hl
  | step h _ ih => exact ih (h.housed hl)

/-! ### Transitions -/

/-- An asset is listed on terms that make sense, at index zero. -/
theorem Asset.Sound.whitelisted {terms : AssetTerms} (h : terms.validate = .ok ()) (epoch : Epoch) :
    (Asset.whitelisted terms epoch).Sound := by
  obtain ⟨hs, hr, hl⟩ := AssetTerms.validate_eq_ok.mp h
  exact ⟨hs, hr, Signed.toInt_zero.ge, fun ht => hl _ ht⟩

/-- An entry that is put in the place of another, at another rate. -/
theorem Ledger.Housed.withRate {ledger : Ledger} (h : ledger.Housed) {id : AssetId}
    {entry entry' : Asset} (he : ledger.asset id = .ok entry) (hsound : entry'.Sound)
    (hindex : entry'.accrualIndex = entry.accrualIndex) (hlegacy : entry'.legacy = entry.legacy) :
    (ledger.withAsset id entry').Housed := by
  refine h.of_assets rfl rfl rfl rfl ?_ ?_
  · intro id' entry'' hget
    rw [Ledger.withAsset, SortedMap.get?_insert] at hget
    split at hget
    · cases hget
      exact hsound
    · exact h.asset hget
  · intro id' entry'' hget
    by_cases heq : id' = id
    · subst heq
      obtain rfl := Option.some.inj ((asset_eq_ok.mp he).symm.trans hget)
      exact ⟨entry', SortedMap.get?_insert_self .., hlegacy, (congrArg Signed.toInt hindex).ge⟩
    · exact ⟨entry'', (SortedMap.get?_insert_of_ne _ heq _).trans hget, rfl, le_rfl⟩

/-- **Transitions keep everything in its place.** -/
theorem Transition.housed {ledger ledger' : Ledger} {paid : AccountId → ℕ} {events : Event.Log}
    (h : Transition ledger paid events ledger') (hl : ledger.Housed) : ledger'.Housed := by
  cases h with
  | posting h => exact h.housed hl
  | @claim id _ h =>
    obtain ⟨updated, totalClaimed, hu, -, -, rfl⟩ := claimFlood_stages h
    have hbalances : (updated.ledger.withAccount id { updated.ledger.account id with
        flood := { (updated.ledger.account id).flood with claimable := 0 } }).Housed :=
      ((Move.update hu).housed hl).withBalances rfl
    exact hbalances.of_sameTerms ⟨rfl, fun _ => rfl⟩ rfl rfl rfl
  | @whitelist id terms out h =>
    obtain ⟨hvalid, hnew, -, rfl⟩ := whitelist_stages h
    refine hl.of_assets rfl rfl rfl rfl ?_ ?_
    · intro id' entry hget
      rw [Ledger.withAsset, SortedMap.get?_insert] at hget
      split at hget
      · cases hget
        exact .whitelisted hvalid _
      · exact hl.asset hget
    · intro id' entry hget
      have hne : id' ≠ id := by
        rintro rfl
        rw [hnew] at hget
        cases hget
      exact ⟨entry, (SortedMap.get?_insert_of_ne _ hne _).trans hget, rfl, le_rfl⟩
  | dewhitelist h =>
    obtain ⟨entry, he, rfl⟩ := dewhitelist_stages h
    obtain ⟨hs, -, hi, hleg⟩ := hl.asset (asset_eq_ok.mp he)
    exact hl.withRate he ⟨hs, Signed.toInt_zero.ge, hi, hleg⟩ rfl rfl
  | setAccrualRate h =>
    obtain ⟨hrate, entry, he, rfl⟩ := setAccrualRate_stages h
    obtain ⟨hs, -, hi, hleg⟩ := hl.asset (asset_eq_ok.mp he)
    exact hl.withRate he ⟨hs, hrate, hi, hleg⟩ rfl rfl
  | reward h =>
    rcases receiveReward_stages h with ⟨-, rfl⟩ | ⟨_, _, _, _, -, -, -, -, rfl⟩
    · exact hl
    · exact hl.withTotals _
  | advance h =>
    rcases advanceEpoch_frame h with heq | ⟨elapsed, assets, totals, floodBook, hnn, hgrow, heq⟩
    · rw [heq]
      exact hl
    rw [heq]
    have grown {entry entry' : Asset} (hs : entry.Sound) (hg : entry.grow elapsed = .ok entry') :
        entry'.Sound ∧ entry'.legacy = entry.legacy ∧
          entry.accrualIndex.toInt ≤ entry'.accrualIndex.toInt := by
      obtain ⟨index, hindex, rfl⟩ := Asset.grow_spec hg
      have hmore := mul_nonneg hs.accrualRate hnn
      refine ⟨⟨hs.stalkPerValue, hs.accrualRate, ?_, hs.legacyRate⟩, rfl, ?_⟩
      · have := hs.accrualIndex
        show 0 ≤ index.toInt
        omega
      · show _ ≤ index.toInt
        omega
    refine hl.of_assets rfl rfl rfl rfl ?_ ?_
    · intro id entry' hget
      rcases SortedMap.get?_of_mapEach hgrow id with ⟨-, hnone⟩ | ⟨entry, e, hentry, hg, he⟩
      · exact absurd (hnone.symm.trans hget) nofun
      · obtain rfl := Option.some.inj (he.symm.trans hget)
        exact (grown (hl.asset hentry) hg).1
    · intro id entry hget
      rcases SortedMap.get?_of_mapEach hgrow id with ⟨hnone, -⟩ | ⟨e, entry', hentry, hg, he⟩
      · exact absurd (hnone.symm.trans hget) nofun
      · obtain rfl := Option.some.inj (hentry.symm.trans hget)
        exact ⟨entry', he, (grown (hl.asset hentry) hg).2⟩

end StalkLedger
