import StalkLedger.Proofs.Housed

/-!
# The imbalance of a ledger

By how much the books of a ledger disagree is read off the ledger itself (`Ledger.imbalance`): the
stalk of an account against what its checkpoints and positions back, the value booked for it against
that of its positions, and the total of stalk against the accounts and the earned pool.

* A move changes this by exactly the imbalance it is labelled with (`Move.imbalance`), so moves that
  cancel leave it as it is (`Moves.imbalance`).
* The other transitions leave accounts and positions alone, and change terms only where nothing is
  held, or by what no book reads (`Transition.balanced`).

So the accounts of a vault are always in balance (`Ledger.Balanced`).
-/

namespace StalkLedger

namespace Ledger

/-! ### The imbalance -/

/-- The positions of an account count their value, once per step of their index. -/
def marksOf (id : AccountId) : Weight := fun owner _ index => (0, if owner = id then index else 0)

/-- The positions of an account in an asset count their value. -/
def valuesOf (id : AccountId) (asset : AssetId) : Weight :=
  fun owner asset' _ => (0, if owner = id ∧ asset' = asset then 1 else 0)

/-- The stalk that a checkpoint accounts for, if the value held had been there since index zero. -/
def standing (ledger : Ledger) (asset : AssetId) (checkpoint : Checkpoint) : ℤ :=
  (ledger.stalkPerValue asset + checkpoint.lastIndex.toInt) * checkpoint.value.toNat

/-- The stalk of an account that nothing backs: beyond what its checkpoints account for, less what
its positions had not grown. -/
def stalkDue (ledger : Ledger) (id : AccountId) : ℤ :=
  (ledger.account id).stalk.toNat - (ledger.account id).checkpoints.sum ledger.standing +
    ledger.holdings (marksOf id)

/-- The value booked for an account in an asset beyond that of its positions. -/
def valueUnbooked (ledger : Ledger) (id : AccountId) (asset : AssetId) : ℤ :=
  ((ledger.account id).checkpoint asset).value.toNat - ledger.holdings (valuesOf id asset)

/-- The stalk that the total counts beyond that of the accounts and of the earned pool. -/
def stalkUnpooled (ledger : Ledger) : ℤ :=
  ledger.totals.stalk.toNat - (ledger.accounts.sum fun _ account => account.stalk.toNat) -
    ledger.totals.earnedPool.toNat * ledger.stalkPerValue ledger.charter.baseAsset

/-- By how much the books disagree. -/
def imbalance (ledger : Ledger) : Imbalance :=
  (ledger.stalkDue, fun place => ledger.valueUnbooked place.1 place.2, ledger.stalkUnpooled)

end Ledger

namespace Imbalance

theorem due_add_unbooked (id : AccountId) (asset : AssetId) (x y : ℤ) :
    due id x + unbooked id asset y = (Pi.single id x, Pi.single (id, asset) y, 0) := by
  rw [due, unbooked, Prod.mk_add_mk, Prod.mk_add_mk, zero_add, add_zero, add_zero]

theorem due_add_unpooled (id : AccountId) (x y : ℤ) :
    due id x + unpooled y = (Pi.single id x, 0, y) := by
  rw [due, unpooled, Prod.mk_add_mk, Prod.mk_add_mk, zero_add, add_zero, zero_add]

end Imbalance

open Imbalance

/-! ### What changes it -/

namespace Ledger

variable {ledger ledger' : Ledger}

@[simp] theorem holdings_withAccount (ledger : Ledger) (id : AccountId) (account : Account) :
    (ledger.withAccount id account).holdings = ledger.holdings := rfl

@[simp] theorem standing_withAccount (ledger : Ledger) (id : AccountId) (account : Account) :
    (ledger.withAccount id account).standing = ledger.standing := rfl

theorem standing_congr (h : ledger'.stalkPerValue = ledger.stalkPerValue) :
    ledger'.standing = ledger.standing := by
  funext asset checkpoint
  rw [standing, h, standing]

/-- Imbalances are compared book by book. -/
theorem imbalance_eq_add {stalk : AccountId → ℤ} {value : AccountId × AssetId → ℤ} {total : ℤ}
    (hdue : ∀ id, ledger'.stalkDue id = ledger.stalkDue id + stalk id)
    (hunbooked : ∀ id asset, ledger'.valueUnbooked id asset =
      ledger.valueUnbooked id asset + value (id, asset))
    (hunpooled : ledger'.stalkUnpooled = ledger.stalkUnpooled + total) :
    ledger'.imbalance = ledger.imbalance + (stalk, value, total) :=
  Prod.ext (funext hdue) (Prod.ext (funext fun place => hunbooked place.1 place.2) hunpooled)

/-- The sum of the stalk of all accounts with another one in the place of an account. -/
theorem stalkUnpooled_withAccount (ledger : Ledger) (id : AccountId) (account : Account) :
    (ledger.withAccount id account).stalkUnpooled = ledger.stalkUnpooled +
      ((ledger.account id).stalk.toNat - account.stalk.toNat) := by
  have hsum := ledger.sum_withAccount id account (f := fun a => a.stalk.toNat) rfl
  rw [stalkUnpooled, hsum, stalkUnpooled]
  show (ledger.totals.stalk.toNat : ℤ) - _ -
    ledger.totals.earnedPool.toNat * ledger.stalkPerValue ledger.charter.baseAsset = _
  ring

/-- Another amount of stalk in an account. -/
theorem imbalance_withBalances {id : AccountId} {account : Account}
    (hc : account.checkpoints = (ledger.account id).checkpoints) :
    (ledger.withAccount id account).imbalance = ledger.imbalance +
      (due id (account.stalk.toNat - (ledger.account id).stalk.toNat) +
        unpooled ((ledger.account id).stalk.toNat - account.stalk.toNat)) := by
  rw [due_add_unpooled]
  refine imbalance_eq_add (fun id' => ?_) (fun id' asset => ?_)
    (stalkUnpooled_withAccount ledger id account)
  · rw [stalkDue, stalkDue, account_withAccount, Pi.single_apply, holdings_withAccount,
      standing_withAccount]
    split
    next heq =>
      rw [heq, hc]
      ring
    next => rw [add_zero]
  · rw [valueUnbooked, valueUnbooked, account_withAccount, holdings_withAccount, Pi.zero_apply,
      add_zero]
    split
    next heq => rw [heq, Account.checkpoint, hc, Account.checkpoint]
    next => rfl

/-- A change of an account that these books do not see. -/
theorem imbalance_withSame {id : AccountId} {account : Account}
    (hs : account.stalk = (ledger.account id).stalk)
    (hc : account.checkpoints = (ledger.account id).checkpoints) :
    (ledger.withAccount id account).imbalance = ledger.imbalance := by
  rw [imbalance_withBalances hc, hs, sub_self, due_zero, unpooled_zero, add_zero, add_zero]

/-- Another checkpoint of an account. -/
theorem imbalance_withCheckpoint (ledger : Ledger) (id : AccountId) (asset : AssetId)
    (checkpoint : Checkpoint) :
    (ledger.withAccount id ((ledger.account id).withCheckpoint asset checkpoint)).imbalance =
      ledger.imbalance +
        (due id (ledger.standing asset ((ledger.account id).checkpoint asset) -
            ledger.standing asset checkpoint) +
          unbooked id asset (checkpoint.value.toNat -
            ((ledger.account id).checkpoint asset).value.toNat)) := by
  rw [due_add_unbooked]
  refine imbalance_eq_add (fun id' => ?_) (fun id' asset' => ?_) ?_
  · have hfresh : ledger.standing asset .fresh = 0 := by
      simp [standing, Checkpoint.fresh]
    rw [stalkDue, stalkDue, account_withAccount, Pi.single_apply, holdings_withAccount,
      standing_withAccount]
    split
    next heq =>
      rw [heq, Account.withCheckpoint, SortedMap.sum_insert, SortedMap.measureAt_eq_getD hfresh,
        Account.checkpoint]
      ring
    next => rw [add_zero]
  · rw [valueUnbooked, valueUnbooked, account_withAccount, holdings_withAccount, Pi.single_apply]
    by_cases hid : id' = id
    · rw [if_pos hid, hid, Account.checkpoint_withCheckpoint]
      by_cases hasset : asset' = asset
      · rw [if_pos hasset, if_pos (by rw [hasset]), hasset]
        ring
      · rw [if_neg hasset, if_neg fun h => hasset (Prod.ext_iff.mp h).2, add_zero]
    · rw [if_neg hid, if_neg fun h => hid (Prod.ext_iff.mp h).1, add_zero]
  · rw [stalkUnpooled_withAccount]
    show _ + ((ledger.account id).stalk.toNat - (ledger.account id).stalk.toNat : ℤ) = _ + 0
    rw [sub_self]

/-- Other totals. -/
theorem imbalance_withTotals (ledger : Ledger) (totals : Totals) :
    { ledger with totals }.imbalance = ledger.imbalance +
      unpooled (totals.stalk.toNat - ledger.totals.stalk.toNat -
        (totals.earnedPool.toNat - ledger.totals.earnedPool.toNat) *
          ledger.stalkPerValue ledger.charter.baseAsset) := by
  rw [unpooled]
  refine imbalance_eq_add (fun _ => (add_zero _).symm) (fun _ _ => (add_zero _).symm) ?_
  show (totals.stalk.toNat : ℤ) - _ -
    totals.earnedPool.toNat * ledger.stalkPerValue ledger.charter.baseAsset = stalkUnpooled _ + _
  rw [stalkUnpooled]
  ring

/-- More at one place. -/
theorem imbalance_of_gains {owner : AccountId} {asset : AssetId} {index quantity value : ℤ}
    (h : Gains ledger ledger' owner asset index quantity value) (hterms : SameTerms ledger ledger')
    (haccounts : ledger'.accounts = ledger.accounts) (htotals : ledger'.totals = ledger.totals) :
    ledger'.imbalance = ledger.imbalance +
      (due owner (index * value) + unbooked owner asset (-value)) := by
  have haccount := account_congr haccounts
  rw [due_add_unbooked]
  refine imbalance_eq_add (fun id => ?_) (fun id asset' => ?_) ?_
  · rw [stalkDue, stalkDue, haccount, standing_congr hterms.stalkPerValue, h, Pi.single_apply,
      marksOf]
    by_cases hid : id = owner
    · rw [if_pos hid, if_pos hid.symm]
      ring
    · rw [if_neg hid, if_neg (Ne.symm hid)]
      ring
  · rw [valueUnbooked, valueUnbooked, haccount, h, Pi.single_apply, valuesOf]
    by_cases hplace : (id, asset') = (owner, asset)
    · obtain ⟨rfl, rfl⟩ := Prod.ext_iff.mp hplace
      rw [if_pos rfl, if_pos ⟨rfl, rfl⟩]
      ring
    · have hne : ¬ (owner = id ∧ asset = asset') := by
        rintro ⟨rfl, rfl⟩
        exact hplace rfl
      rw [if_neg hplace, if_neg hne]
      ring
  · rw [stalkUnpooled, stalkUnpooled, haccounts, htotals, hterms.stalkPerValue, hterms.charter]
    exact (add_zero _).symm

theorem imbalance_creditStalk {id : AccountId} {stalk roots : Amount} {out : Outcome Unit}
    (h : Action.creditStalk id stalk roots ledger = .ok out) :
    out.ledger.imbalance = ledger.imbalance + (due id stalk.toNat + unpooled (-stalk.toNat)) := by
  obtain ⟨held, _, _, hs, -, rfl⟩ := Action.creditStalk_spec h
  refine (imbalance_withBalances ?_).trans ?_
  · rfl
  rw [hs]
  push_cast
  rw [add_sub_cancel_left, sub_add_cancel_left]

theorem imbalance_debitStalk {id : AccountId} {stalk roots : Amount} {out : Outcome Unit}
    (h : Action.debitStalk id stalk roots ledger = .ok out) :
    out.ledger.imbalance = ledger.imbalance + (due id (-stalk.toNat) + unpooled stalk.toNat) := by
  obtain ⟨held, _, _, hs, -, rfl⟩ := Action.debitStalk_spec h
  refine (imbalance_withBalances ?_).trans ?_
  · rfl
  rw [← hs]
  push_cast
  rw [sub_add_cancel_left, add_sub_cancel_left]

/-- Another value at a checkpoint that is at the tip. -/
theorem imbalance_rebook {id : AccountId} {asset : AssetId} (hc : ledger.Current id asset)
    (value : Amount) :
    (ledger.withAccount id ((ledger.account id).withCheckpoint asset
      { (ledger.account id).checkpoint asset with value })).imbalance = ledger.imbalance +
        (due id ((ledger.stalkPerValue asset + ledger.tip asset) *
            (((ledger.account id).checkpoint asset).value.toNat - value.toNat)) +
          unbooked id asset (value.toNat -
            ((ledger.account id).checkpoint asset).value.toNat)) := by
  obtain ⟨account, checkpoint, entry, ha, -, hcheck, he, hi⟩ := hc
  have htip : ((ledger.account id).checkpoint asset).lastIndex.toInt = ledger.tip asset := by
    rw [account_of_get? ha, Account.checkpoint, hcheck, Option.getD_some, hi,
      tip_eq (asset_eq_ok.mpr he)]
  rw [imbalance_withCheckpoint, standing, standing, htip, ← mul_sub]

/-- Positions that count the same at every place. -/
theorem imbalance_congr (hterms : SameTerms ledger ledger')
    (haccounts : ledger'.accounts = ledger.accounts) (htotals : ledger'.totals = ledger.totals)
    (h : ∀ weight, ledger'.holdings weight = ledger.holdings weight) :
    ledger'.imbalance = ledger.imbalance := by
  have hsame : ledger'.imbalance = ledger.imbalance + (due 0 (0 * 0) + unbooked 0 0 (-0)) := by
    have hgains : Gains ledger ledger' 0 0 0 0 0 := fun weight => by
      rw [mul_zero, mul_zero, add_zero, add_zero, h]
    exact imbalance_of_gains hgains hterms haccounts htotals
  rwa [mul_zero, neg_zero, due_zero, unbooked_zero, add_zero, add_zero] at hsame

/-- Totals of assets are in none of these books. -/
theorem imbalance_withAsset {id : AssetId} {entry entry' : Asset} (he : ledger.asset id = .ok entry)
    (hs : entry'.emptied = entry.emptied) :
    (ledger.withAsset id entry').imbalance = ledger.imbalance :=
  imbalance_congr (.of_insert rfl rfl he hs) rfl rfl (holdings_withAsset he hs)

end Ledger

open StalkLedger.Action Ledger

/-! ### Moves -/

/-- **What a move does to the imbalance** is what its label says. -/
theorem Move.imbalance {ledger ledger' : Ledger} {more : Imbalance} {events : Event.Log}
    (h : Move ledger more events ledger') : ledger'.imbalance = ledger.imbalance + more := by
  cases h with
  | update h =>
    rw [add_zero]
    rcases updateAccount_eq_ok.mp h with ⟨-, rfl⟩ | ⟨-, flood, -, rfl⟩
    · exact imbalance_withSame rfl rfl
    · exact imbalance_withSame rfl rfl
  | realize hu he hg =>
    rw [imbalance_withCheckpoint, standing, standing, (grownReward_eq_ok.mp hg).2.2, sub_self,
      unbooked_zero, add_zero]
    congr 2
    ring
  | mint hu hs h =>
    obtain ⟨_, totals, credited, -, ht, hc, rfl⟩ := (mintStalk_eq_ok hs).mp h
    obtain ⟨hstalk, -, hpool⟩ := Totals.credit_eq_ok.mp ht
    rw [imbalance_creditStalk hc, imbalance_withTotals, hstalk, hpool]
    push_cast
    rw [add_sub_cancel_left, sub_self, zero_mul, sub_zero, add_assoc, add_left_comm (unpooled _),
      ← unpooled_add, add_neg_cancel, unpooled_zero, add_zero]
  | burn hu hs h =>
    obtain ⟨_, totals, debited, -, ht, hd, rfl⟩ := (burnStalk_eq_ok hs).mp h
    obtain ⟨hstalk, -, hpool⟩ := Totals.debit_eq_ok.mp ht
    rw [imbalance_debitStalk hd, imbalance_withTotals, ← hstalk, hpool]
    push_cast
    rw [sub_add_cancel_left, sub_self, zero_mul, sub_zero, add_assoc, add_left_comm (unpooled _),
      ← unpooled_add, neg_add_cancel, unpooled_zero, add_zero]
  | handOver hu hu' hs h =>
    obtain ⟨_, debited, credited, -, hd, hc, rfl⟩ := (transferStalk_eq_ok hs).mp h
    rw [imbalance_creditStalk hc, imbalance_debitStalk hd, add_assoc, add_add_add_comm,
      ← unpooled_add, add_neg_cancel, unpooled_zero, add_zero]
  | credit hu h => exact imbalance_creditStalk h
  | @drawPool quantity pool h =>
    rw [imbalance_withTotals, ← h]
    congr 2
    push_cast
    ring
  | book hc h =>
    obtain ⟨held, hheld, rfl⟩ := creditValue_eq_ok.mp h
    rw [imbalance_rebook hc, hheld]
    congr 2
    · push_cast
      congr 1
      ring
    · push_cast
      rw [add_sub_cancel_left]
  | unbook hc h =>
    obtain ⟨held, hheld, rfl⟩ := debitValue_eq_ok.mp h
    rw [imbalance_rebook hc, ← hheld]
    congr 2
    · push_cast
      rw [add_sub_cancel_left]
    · push_cast
      rw [sub_add_cancel_left]
  | @enter slot position _ hi h =>
    obtain ⟨deposits, entry, entry', -, -, -, hput, he, ht, rfl⟩ := addPositionAt_eq_ok.mp h
    obtain ⟨_, _, -, -, rfl⟩ := Asset.take_eq_ok.mp ht
    rw [← imbalance_of_gains (gains_put hput) ⟨rfl, fun _ => rfl⟩ rfl rfl]
    exact imbalance_withAsset he rfl
  | @remove slot amount _ ha h =>
    obtain ⟨value, taken, entry, entry', -, he, ht, hr, rfl⟩ := (removePosition_eq_ok ha).mp h
    obtain ⟨_, _, -, -, rfl⟩ := Asset.release_eq_ok.mp hr
    have hgains := gains_takeAt he ht
    obtain ⟨deposits, legacyDeposits, rfl⟩ := (taken_of_takeAt ht).frame
    have htaken := imbalance_of_gains hgains ⟨rfl, fun _ => rfl⟩ rfl rfl
    rw [mul_neg, neg_neg] at htaken
    rw [← htaken]
    exact imbalance_withAsset he rfl
  | importLegacy hc hr ht hi hq hv hp he he' =>
    obtain ⟨_, _, -, -, rfl⟩ := Asset.take_eq_ok.mp he'
    rw [← imbalance_of_gains (gains_putLegacy ht hi hp) ⟨rfl, fun _ => rfl⟩ rfl rfl]
    exact imbalance_withAsset he rfl
  | migrate hc hr ht hi hg hp =>
    rw [add_zero]
    exact imbalance_congr ⟨rfl, fun _ => rfl⟩ rfl rfl
      (holdings_migrate hg (legacyIndex_eq ht hi) hp)
  | note event => exact (add_zero _).symm

/-- **Moves** change the imbalance by what their labels say together. -/
theorem Moves.imbalance {ledger ledger' : Ledger} {more : Imbalance} {events : Event.Log}
    (h : Moves ledger more events ledger') : ledger'.imbalance = ledger.imbalance + more := by
  induction h with
  | refl => exact (add_zero _).symm
  | step h _ ih => rw [ih, h.imbalance, add_assoc]

/-! ### Transitions -/

/-- Every account has the stalk that its positions back, and their value booked. -/
structure Ledger.Balanced (ledger : Ledger) : Prop where
  due : ∀ id, ledger.stalkDue id = 0
  booked : ∀ id asset, ledger.valueUnbooked id asset = 0

namespace Ledger

variable {ledger ledger' : Ledger}

theorem Balanced.of_imbalance_eq (h : ledger.Balanced) (he : ledger'.imbalance = ledger.imbalance) :
    ledger'.Balanced := by
  obtain ⟨hdue, hrest⟩ := Prod.ext_iff.mp he
  obtain ⟨hbooked, -⟩ := Prod.ext_iff.mp hrest
  exact ⟨fun id => (congrFun hdue id).trans (h.due id),
    fun id asset => (congrFun hbooked (id, asset)).trans (h.booked id asset)⟩

/-- Terms are read only where a legacy position is, and there the asset is listed: so entries may
change, and assets be listed, as long as the legacy terms stay. -/
theorem Housed.holdings_of_assets (h : ledger.Housed) (hcharter : ledger'.charter = ledger.charter)
    (hdeposits : ledger'.deposits = ledger.deposits)
    (hlegacy : ledger'.legacyDeposits = ledger.legacyDeposits)
    (hterms : ∀ {id entry}, ledger.assets.get? id = some entry →
      ∃ entry', ledger'.assets.get? id = some entry' ∧ entry'.legacy = entry.legacy)
    (weight : Weight) : ledger'.holdings weight = ledger.holdings weight := by
  rw [holdings, holdings, hdeposits, hlegacy]
  refine congrArg (_ + ·) (SortedMap.sum_congr fun slot position hget => ?_)
  obtain ⟨-, -, -, -, terms, _, ht, -⟩ := h.legacyDeposits slot position hget
  obtain ⟨entry, he, hl⟩ := legacyTerms_eq_ok.mp ht
  obtain ⟨entry', he', hl'⟩ := hterms (asset_eq_ok.mp he)
  have hindex : ledger'.legacyIndex slot.asset slot.mark =
      ledger.legacyIndex slot.asset slot.mark := by
    rw [Ledger.legacyIndex, hcharter, legacyRate_eq (asset_eq_ok.mpr he') (hl'.trans hl),
      Ledger.legacyIndex, legacyRate_eq he hl]
  exact congrArg (fun index => position.weigh (weight slot.owner slot.asset index)) hindex

/-- Terms may change where nothing is held. -/
theorem Housed.balanced_of_assets (h : ledger.Housed) (hb : ledger.Balanced)
    (hcharter : ledger'.charter = ledger.charter) (haccounts : ledger'.accounts = ledger.accounts)
    (hdeposits : ledger'.deposits = ledger.deposits)
    (hlegacy : ledger'.legacyDeposits = ledger.legacyDeposits)
    (hterms : ∀ {id entry}, ledger.assets.get? id = some entry →
      ∃ entry', ledger'.assets.get? id = some entry' ∧
        entry'.stalkPerValue = entry.stalkPerValue ∧ entry'.legacy = entry.legacy) :
    ledger'.Balanced := by
  have haccount := account_congr haccounts
  have hstanding (id : AccountId) : (ledger.account id).checkpoints.sum ledger'.standing =
      (ledger.account id).checkpoints.sum ledger.standing := by
    refine SortedMap.sum_congr fun asset checkpoint hget => ?_
    obtain ⟨-, entry, he, -⟩ := h.checkpoint hget
    obtain ⟨entry', he', hs, -⟩ := hterms he
    rw [standing, standing, stalkPerValue_eq (asset_eq_ok.mpr he'), hs,
      stalkPerValue_eq (asset_eq_ok.mpr he)]
  have hholdings : ∀ weight, ledger'.holdings weight = ledger.holdings weight := by
    refine h.holdings_of_assets hcharter hdeposits hlegacy fun hget => ?_
    obtain ⟨entry', he', -, hl'⟩ := hterms hget
    exact ⟨entry', he', hl'⟩
  refine ⟨fun id => ?_, fun id asset => ?_⟩
  · rw [stalkDue, haccount, hstanding, hholdings]
    exact hb.due id
  · rw [valueUnbooked, haccount, hholdings]
    exact hb.booked id asset

/-- An entry put in the place of another on the same terms. -/
theorem Housed.balanced_withAsset (h : ledger.Housed) (hb : ledger.Balanced) {id : AssetId}
    {entry' : Asset}
    (hs : ∀ {entry}, ledger.assets.get? id = some entry →
      entry'.stalkPerValue = entry.stalkPerValue ∧ entry'.legacy = entry.legacy) :
    (ledger.withAsset id entry').Balanced := by
  refine h.balanced_of_assets hb rfl rfl rfl rfl ?_
  intro id' entry hget
  by_cases heq : id' = id
  · subst heq
    exact ⟨entry', SortedMap.get?_insert_self .., hs hget⟩
  · exact ⟨entry, (SortedMap.get?_insert_of_ne _ heq _).trans hget, rfl, rfl⟩

end Ledger

/-- **Transitions keep the accounts in balance.** -/
theorem Transition.balanced {ledger ledger' : Ledger} {paid : AccountId → ℕ} {events : Event.Log}
    (h : Transition ledger paid events ledger') (hl : ledger.Housed) (hb : ledger.Balanced) :
    ledger'.Balanced := by
  cases h with
  | posting h => exact hb.of_imbalance_eq (h.imbalance.trans (add_zero _))
  | @claim id _ h =>
    obtain ⟨updated, totalClaimed, hu, -, -, rfl⟩ := claimFlood_stages h
    have hupdated := hb.of_imbalance_eq ((Move.update hu).imbalance.trans (add_zero _))
    refine hupdated.of_imbalance_eq ?_
    exact imbalance_withSame rfl rfl
  | @whitelist id terms out h =>
    obtain ⟨hvalid, hnew, -, rfl⟩ := whitelist_stages h
    refine hl.balanced_withAsset hb ?_
    intro entry hget
    rw [hnew] at hget
    cases hget
  | dewhitelist h =>
    obtain ⟨entry, he, rfl⟩ := dewhitelist_stages h
    refine hl.balanced_withAsset hb ?_
    intro entry' hget
    obtain rfl := Option.some.inj ((asset_eq_ok.mp he).symm.trans hget)
    exact ⟨rfl, rfl⟩
  | setAccrualRate h =>
    obtain ⟨hrate, entry, he, rfl⟩ := setAccrualRate_stages h
    refine hl.balanced_withAsset hb ?_
    intro entry' hget
    obtain rfl := Option.some.inj ((asset_eq_ok.mp he).symm.trans hget)
    exact ⟨rfl, rfl⟩
  | reward h =>
    rcases receiveReward_stages h with ⟨-, rfl⟩ | ⟨_, _, _, _, -, -, -, -, rfl⟩
    · exact hb
    · exact ⟨hb.due, hb.booked⟩
  | advance h =>
    rcases advanceEpoch_frame h with heq | ⟨elapsed, assets, totals, floodBook, -, hgrow, heq⟩
    · rw [heq]
      exact hb
    rw [heq]
    refine hl.balanced_of_assets hb rfl rfl rfl rfl ?_
    intro id entry hget
    rcases SortedMap.get?_of_mapEach hgrow id with ⟨hnone, -⟩ | ⟨e, entry', hentry, hg, he⟩
    · exact absurd (hnone.symm.trans hget) nofun
    · obtain rfl := Option.some.inj (hentry.symm.trans hget)
      obtain ⟨_, -, rfl⟩ := Asset.grow_spec hg
      exact ⟨_, he, rfl, rfl⟩

end StalkLedger
