import StalkLedger.Proofs.FloodCourse
import StalkLedger.Proofs.Record

/-!
# The flows leave nothing unsaid

Each flow is told by its events (`Told`): what its steps leave unsaid is nothing, or it is told by an
event at the end of the flow.  So it is with an import, which enters the position first and records it
last, and with planting, which draws the pool first.

The one exception is a payout for a flood that nobody has roots in (`advanceEpoch_told`): it is paid
in, and no event tells it.
-/

namespace StalkLedger

open StalkLedger.Action Ledger

variable {ledger : Ledger}

/-! ### Positions one after the other -/

/-- Removing entry after entry: the induction is on the entries. -/
theorem removeEach_told {owner : AccountId} {asset : AssetId} {entries : List (Index × Amount)}
    {removal : Removal} {out : Outcome Removal}
    (h : removeEach owner asset entries removal ledger = .ok out) :
    Told ledger 0 out.events out.ledger := by
  induction entries generalizing removal ledger out with
  | nil =>
    obtain rfl := pure_eq_ok.mp h
    exact .refl ledger
  | cons entry entries ih =>
    obtain ⟨first, rest, hfirst, hnext, rfl⟩ := bind_apply_ok.mp h
    obtain ⟨extended, -, hrest⟩ := lift_bind.mp hnext
    exact (removePosition_told hfirst).next (ih hrest)

/-- Every entry that is removed is told by an event of its own. -/
theorem removeMultiple_told {owner : AccountId} {asset : AssetId} {indices : List Index}
    {amounts : List Amount} {out : Outcome Removal}
    (h : removeMultiple owner asset indices amounts ledger = .ok out) :
    Told ledger 0 out.events out.ledger :=
  removeEach_told (removeMultiple_stages h).2

/-- Entering positions for a recipient: who they come from is recorded, and adds nothing. -/
theorem receiveEach_told {sender recipient : AccountId} {asset : AssetId}
    {entries : List (Index × Amount × Amount)} {out : Outcome Unit}
    (h : receiveEach sender recipient asset entries ledger = .ok out) :
    Told ledger 0 out.events out.ledger := by
  induction entries generalizing ledger out with
  | nil =>
    obtain rfl := pure_eq_ok.mp h
    exact .refl ledger
  | cons entry entries ih =>
    obtain ⟨index, amount, value⟩ := entry
    unfold receiveEach at h
    split at h
    next => exact ih h
    next =>
      obtain ⟨added, _, hadd, h₁, rfl⟩ := bind_apply_ok.mp h
      obtain ⟨rest, hrest, rfl⟩ := emit_bind.mp h₁
      have hnote : Told added.ledger 0 ⟨[.positionTransferred sender recipient asset index amount
          value added.ledger.epoch]⟩ added.ledger := (Told.refl _).noted rfl rfl
      exact (addPositionAt_told hadd).next (hnote.next (ih hrest))

/-! ### Deposits, withdrawals and transfers -/

/-- A deposit is told by its mowing, its position and its stalk, -/
theorem deposit_told {owner : AccountId} {asset : AssetId} {quantity value : Amount}
    {out : Outcome DepositReceipt} (h : deposit owner asset quantity value ledger = .ok out) :
    Told ledger 0 out.events out.ledger := by
  obtain ⟨mown, tip, added, booked, entry, stalk, minted, -, hmow, -, hadd, hbook, -, -, hmint,
    rfl⟩ := deposit_stages h
  have hbooked := (creditValue_told hbook).next (mintStalk_told hmint)
  exact (mow_told hmow).next ((addPositionAt_told hadd).next hbooked)

/-- a withdrawal by its mowing, its removals and its stalk. -/
theorem withdraw_told {owner : AccountId} {asset : AssetId} {indices : List Index}
    {amounts : List Amount} {out : Outcome WithdrawReceipt}
    (h : withdraw owner asset indices amounts ledger = .ok out) :
    Told ledger 0 out.events out.ledger := by
  obtain ⟨mown, removed, entry, carried, debited, burned, hmow, hremove, -, -, hdebit, hburn,
    rfl⟩ := withdraw_stages h
  have hburned := (debitValue_told hdebit).next (burnStalk_told hburn)
  exact (mow_told hmow).next ((removeMultiple_told hremove).next hburned)

/-- What changes hands is told as removed by the sender and added by the recipient. -/
theorem transferRealized_told {sender recipient : AccountId} {asset : AssetId}
    {indices : List Index} {amounts : List Amount} {out : Outcome TransferReceipt}
    (h : transferRealized sender recipient asset indices amounts ledger = .ok out) :
    Told ledger 0 out.events out.ledger := by
  obtain ⟨removed, received, entry, carried, debited, credited, handed, hremove, hreceive, -, -,
    hdebit, hcredit, hhand, rfl⟩ := transferRealized_stages h
  have hhanded := (debitValue_told hdebit).next
    ((creditValue_told hcredit).next (transferStalk_told hhand))
  exact (removeMultiple_told hremove).next ((receiveEach_told hreceive).next hhanded)

/-- A transfer tells both mowings before. -/
theorem transfer_told {sender recipient : AccountId} {asset : AssetId} {indices : List Index}
    {amounts : List Amount} {out : Outcome TransferReceipt}
    (h : transfer sender recipient asset indices amounts ledger = .ok out) :
    Told ledger 0 out.events out.ledger := by
  obtain ⟨mown, mown', moved, hmow, hmow', hmove, rfl⟩ := transfer_stages h
  exact (mow_told hmow).next ((mow_told hmow').next (transferRealized_told hmove))

/-! ### Conversions -/

/-- A conversion tells what it retires as a withdrawal does, -/
theorem retire_told {order : ConversionOrder} {out : Outcome Retired}
    (h : retire order ledger = .ok out) : Told ledger 0 out.events out.ledger := by
  obtain ⟨removed, entry, carried, debited, burned, hremove, -, -, hdebit, hburn, rfl⟩ :=
    retire_stages h
  exact (removeMultiple_told hremove).next ((debitValue_told hdebit).next (burnStalk_told hburn))

/-- and the new position as it is entered; its own event adds nothing to that. -/
theorem enter_told {order : ConversionOrder} {retired : Retired} {value : Amount}
    {out : Outcome ConversionReceipt} (h : enter order retired value ledger = .ok out) :
    Told ledger 0 out.events out.ledger := by
  obtain ⟨target, backdate, forfeited, base, stalk, added, booked, minted, event, -, -, -, -, -,
    hadd, hbook, hmint, rfl, rfl⟩ := enter_stages h
  have hminted := (creditValue_told hbook).next (mintStalk_told hmint)
  refine (addPositionAt_told hadd).next (hminted.noted ?_ ?_) <;> rfl

/-- So a conversion leaves nothing unsaid. -/
theorem convert_told {order : ConversionOrder} {valueOf : Amount → Except Fault Amount}
    {out : Outcome ConversionReceipt} (h : convert order valueOf ledger = .ok out) :
    Told ledger 0 out.events out.ledger := by
  obtain ⟨mown, mown', retired, recomputed, entered, -, hmow, hmow', hretire, -, henter, rfl⟩ :=
    convert_stages h
  have hmown' : Told mown.ledger 0 mown'.events mown'.ledger := by
    rcases hmow' with ⟨-, hmow'⟩ | ⟨-, rfl⟩
    · exact mow_told hmow'
    · exact .refl _
  exact (mow_told hmow).next (hmown'.next ((retire_told hretire).next (enter_told henter)))

/-! ### Planting -/

/-- **Planting** draws the pool first, and tells it last. -/
theorem plant_told {id : AccountId} {out : Outcome PlantReceipt}
    (h : plant id ledger = .ok out) : Told ledger 0 out.events out.ledger := by
  obtain ⟨mown, quantity, entry, hmow, -, -, hplant⟩ := plant_stages h
  rcases hplant with ⟨-, rfl⟩ | ⟨stalk, pool, tip, added, booked, credited, event, -, hpool, -,
    hadd, hbook, hcredit, rfl, rfl⟩
  · exact mow_told hmow
  have hdrawn : Told mown.ledger (Pi.single .earnedPool (-(quantity.toNat : ℤ))) ∅
      { mown.ledger with totals := { mown.ledger.totals with earnedPool := pool } } := by
    refine (Told.withTotals mown.ledger _).of_eq ?_
    rw [← Unsigned.sub_eq_ok.mp hpool, Nat.cast_add, sub_add_cancel_left]
  have hnote : Told credited.ledger _
      ⟨[.planted id tip.accrualIndex quantity stalk credited.ledger.epoch]⟩ credited.ledger :=
    .note rfl rfl _
  have hcredited := (creditValue_told hbook).next ((creditStalk_told hcredit).next hnote)
  have hplanted := hdrawn.trans ((addPositionAt_told hadd).next hcredited)
  exact (mow_told hmow).next (hplanted.of_eq (add_neg_cancel _))

/-! ### Legacy positions -/

/-- **An import** enters the position first, and tells it last. -/
theorem importLegacy_told {owner : AccountId} {asset : AssetId} {legacyEpoch : Epoch}
    {quantity value : Amount} {out : Outcome Index}
    (h : importLegacy owner asset legacyEpoch quantity value ledger = .ok out) :
    Told ledger 0 out.events out.ledger := by
  obtain ⟨terms, index, mown, legacyDeposits, entry, entry', booked, base, grown, stalk, minted,
    event, hterms, -, -, -, hindex, hmow, hput, hentry, htake, hbook, -, -, -, hmint, rfl, rfl⟩ :=
    importLegacy_stages h
  have hsame : entry'.emptied = entry.emptied := by
    obtain ⟨_, _, -, -, rfl⟩ := Asset.take_eq_ok.mp htake
    rfl
  have hkeeps := (mow_moves hmow).1.keeps
  rw [← hkeeps.charter] at hindex
  have hgained : Told mown.ledger (.position ⟨owner, asset, index⟩ quantity.toNat value.toNat) ∅
      ({ mown.ledger with legacyDeposits }.withAsset asset entry') :=
    .gained (gains_putLegacy (hkeeps.legacyTerms hterms) hindex hput) rfl rfl rfl hentry hsame
  have hnote : Told minted.ledger _
      ⟨[.legacyPositionImported owner asset legacyEpoch index quantity value minted.ledger.epoch]⟩
      minted.ledger := .note rfl rfl _
  have hminted := (creditValue_told hbook).next ((mintStalk_told hmint).next hnote)
  exact (mow_told hmow).next ((hgained.trans hminted).of_eq (add_neg_cancel _))

/-- Migrating epoch after epoch: the terms stay the same. -/
theorem migrateEach_told {owner : AccountId} {asset : AssetId} {terms : LegacyTerms}
    {epochs : List Epoch} {out : Outcome (List Index)}
    (hterms : ledger.legacyTerms asset = .ok terms)
    (h : migrateEach owner asset terms epochs ledger = .ok out) :
    Told ledger 0 out.events out.ledger := by
  induction epochs generalizing ledger out with
  | nil =>
    obtain rfl := pure_eq_ok.mp h
    exact .refl ledger
  | cons epoch epochs ih =>
    obtain ⟨moved, _, hmove, h₁, rfl⟩ := bind_apply_ok.mp h
    obtain ⟨others, hothers, rfl⟩ := bind_pure_eq_ok.mp h₁
    obtain ⟨-, hstages⟩ := migrateEpoch_stages hmove
    have hsame : SameTerms ledger moved.ledger := by
      rcases hstages with ⟨-, rfl⟩ | ⟨_, _, _, -, -, -, rfl⟩
      · exact .refl ledger
      · exact ⟨rfl, fun _ => rfl⟩
    have hrest := ih (hsame.legacyTerms hterms) hothers
    exact (migrateEpoch_told hterms hmove).next hrest

/-- A migration is told entry by entry. -/
theorem migrate_told {owner : AccountId} {asset : AssetId} {epochs : List Epoch}
    {out : Outcome (List Index)} (h : migrate owner asset epochs ledger = .ok out) :
    Told ledger 0 out.events out.ledger := by
  obtain ⟨terms, mown, moved, hterms, hmow, hmove, rfl⟩ := migrate_stages h
  have hterms' := (mow_moves hmow).1.keeps.legacyTerms hterms
  exact (mow_told hmow).next (migrateEach_told hterms' hmove)

/-! ### Claims -/

/-- **A claim** is told by what it pays out. -/
theorem claimFlood_told {id : AccountId} {out : Outcome Amount}
    (h : claimFlood id ledger = .ok out) : Told ledger 0 out.events out.ledger := by
  obtain ⟨updated, totalClaimed, hupdate, -, hadd, rfl⟩ := claimFlood_stages h
  have hclaimed : Told updated.ledger 0 ⟨[.floodPayoutClaimed id updated.ledger.charter.floodAsset
      (updated.ledger.account id).flood.claimable updated.ledger.epoch]⟩
      { updated.ledger with floodBook := { updated.ledger.floodBook with totalClaimed } } := by
    refine .flooded rfl (add_zero _).symm ?_ (fun _ => rfl) rfl rfl
    exact_mod_cast Unsigned.add_eq_ok.mp hadd
  exact (updateAccount_told hupdate).next (hclaimed.next (.withBalances rfl rfl))

/-! ### The registry -/

/-- An asset may be listed, or its terms may change, without a word on what is held. -/
theorem Ledger.Housed.told_of_assets {ledger' : Ledger} (hl : ledger.Housed)
    (hcharter : ledger'.charter = ledger.charter) (haccounts : ledger'.accounts = ledger.accounts)
    (hdeposits : ledger'.deposits = ledger.deposits)
    (hlegacy : ledger'.legacyDeposits = ledger.legacyDeposits)
    (htotals : ledger'.totals = ledger.totals) (hflood : ledger'.floodBook = ledger.floodBook)
    (hterms : ∀ {id entry}, ledger.assets.get? id = some entry →
      ∃ entry', ledger'.assets.get? id = some entry' ∧ entry'.legacy = entry.legacy) :
    Told ledger 0 ∅ ledger' := by
  have hholdings := hl.holdings_of_assets hcharter hdeposits hlegacy hterms
  exact .silent ((books_congr hholdings haccounts (by rw [htotals]) hflood).trans (add_zero _).symm)
    (read_congr haccounts hflood)

/-- An entry put in the place of another on the same terms. -/
theorem Ledger.Housed.told_withAsset (hl : ledger.Housed) {id : AssetId} {entry' : Asset}
    (hs : ∀ {entry}, ledger.assets.get? id = some entry → entry'.legacy = entry.legacy) :
    Told ledger 0 ∅ (ledger.withAsset id entry') := by
  refine hl.told_of_assets rfl rfl rfl rfl rfl rfl ?_
  intro id' entry hget
  by_cases heq : id' = id
  · subst heq
    exact ⟨entry', SortedMap.get?_insert_self .., hs hget⟩
  · exact ⟨entry, (SortedMap.get?_insert_of_ne _ heq _).trans hget, rfl⟩

/-- In particular another entry of the same asset, if it keeps its legacy terms. -/
theorem Ledger.Housed.told_entry (hl : ledger.Housed) {id : AssetId} {entry entry' : Asset}
    (he : ledger.asset id = .ok entry) (hs : entry'.legacy = entry.legacy) :
    Told ledger 0 ∅ (ledger.withAsset id entry') := by
  refine hl.told_withAsset fun hget => ?_
  obtain rfl := Option.some.inj ((asset_eq_ok.mp he).symm.trans hget)
  exact hs

/-- The registry is told by its events, which move no position and no balance. -/
theorem whitelist_told {id : AssetId} {terms : AssetTerms} {out : Outcome Unit}
    (hl : ledger.Housed) (h : whitelist id terms ledger = .ok out) :
    Told ledger 0 out.events out.ledger := by
  obtain ⟨-, hnew, -, rfl⟩ := whitelist_stages h
  have hlisted : Told ledger 0 ∅ (ledger.withAsset id (.whitelisted terms ledger.epoch)) := by
    refine hl.told_withAsset fun hget => ?_
    rw [hnew] at hget
    cases hget
  refine hlisted.noted ?_ ?_ <;> rfl

theorem dewhitelist_told {id : AssetId} {out : Outcome Unit} (hl : ledger.Housed)
    (h : dewhitelist id ledger = .ok out) : Told ledger 0 out.events out.ledger := by
  obtain ⟨entry, he, rfl⟩ := dewhitelist_stages h
  refine (hl.told_entry he ?_).noted ?_ ?_ <;> rfl

theorem setAccrualRate_told {id : AssetId} {rate : Index} {out : Outcome Unit} (hl : ledger.Housed)
    (h : setAccrualRate id rate ledger = .ok out) : Told ledger 0 out.events out.ledger := by
  obtain ⟨-, entry, he, rfl⟩ := setAccrualRate_stages h
  refine (hl.told_entry he ?_).noted ?_ ?_ <;> rfl

/-! ### The clock -/

/-- A reward is told with the pool that it leads to. -/
theorem receiveReward_told {quantity : Amount} {out : Outcome Unit}
    (h : receiveReward quantity ledger = .ok out) : Told ledger 0 out.events out.ledger := by
  rcases receiveReward_stages h with ⟨-, rfl⟩ | ⟨base, pool, added, stalk, -, hpool, -, -, rfl⟩
  · exact .refl ledger
  have hgrown := Told.withTotals ledger { ledger.totals with stalk, earnedPool := pool }
  refine hgrown.noted ?_ ?_
  · show Pi.single _ _ = _
    rw [Unsigned.add_eq_ok.mp hpool, Nat.cast_add, add_sub_cancel_left]
  · rfl

/-- A flood begins or ends, and nothing is paid or claimed by that. -/
theorem turnFlood_told {flooding : Bool} {out : Outcome Unit}
    (h : turnFlood flooding ledger = .ok out) : Told ledger 0 out.events out.ledger := by
  rcases turnFlood_stages h with ⟨-, rfl⟩ | ⟨start, -, rfl⟩ | rfl
  · exact .flooded Books.floods_zero.symm (add_zero _).symm (add_zero _).symm (fun _ => rfl) rfl rfl
  · obtain ⟨hactive, hrate, hpaid, -, hclaimed⟩ :=
      ledger.floodBook.active_closed start ledger.epoch
    refine .flooded Books.floods_zero.symm ?_ ?_ (fun _ => rfl) hrate hactive
    · rw [hpaid, add_zero]
    · rw [hclaimed, add_zero]
  · exact .refl ledger

/-- What is paid in raises the total, and leaves the flood that is on with its roots; without roots
it does not move the payout per root. -/
theorem FloodBook.paid_frame {book book' : FloodBook} {start : Epoch} {flood : Flood}
    {amount : Amount} (hon : book.active = some start) (hf : book.flood start = .ok flood)
    (h : book.paid start flood amount = .ok book') :
    book'.totalPaid.toNat = book.totalPaid.toNat + amount.toNat ∧
      book'.totalClaimed = book.totalClaimed ∧ book'.active = book.active ∧
        book'.lockedRoots = flood.roots ∧
          (flood.roots = 0 → book'.payoutPerRoot = book.payoutPerRoot) := by
  obtain ⟨_, _, -, htotal, ⟨-, rfl⟩ | ⟨hroots, _, _, _, _, -, -, -, rfl⟩⟩ := paid_stages h
  · refine ⟨htotal, rfl, rfl, ?_, fun _ => rfl⟩
    simp only [lockedRoots, hon, Option.bind_some, flood_eq_ok.mp hf]
  · refine ⟨htotal, rfl, rfl, ?_, fun hzero => absurd hzero hroots⟩
    simp only [lockedRoots, hon, Option.bind_some, SortedMap.get?_insert_self]

/-- **A payout** is told if there are roots to be paid on; otherwise no event tells it. -/
theorem payFlood_told {amount : Amount} {out : Outcome Unit}
    (h : payFlood amount ledger = .ok out) :
    Told ledger (.floods (if out.ledger.floodBook.lockedRoots = 0 then amount.toNat else 0) 0)
      out.events out.ledger := by
  obtain ⟨start, flood, book, events, hon, hf, hpaid, rfl, rfl⟩ := payFlood_stages h
  obtain ⟨htotal, hclaimed, hactive, hlocked, hrate⟩ := FloodBook.paid_frame hon hf hpaid
  have htotal : (book.totalPaid.toNat : ℤ) = ledger.floodBook.totalPaid.toNat + amount.toNat := by
    exact_mod_cast htotal
  have hclaimed : (book.totalClaimed.toNat : ℤ) = ledger.floodBook.totalClaimed.toNat + 0 := by
    rw [hclaimed, add_zero]
  simp only [hlocked]
  split
  next hzero =>
    refine .silent (books_withFloodBook ledger htotal hclaimed) fun reading => ?_
    cases reading with
    | balances id => rfl
    | payoutPerRoot => exact hrate hzero
    | flood => exact hactive
  next =>
    rw [Books.floods_zero]
    exact .flooded rfl htotal hclaimed (fun _ => rfl) rfl hactive

/-- What is paid in by a report that was followed, if there are no roots that it is paid on. -/
def EpochReport.unrecorded (report : EpochReport) (followed : Bool) (after : Ledger) : ℕ :=
  if followed ∧ after.floodBook.lockedRoots = 0 then report.floodPayout.toNat else 0

/-- **A report of the clock** is told but for a payout that finds no roots. -/
theorem advanceEpoch_told {report : EpochReport} {out : Outcome Bool} (hl : ledger.Housed)
    (h : advanceEpoch report ledger = .ok out) :
    Told ledger (.floods (report.unrecorded out.result out.ledger) 0) out.events out.ledger := by
  rcases advanceEpoch_stages h with
    ⟨-, rfl⟩ | ⟨-, assets, rewarded, turned, paid, hassets, hreward, hturn, hpay, rfl⟩
  · exact (Told.refl ledger).of_eq Books.floods_zero.symm
  have hgrown : Told ledger 0 ∅ { ledger with assets, epoch := report.epoch } := by
    refine hl.told_of_assets rfl rfl rfl rfl rfl rfl ?_
    intro id entry hget
    rcases SortedMap.get?_of_mapEach hassets id with ⟨hnone, -⟩ | ⟨e, entry', hentry, hg, he⟩
    · exact absurd (hnone.symm.trans hget) nofun
    · obtain rfl := Option.some.inj (hentry.symm.trans hget)
      obtain ⟨_, -, rfl⟩ := Asset.grow_spec hg
      exact ⟨_, he, rfl⟩
  have hadvanced : Told ledger 0 ⟨[.epochAdvanced ledger.epoch report.epoch]⟩
      { ledger with assets, epoch := report.epoch } := hgrown.noted rfl rfl
  have hpaid : Told turned.ledger (.floods (report.unrecorded true paid.ledger) 0) paid.events
      paid.ledger := by
    rcases hpay with hpay | ⟨hzero, rfl⟩
    · refine (payFlood_told hpay).of_eq ?_
      simp only [EpochReport.unrecorded, true_and, Nat.cast_ite, Nat.cast_zero]
    · refine (Told.refl _).of_eq ?_
      rw [EpochReport.unrecorded, hzero, Unsigned.toNat_zero, ite_self, Nat.cast_zero,
        Books.floods_zero]
  exact hadvanced.next ((receiveReward_told hreward).next ((turnFlood_told hturn).next hpaid))

end StalkLedger
