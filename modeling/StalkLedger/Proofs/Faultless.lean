import StalkLedger.Proofs.Avoid
import StalkLedger.Proofs.Claimable

/-!
# No flow ends in an internal fault

In an orderly ledger every flow avoids the internal faults:

* whatever touches positions has mown first, so the account is current;
* no checkpoint and no position is beyond the tip, so growth is never counted backward;
* what is taken off a balance or a total is covered by it;
* a flood that is on has its record, and what is shared out of a payout is no more than there is.

A flow is followed step by step, so each of its laws is one chain of the laws of `Avoids`.  A step
that could fail so gets, as its condition, what the steps before it have left.
-/

namespace StalkLedger

open StalkLedger.Action Ledger

variable {fault : Fault} {ledger : Ledger}

/-! ### Mowing -/

namespace Ledger

/-- The index that is answered for a listed asset is its tip. -/
theorem accrualIndex_eq_ok {asset : AssetId} {tip : Index}
    (h : ledger.accrualIndex asset = .ok tip) : tip.toInt = ledger.tip asset := by
  simp only [accrualIndex, bind_eq_ok, StalkLedger.pure_eq_ok] at h
  obtain ⟨entry, he, rfl⟩ := h
  exact (tip_eq he).symm

/-- No account has been realized beyond the tip. -/
theorem Housed.lastIndex_le_tip (h : ledger.Housed) (id : AccountId) (asset : AssetId) :
    ((ledger.account id).checkpoint asset).lastIndex.toInt ≤ ledger.tip asset := by
  rw [Account.checkpoint]
  cases hget : (ledger.account id).checkpoints.get? asset with
  | none =>
    rw [Option.getD_none, Checkpoint.fresh, Signed.toInt_zero]
    exact h.tip_nonneg asset
  | some checkpoint => exact h.reached_le_tip ⟨checkpoint, hget, le_rfl⟩

end Ledger

/-- Growth since the last realization can be counted, because no account has been realized beyond
the tip. -/
theorem creditGrowth_avoids {id : AccountId} {asset : AssetId} (hl : ledger.Housed) :
    Avoids fault (creditGrowth id asset ledger) := by
  refine .read (.lift (ledger.accrualIndex_avoids _) fun tip htip => ?_)
  have hle := hl.lastIndex_le_tip id asset
  rw [← accrualIndex_eq_ok htip] at hle
  split
  · exact .after rfl (.pure _)
  · exact .lift (grownReward_avoids _ hle) fun grown _ => .after rfl <|
      .seq mintStalk_avoids fun _ _ => .pure _

namespace Ledger.Orderly

/-- Mowing: the balance of an account is always defined, and so is its growth. -/
theorem mow_avoids (h : ledger.Orderly) (id : AccountId) (asset : AssetId) :
    Avoids fault (mow id asset ledger) := by
  obtain ⟨updated, hu⟩ := h.solvent.updateAccount_succeeds id
  exact .after hu (creditGrowth_avoids ((Move.update hu).housed h.consistent.housed))

/-! ### Deposits and withdrawals -/

/-- After the mowing the account is current, so the position can be added. -/
theorem deposit_avoids (h : ledger.Orderly) (owner : AccountId) (asset : AssetId)
    (quantity value : Amount) : Avoids fault (deposit owner asset quantity value ledger) :=
  .read <| .lift (ledger.requireOpen_avoids _) fun _ _ =>
    .seq (h.mow_avoids owner asset) fun _ hmow =>
    .seq (addPosition_avoids _ (mow_moves hmow).2) fun _ _ =>
    .seq (creditValue_avoids _) fun booked _ =>
    .read <| .lift (booked.ledger.asset_avoids _) fun _ _ =>
    .lift (Unsigned.mul_avoids _ _) fun _ _ =>
    .seq mintStalk_avoids fun _ _ => .pure _

/-- What comes after a removal: the stalk that was carried is told, and there, whatever else has
happened to the positions in the meantime. -/
theorem carried_avoids {owner : AccountId} {asset : AssetId} {indices : List Index}
    {amounts : List Amount} {removed : Outcome Removal} {later : Ledger} {entry : Asset}
    (h : ledger.Orderly) (hc : ledger.Current owner asset)
    (hr : removeMultiple owner asset indices amounts ledger = .ok removed)
    (hkeeps : Keeps removed.ledger later) (haccounts : later.accounts = removed.ledger.accounts)
    (htotals : later.totals = removed.ledger.totals) (he : later.asset asset = .ok entry) :
    Avoids fault (entry.stalkOf indices removed.result) ∧
      ∀ carried, entry.stalkOf indices removed.result = .ok carried →
        ∃ debited, debitValue owner asset removed.result.totalValue later = .ok debited ∧
          later.SameBalances debited.ledger ∧ debited.ledger.Covers owner carried.stalk := by
  obtain ⟨-, taking⟩ := removeMultiple_taking hr
  have hremove := (removeMultiple_stages hr).2
  obtain ⟨haccounts', htotals'⟩ := removeEach_frame hremove
  have hkeeps' := taking.moves.keeps.trans hkeeps
  have htip : entry.accrualIndex.toInt = ledger.tip asset := by
    rw [← hkeeps'.tip, tip_eq he]
  have hprice : (entry.stalkPerValue.toNat : ℤ) = ledger.stalkPerValue asset := by
    rw [← hkeeps'.stalkPerValue, stalkPerValue_eq he]
  refine ⟨Asset.stalkOf_avoids ?_, fun carried hcarried => ?_⟩
  · rw [htip]
    exact taking.below h.consistent.housed hremove
  · exact removeMultiple_covers h hc hr (haccounts.trans haccounts') (htotals.trans htotals')
      hprice htip hcarried

/-- After the mowing the account is current, and covers whatever stalk its positions carried. -/
theorem withdraw_avoids (h : ledger.Orderly) (owner : AccountId) (asset : AssetId)
    (indices : List Index) (amounts : List Amount) :
    Avoids fault (withdraw owner asset indices amounts ledger) := by
  refine .seq (h.mow_avoids owner asset) fun mown hmow => ?_
  have hmown := h.of_mow hmow
  have hc := (mow_moves hmow).2
  refine .seq (removeMultiple_avoids _ _ hmown.consistent.tallied hc) fun removed hr => ?_
  refine .read (.lift (removed.ledger.asset_avoids _) fun entry he => ?_)
  obtain ⟨hstalk, hcarries⟩ := hmown.carried_avoids hc hr (.refl _) rfl rfl he
  refine .lift hstalk fun carried hcarried => ?_
  obtain ⟨debited, hdebit, -, hcovers⟩ := hcarries carried hcarried
  exact .after hdebit (.seq (burnStalk_avoids hcovers) fun _ _ => .pure _)

end Ledger.Orderly

/-! ### Transfers -/

/-- Receiving positions leaves the accounts and the totals alone. -/
theorem receiveEach_frame {sender recipient : AccountId} {asset : AssetId}
    {entries : List (Index × Amount × Amount)} {out : Outcome Unit}
    (h : receiveEach sender recipient asset entries ledger = .ok out) :
    out.ledger.accounts = ledger.accounts ∧ out.ledger.totals = ledger.totals := by
  induction entries generalizing ledger out with
  | nil =>
    obtain rfl := pure_eq_ok.mp h
    exact ⟨rfl, rfl⟩
  | cons entry entries ih =>
    unfold receiveEach at h
    split at h
    · exact ih h
    · obtain ⟨added, _, hadd, h₁, rfl⟩ := bind_apply_ok.mp h
      obtain ⟨rest, hrest, rfl⟩ := emit_bind.mp h₁
      obtain ⟨_, _, _, -, -, -, -, -, -, rfl⟩ := addPositionAt_eq_ok.mp hadd
      obtain ⟨haccounts, htotals⟩ := ih hrest
      exact ⟨haccounts, htotals⟩

/-- Positions can be received by an account that is current, since receiving one keeps it current.
-/
theorem receiveEach_avoids {sender recipient : AccountId} {asset : AssetId}
    (entries : List (Index × Amount × Amount)) (hc : ledger.Current recipient asset) :
    Avoids fault (receiveEach sender recipient asset entries ledger) := by
  induction entries generalizing ledger with
  | nil => exact .pure ()
  | cons entry entries ih =>
    unfold receiveEach
    split
    · exact ih hc
    · exact .seq (addPositionAt_avoids _ hc) fun added hadd =>
        .after rfl (ih ((Keeps.addPositionAt hadd).current hc))

namespace Ledger.Orderly

/-- Both accounts are current, and the value is taken off the sender before the stalk is. -/
theorem transferRealized_avoids (h : ledger.Orderly) {sender recipient : AccountId}
    {asset : AssetId} (hs : ledger.Current sender asset) (hr : ledger.Current recipient asset)
    (indices : List Index) (amounts : List Amount) :
    Avoids fault (transferRealized sender recipient asset indices amounts ledger) := by
  refine .lift (checkLengths_avoids _ _) fun _ _ => .current hr ?_
  refine .seq (removeMultiple_avoids _ _ h.consistent.tallied hs) fun removed hremove => ?_
  have hkeeps := (removeMultiple_taking hremove).2.moves.keeps
  refine .seq (receiveEach_avoids _ (hkeeps.current hr)) fun received hreceive => ?_
  obtain ⟨haccounts, htotals⟩ := receiveEach_frame hreceive
  refine .read (.lift (received.ledger.asset_avoids _) fun entry he => ?_)
  obtain ⟨hstalk, hcarries⟩ :=
    h.carried_avoids hs hremove (receiveEach_keeps hreceive) haccounts htotals he
  refine .lift hstalk fun carried hcarried => ?_
  obtain ⟨debited, hdebit, -, hcovers⟩ := hcarries carried hcarried
  refine .after hdebit (.seq (creditValue_avoids _) fun credited hcredit => ?_)
  exact .seq (transferStalk_avoids (hcovers.of_balances (.creditValue hcredit))) fun _ _ => .pure _

/-- The recipient is mown after the sender, and the sender stays current. -/
theorem transfer_avoids (h : ledger.Orderly) (sender recipient : AccountId) (asset : AssetId)
    (indices : List Index) (amounts : List Amount) :
    Avoids fault (transfer sender recipient asset indices amounts ledger) := by
  refine .seq (h.mow_avoids sender asset) fun mown hmow => ?_
  have hmown := h.of_mow hmow
  refine .seq (hmown.mow_avoids recipient asset) fun mown' hmow' => ?_
  obtain ⟨hmoves, hrecipient⟩ := mow_moves hmow'
  exact (hmown.of_mow hmow').transferRealized_avoids (hmoves.keeps.current (mow_moves hmow).2)
    hrecipient indices amounts

end Ledger.Orderly

/-! ### Conversions -/

/-- The quantity removed is the sum of what was asked for. -/
theorem removeEach_quantity {owner : AccountId} {asset : AssetId}
    {entries : List (Index × Amount)} {removal : Removal} {out : Outcome Removal}
    (h : removeEach owner asset entries removal ledger = .ok out) :
    out.result.totalQuantity.toNat =
      removal.totalQuantity.toNat + (entries.map fun e => e.2.toNat).sum := by
  induction entries generalizing removal ledger out with
  | nil =>
    obtain rfl := pure_eq_ok.mp h
    rfl
  | cons entry entries ih =>
    obtain ⟨first, rest, -, hnext, rfl⟩ := bind_apply_ok.mp h
    obtain ⟨extended, hextend, hrest⟩ := lift_bind.mp hnext
    obtain ⟨-, hquantity, -⟩ := Removal.extend_eq_ok hextend
    rw [ih hrest, hquantity, List.map_cons, List.sum_cons, Nat.add_assoc]

/-- The sum of the amounts that is computed is their sum. -/
theorem sumOf_eq_ok {amounts : List Amount} {sum total : Amount}
    (h : sumOf amounts sum = .ok total) :
    total.toNat = sum.toNat + (amounts.map fun amount => amount.toNat).sum := by
  induction amounts generalizing sum with
  | nil =>
    cases h
    rfl
  | cons amount amounts ih =>
    obtain ⟨sum', hsum, hrest⟩ := bind_eq_ok.mp h
    rw [ih hrest, Unsigned.add_eq_ok.mp hsum, List.map_cons, List.sum_cons, Nat.add_assoc]

/-- So a removal removes all of it. -/
theorem removeMultiple_quantity {owner : AccountId} {asset : AssetId} {indices : List Index}
    {amounts : List Amount} {requested : Amount} {removed : Outcome Removal}
    (hs : sumOf amounts 0 = .ok requested)
    (hr : removeMultiple owner asset indices amounts ledger = .ok removed) :
    removed.result.totalQuantity = requested := by
  obtain ⟨hlength, hremove⟩ := removeMultiple_stages hr
  have hamounts : (indices.zip amounts).map (fun e => e.2.toNat) =
      amounts.map fun amount => amount.toNat := by
    rw [← List.map_snd_zip hlength.ge, List.map_map, List.map_snd_zip hlength.ge]
    rfl
  refine Unsigned.ext ?_
  rw [removeEach_quantity hremove, sumOf_eq_ok hs, hamounts]
  rfl

namespace Ledger.Orderly

/-- The check of what was removed against what was asked for never fails. -/
theorem retire_avoids (h : ledger.Orderly) {order : ConversionOrder}
    (hc : ledger.Current order.owner order.fromAsset) : Avoids fault (retire order ledger) := by
  refine .lift (sumOf_avoids _ _) fun requested hsum => ?_
  refine .seq (removeMultiple_avoids _ _ h.consistent.tallied hc) fun removed hr => ?_
  rw [if_neg (not_not.mpr (removeMultiple_quantity hsum hr))]
  refine .read (.lift (removed.ledger.asset_avoids _) fun entry he => ?_)
  obtain ⟨hstalk, hcarries⟩ := h.carried_avoids hc hr (.refl _) rfl rfl he
  refine .lift hstalk fun carried hcarried => ?_
  obtain ⟨debited, hdebit, -, hcovers⟩ := hcarries carried hcarried
  exact .after hdebit (.seq (burnStalk_avoids hcovers) fun _ _ => .pure _)

end Ledger.Orderly

/-- What is carried over is growth rounded down, so the rest can be taken off it. -/
theorem enter_avoids {order : ConversionOrder} (retired : Retired) {value : Amount}
    (hc : ledger.Current order.owner order.toAsset) (hne : value ≠ 0) :
    Avoids fault (enter order retired value ledger) := by
  refine .read (.lift (ledger.asset_avoids _) fun target _ =>
    .lift (indexForGrown_avoids hne) fun backdate hbackdate => ?_)
  have hcarried : backdate.carried ≤ retired.carried.grown := by
    obtain ⟨-, -, -, hcarried⟩ := indexForGrown_eq_ok.mp hbackdate
    rw [Unsigned.le_iff, hcarried]
    exact Nat.div_mul_le_self _ _
  exact .lift (Unsigned.sub_avoids hcarried) fun _ _ => .lift (Unsigned.mul_avoids _ _) fun _ _ =>
    .lift (Unsigned.add_avoids _ _) fun _ _ => .seq (addPositionAt_avoids _ hc) fun _ _ =>
    .seq (creditValue_avoids _) fun _ _ => .seq mintStalk_avoids fun _ _ => .after rfl (.pure _)

namespace Ledger.Orderly

/-- Once the account is realized in both assets, only the valuation can answer with such a fault. -/
theorem convertRealized_avoids (h : ledger.Orderly) {order : ConversionOrder}
    {valueOf : Amount → Except Fault Amount} (hfrom : ledger.Current order.owner order.fromAsset)
    (hto : ledger.Current order.owner order.toAsset)
    (hvalue : Avoids fault (valueOf order.toQuantity)) :
    Avoids fault ((do
      let retired ← retire order
      let recomputed ← valueOf order.toQuantity
      let value := max recomputed retired.removal.totalValue
      if order.toQuantity = 0 ∨ value = 0 then
        fail (.zeroValueConversion order.toAsset order.toQuantity value)
      else
        enter order retired value : Action ConversionReceipt) ledger) := by
  refine .seq (h.retire_avoids hfrom) fun retired hretire => .lift hvalue fun recomputed _ => ?_
  have hkeeps := (retire_moves hfrom hretire).keeps
  -- A conversion to nothing, or to no value, is refused before it is entered.
  split
  · exact .fail rfl
  next hworth => exact enter_avoids _ (hkeeps.current hto) fun h₀ => hworth (.inr h₀)

/-- An asset that is converted into itself is mown once, and that is enough for both halves. -/
theorem convert_avoids (h : ledger.Orderly) (order : ConversionOrder)
    {valueOf : Amount → Except Fault Amount} (hvalue : Avoids fault (valueOf order.toQuantity)) :
    Avoids fault (convert order valueOf ledger) := by
  unfold convert
  split
  · exact .fail rfl
  refine .read (.lift (ledger.requireOpen_avoids _) fun _ _ => ?_)
  refine .seq (h.mow_avoids order.owner order.fromAsset) fun mown hmow => ?_
  have hmown := h.of_mow hmow
  have hfrom := (mow_moves hmow).2
  simp only
  split
  next =>
    refine .seq (hmown.mow_avoids order.owner order.toAsset) fun mown' hmow' => ?_
    obtain ⟨hmoves, hto⟩ := mow_moves hmow'
    exact (hmown.of_mow hmow').convertRealized_avoids (hmoves.keeps.current hfrom) hto hvalue
  next heq => exact hmown.convertRealized_avoids hfrom (not_not.mp heq ▸ hfrom) hvalue

end Ledger.Orderly

/-! ### Planting -/

/-- The share of an account in the pool is only asked for where there are roots. -/
theorem Ledger.earnedBalance_avoids (ledger : Ledger) (id : AccountId) :
    Avoids fault (ledger.earnedBalance id) := by
  unfold Ledger.earnedBalance
  dsimp only
  split
  · exact .ok 0
  next hroots =>
    exact .bind (mulDiv_avoids fun h₀ => hroots (.inr h₀)) fun _ _ =>
      .bind (ledger.asset_avoids _) fun _ _ => .ok _

/-- No more is earned than is in the pool. -/
theorem Ledger.earnedBalance_le {id : AccountId} {quantity : Amount}
    (h : ledger.earnedBalance id = .ok quantity) : quantity ≤ ledger.totals.earnedPool := by
  unfold Ledger.earnedBalance at h
  dsimp only at h
  split at h
  · cases h
    exact Nat.zero_le _
  · simp only [bind_eq_ok, StalkLedger.pure_eq_ok] at h
    obtain ⟨_, -, _, -, rfl⟩ := h
    exact Unsigned.min_le_right _ _

/-- A planted share can be taken off the pool, and it is added for an account that has been mown.
-/
theorem Ledger.Orderly.plant_avoids (h : ledger.Orderly) (id : AccountId) :
    Avoids fault (plant id ledger) := by
  refine .read (.seq (h.mow_avoids id _) fun mown hmow => .read ?_)
  have hc := (mow_moves hmow).2
  refine .lift (mown.ledger.earnedBalance_avoids id) fun quantity hquantity =>
    .lift (mown.ledger.asset_avoids _) fun entry _ => ?_
  split
  · exact .pure _
  · exact .lift (Unsigned.mul_avoids _ _) fun _ _ =>
      .lift (Unsigned.sub_avoids (earnedBalance_le hquantity)) fun pool _ => .after rfl <|
      .seq (addPosition_avoids _ ((Keeps.withTotals mown.ledger _).current hc)) fun _ _ =>
      .seq (creditValue_avoids _) fun _ _ => .seq creditStalk_avoids fun _ _ => .after rfl (.pure _)

/-! ### Legacy positions -/

/-- A legacy epoch stands for an index below zero, and a tip is not below zero. -/
theorem Ledger.Orderly.importLegacy_avoids (h : ledger.Orderly) (owner : AccountId)
    (asset : AssetId) (legacyEpoch : Epoch) (quantity value : Amount) :
    Avoids fault (importLegacy owner asset legacyEpoch quantity value ledger) := by
  refine .read (.lift (ledger.legacyTerms_avoids asset) fun terms hterms =>
    .lift (ledger.requireLegacy_avoids _ _) fun _ hlegacy =>
    .lift (Position.make_avoids _ _ _) fun position _ =>
    .lift (Signed.checked_avoids _) fun index hindex => ?_)
  -- Growth is counted forward from here: the tip is read after the mowing, and is not below zero.
  have hnonpos : index.toInt ≤ 0 := by
    rw [← legacyIndex_eq hterms hindex]
    exact h.consistent.housed.legacyIndex_nonpos
      ⟨requireLegacy_eq_ok.mp hlegacy, terms, index, hterms, hindex⟩
  refine .seq (h.mow_avoids owner asset) fun mown hmow => .current (mow_moves hmow).2 <| .read <|
    .lift (SortedMap.put_avoids _ _ _) fun _ _ => .lift (mown.ledger.asset_avoids _) fun entry he =>
    .lift (Asset.take_avoids _ _) fun taken htake => .after rfl <| .after rfl <|
    .seq (creditValue_avoids _) fun _ _ => .lift (Unsigned.mul_avoids _ _) fun _ _ =>
    .lift (grownReward_avoids _ ?_) fun _ _ => .lift (Unsigned.add_avoids _ _) fun _ _ =>
    .seq mintStalk_avoids fun _ _ => .after rfl (.pure _)
  obtain ⟨_, _, -, -, rfl⟩ := Asset.take_eq_ok.mp htake
  exact hnonpos.trans ((h.of_mow hmow).consistent.housed.asset (asset_eq_ok.mp he)).accrualIndex

/-- Moving an entry only asks for an index and for room in the slot it goes to. -/
theorem migrateEpoch_avoids {owner : AccountId} {asset : AssetId} {terms : LegacyTerms}
    (legacyEpoch : Epoch) : Avoids fault (migrateEpoch owner asset terms legacyEpoch ledger) := by
  refine .read (.lift (ledger.requireLegacy_avoids _ _) fun _ _ => ?_)
  cases ledger.legacyDeposits.get? ⟨owner, asset, legacyEpoch⟩ with
  | none => exact .pure _
  | some position =>
    exact .lift (Signed.checked_avoids _) fun _ _ => .lift (SortedMap.put_avoids _ _ _) fun _ _ =>
      .after rfl (.after rfl (.pure _))

theorem migrateEach_avoids {owner : AccountId} {asset : AssetId} {terms : LegacyTerms}
    (epochs : List Epoch) : Avoids fault (migrateEach owner asset terms epochs ledger) := by
  induction epochs generalizing ledger with
  | nil => exact .pure []
  | cons epoch epochs ih =>
    exact .seq (migrateEpoch_avoids epoch) fun _ _ => .seq ih fun _ _ => .pure _

/-- A migration of an asset without legacy terms is refused as such; else it mows and moves. -/
theorem Ledger.Orderly.migrate_avoids (h : ledger.Orderly) (owner : AccountId) (asset : AssetId)
    (epochs : List Epoch) : Avoids fault (migrate owner asset epochs ledger) :=
  .read <| .lift (ledger.legacyTerms_avoids asset) fun _ _ =>
    .seq (h.mow_avoids owner asset) fun _ _ => migrateEach_avoids epochs

/-! ### Claims and the registry -/

/-- A claim is paid or there is nothing to claim. -/
theorem Ledger.Solvent.claimFlood_avoids (h : ledger.Solvent) (id : AccountId) :
    Avoids fault (claimFlood id ledger) := by
  obtain ⟨balance, hbalance, -⟩ := h.balance id
  have hclaim := h.claimFlood_spec hbalance
  split at hclaim
  · rw [hclaim]
    exact .error rfl
  · obtain ⟨out, hout, -⟩ := hclaim
    exact .of_ok hout

/-- Terms that do not make sense are refused as such, each with its reason. -/
theorem AssetTerms.validate_avoids (terms : AssetTerms) : Avoids fault terms.validate := by
  unfold AssetTerms.validate
  split_ifs
  · exact .error rfl
  · exact .error rfl
  · exact .error rfl
  · exact .ok _

/-- An asset that is listed already, or for which there is no room, is refused as such. -/
theorem whitelist_avoids {id : AssetId} (terms : AssetTerms) :
    Avoids fault (Action.whitelist id terms ledger) := by
  refine .lift terms.validate_avoids fun _ _ => .read ?_
  split_ifs
  · exact .fail rfl
  · exact .fail rfl
  · exact .after rfl (.ok _)

/-- An asset can be taken off the list if it is on it. -/
theorem dewhitelist_avoids {id : AssetId} : Avoids fault (Action.dewhitelist id ledger) :=
  .read <| .lift (ledger.asset_avoids _) fun _ _ => .after rfl (.ok _)

/-- A rate can be set unless it is negative. -/
theorem setAccrualRate_avoids {id : AssetId} (rate : Index) :
    Avoids fault (Action.setAccrualRate id rate ledger) := by
  unfold Action.setAccrualRate
  split
  · exact .fail rfl
  · exact .read (.lift (ledger.asset_avoids _) fun _ _ => .after rfl (.ok _))

/-! ### The clock -/

/-- A reward can only overflow, or find no base asset. -/
theorem receiveReward_avoids (quantity : Amount) :
    Avoids fault (receiveReward quantity ledger) := by
  unfold receiveReward
  split
  · exact .pure _
  · exact .read <| .lift (ledger.asset_avoids _) fun _ _ =>
      .lift (Unsigned.add_avoids _ _) fun _ _ => .lift (Unsigned.mul_avoids _ _) fun _ _ =>
      .lift (Unsigned.add_avoids _ _) fun _ _ => .after rfl (.ok _)

theorem SortedMap.mapEach_avoids {κ α : Type} [Key κ] {f : α → Except Fault α}
    (hf : ∀ a, Avoids fault (f a)) (map : SortedMap κ α) : Avoids fault (map.mapEach f) := by
  have hentries (entries : List (κ × α)) : Avoids fault (Entries.mapEach f entries) := by
    induction entries with
    | nil => exact .ok []
    | cons e entries ih => exact .bind (hf e.2) fun _ _ => .bind ih fun _ _ => .ok _
  unfold SortedMap.mapEach
  split
  next => exact .ok _
  next other hother => exact (hother ▸ hentries map.entries).retype

/-- An index can only grow out of range. -/
theorem Asset.grow_avoids (elapsed : Index) (entry : Asset) :
    Avoids fault (entry.grow elapsed) :=
  .bind (Signed.checked_avoids _) fun _ _ => .bind (Signed.checked_avoids _) fun _ _ => .ok _

/-- What is shared out is no more than what there is: the steps were rounded down before. -/
theorem FloodBook.allocated_le {available perRoot roots allocated : Amount}
    (hper : mulDiv available precision roots = .ok perRoot)
    (hall : mulDivCeil perRoot roots precision = .ok allocated) : allocated ≤ available := by
  rw [Unsigned.le_iff, allotment_of_mulDivCeil hall]
  exact allotment_le (mulDiv_eq_ok.mp hper).2

/-- A payout divides by the locked roots only where there are some. -/
theorem FloodBook.paid_avoids (book : FloodBook) (start : Epoch) (flood : Flood) (amount : Amount) :
    Avoids fault (book.paid start flood amount) := by
  refine .bind (Unsigned.add_avoids _ _) fun available _ => .bind (Unsigned.add_avoids _ _)
    fun _ _ => ?_
  split
  · exact .ok _
  next hroots =>
    exact .bind (mulDiv_avoids hroots) fun perRoot hper =>
      .bind (mulDivCeil_avoids (by decide)) fun allocated hall =>
      .bind (Unsigned.sub_avoids (allocated_le hper hall)) fun _ _ =>
      .bind (Unsigned.add_avoids _ _) fun _ _ => .bind (Unsigned.add_avoids _ _) fun _ _ => .ok _

/-- A flood that is on has its record. -/
theorem payFlood_avoids {epoch : Epoch} (h : ledger.floodBook.Sound epoch) (amount : Amount) :
    Avoids fault (payFlood amount ledger) := by
  refine .read ?_
  cases hon : ledger.floodBook.active with
  | none => exact .fail rfl
  | some start =>
    obtain ⟨flood, hf, -⟩ := h.active hon
    refine .lift (.of_ok (FloodBook.flood_eq_ok.mpr hf)) fun flood' _ =>
      .lift (FloodBook.paid_avoids _ _ _ _) fun book _ => .after rfl ?_
    split
    · exact .pure _
    · exact .ok _

theorem turnFlood_avoids (flooding : Bool) : Avoids fault (turnFlood flooding ledger) := by
  refine .read ?_
  cases flooding <;> cases hon : ledger.floodBook.active
  · exact .pure _
  · refine .read ?_
    rw [hon]
    exact .after rfl (.ok _)
  · exact .read (.after rfl (.ok _))
  · exact .pure _

/-- A report: what it does before it pays keeps the record of the flood that is on. -/
theorem Ledger.Solvent.advanceEpoch_avoids (h : ledger.Solvent) (report : EpochReport) :
    Avoids fault (advanceEpoch report ledger) := by
  refine .read ?_
  split
  · exact .pure _
  next hnew =>
    refine .lift (SortedMap.mapEach_avoids (Asset.grow_avoids _) _) fun assets _ =>
      .after rfl <| .after rfl <| .seq (receiveReward_avoids _) fun rewarded hreward =>
      .seq (turnFlood_avoids _) fun turned hturn => ?_
    -- The payout asks for the flood that is on, which the turn has kept or begun.
    have hsound :=
      (reported_of_turn hreward hturn (Nat.not_le.mp hnew) rfl rfl rfl).sound h
    split
    · exact .seq (payFlood_avoids hsound _) fun _ _ => .pure _
    · exact .pure _

end StalkLedger
