import StalkLedger.Proofs.Run
import StalkLedger.Flow.Transfer
import StalkLedger.Flow.Legacy

/-!
# What the elementary actions do

One law for each action that the flows are made of: when it succeeds, with what result, and which
ledger it leaves.  Everything that is proved of a flow is proved from these laws; none of the
actions is opened again.
-/

namespace StalkLedger

/-! ### Balances -/

namespace Totals

/-- Totals are credited if the sums are in range, and the pool stays; -/
theorem credit_eq_ok {totals totals' : Totals} {stalk roots : Amount} :
    totals.credit stalk roots = .ok totals' ↔
      totals'.stalk.toNat = totals.stalk.toNat + stalk.toNat ∧
        totals'.roots.toNat = totals.roots.toNat + roots.toNat ∧
          totals'.earnedPool = totals.earnedPool := by
  simp only [credit, bind_eq_ok, Unsigned.add_eq_ok, StalkLedger.pure_eq_ok]
  constructor
  · rintro ⟨_, hs, _, hr, rfl⟩
    exact ⟨hs, hr, rfl⟩
  · rintro ⟨hs, hr, hp⟩
    exact ⟨_, hs, _, hr, hp ▸ rfl⟩

/-- they are debited if there is enough. -/
theorem debit_eq_ok {totals totals' : Totals} {stalk roots : Amount} :
    totals.debit stalk roots = .ok totals' ↔
      totals'.stalk.toNat + stalk.toNat = totals.stalk.toNat ∧
        totals'.roots.toNat + roots.toNat = totals.roots.toNat ∧
          totals'.earnedPool = totals.earnedPool := by
  simp only [debit, bind_eq_ok, Unsigned.sub_eq_ok, StalkLedger.pure_eq_ok]
  constructor
  · rintro ⟨_, hs, _, hr, rfl⟩
    exact ⟨hs, hr, rfl⟩
  · rintro ⟨hs, hr, hp⟩
    exact ⟨_, hs, _, hr, hp ▸ rfl⟩

end Totals

namespace Account

/-- So it is with the balances of an account; the rest of its record stays. -/
theorem credit_eq_ok {account account' : Account} {stalk roots : Amount} :
    account.credit stalk roots = .ok account' ↔ ∃ stalk' roots' : Amount,
      stalk'.toNat = account.stalk.toNat + stalk.toNat ∧
        roots'.toNat = account.roots.toNat + roots.toNat ∧
          account' = { account with stalk := stalk', roots := roots' } := by
  simp only [credit, bind_eq_ok, Unsigned.add_eq_ok, StalkLedger.pure_eq_ok]
  constructor
  · rintro ⟨s, hs, r, hr, rfl⟩
    exact ⟨s, r, hs, hr, rfl⟩
  · rintro ⟨s, r, hs, hr, rfl⟩
    exact ⟨s, hs, r, hr, rfl⟩

theorem debit_eq_ok {account account' : Account} {stalk roots : Amount} :
    account.debit stalk roots = .ok account' ↔ ∃ stalk' roots' : Amount,
      stalk'.toNat + stalk.toNat = account.stalk.toNat ∧
        roots'.toNat + roots.toNat = account.roots.toNat ∧
          account' = { account with stalk := stalk', roots := roots' } := by
  simp only [debit, bind_eq_ok, Unsigned.sub_eq_ok, StalkLedger.pure_eq_ok]
  constructor
  · rintro ⟨s, hs, r, hr, rfl⟩
    exact ⟨s, r, hs, hr, rfl⟩
  · rintro ⟨s, r, hs, hr, rfl⟩
    exact ⟨s, hs, r, hr, rfl⟩

end Account

namespace Asset

/-- The entry without its totals: what does not change while positions come and go. -/
def emptied (entry : Asset) : Asset := { entry with totalQuantity := 0, totalValue := 0 }

/-- A position is added to the totals of its asset, -/
theorem take_eq_ok {entry entry' : Asset} {position : Position} :
    entry.take position = .ok entry' ↔ ∃ quantity value : Amount,
      quantity.toNat = entry.totalQuantity.toNat + position.quantity.toNat ∧
        value.toNat = entry.totalValue.toNat + position.value.toNat ∧
          entry' = { entry with totalQuantity := quantity, totalValue := value } := by
  simp only [take, bind_eq_ok, Unsigned.add_eq_ok, StalkLedger.pure_eq_ok]
  constructor
  · rintro ⟨q, hq, v, hv, rfl⟩
    exact ⟨q, v, hq, hv, rfl⟩
  · rintro ⟨q, v, hq, hv, rfl⟩
    exact ⟨q, hq, v, hv, rfl⟩

/-- or taken off them. -/
theorem release_eq_ok {entry entry' : Asset} {position : Position} :
    entry.release position = .ok entry' ↔ ∃ quantity value : Amount,
      quantity.toNat + position.quantity.toNat = entry.totalQuantity.toNat ∧
        value.toNat + position.value.toNat = entry.totalValue.toNat ∧
          entry' = { entry with totalQuantity := quantity, totalValue := value } := by
  simp only [release, bind_eq_ok, Unsigned.sub_eq_ok, StalkLedger.pure_eq_ok]
  constructor
  · rintro ⟨q, hq, v, hv, rfl⟩
    exact ⟨q, v, hq, hv, rfl⟩
  · rintro ⟨q, v, hq, hv, rfl⟩
    exact ⟨q, hq, v, hv, rfl⟩

/-- Growing moves the index, and nothing else. -/
theorem grow_spec {entry entry' : Asset} {elapsed : Index} (h : entry.grow elapsed = .ok entry') :
    ∃ index : Index,
      index.toInt = entry.accrualIndex.toInt + entry.accrualRate.toInt * elapsed.toInt ∧
        entry' = { entry with accrualIndex := index } := by
  simp only [grow, bind_eq_ok, Signed.mul_eq_ok, Signed.add_eq_ok, StalkLedger.pure_eq_ok] at h
  obtain ⟨growth, hgrowth, index, hindex, rfl⟩ := h
  exact ⟨index, hgrowth ▸ hindex, rfl⟩

end Asset

/-- Terms that are valid. -/
theorem AssetTerms.validate_eq_ok {terms : AssetTerms} :
    terms.validate = .ok () ↔ terms.stalkPerValue ≠ 0 ∧ 0 ≤ terms.accrualRate.toInt ∧
      ∀ legacy, terms.legacy = some legacy → 0 < legacy.ratePerEpoch.toInt := by
  unfold validate
  split
  next hs => exact ⟨nofun, fun h => absurd hs h.1⟩
  next hs =>
    split
    next hr => exact ⟨nofun, fun h => absurd hr (Int.not_lt.mpr h.2.1)⟩
    next hr =>
      rw [Signed.lt_iff, Signed.toInt_zero, not_lt] at hr
      have hany : terms.legacy.any (·.ratePerEpoch ≤ 0) = true ↔
          ∃ legacy, terms.legacy = some legacy ∧ legacy.ratePerEpoch.toInt ≤ 0 := by
        simp only [Option.any_eq_true, decide_eq_true_eq, Signed.le_iff, Signed.toInt_zero]
      split
      next hl =>
        obtain ⟨legacy, hlegacy, hle⟩ := hany.mp hl
        exact ⟨nofun, fun h => absurd (h.2.2 legacy hlegacy) (not_lt.mpr hle)⟩
      next hl =>
        rw [hany] at hl
        exact ⟨fun _ => ⟨hs, hr, fun legacy hlegacy =>
          not_le.mp fun hle => hl ⟨legacy, hlegacy, hle⟩⟩, fun _ => rfl⟩

namespace Action

variable {ledger : Ledger}

/-- A credit is recorded with the gains and the balances it leads to, -/
theorem creditStalk_eq_ok {id : AccountId} {stalk roots : Amount} {out : Outcome Unit} :
    creditStalk id stalk roots ledger = .ok out ↔ ∃ account stalkDelta rootsDelta,
      (ledger.account id).credit stalk roots = .ok account ∧ stalk.gain = .ok stalkDelta ∧
        roots.gain = .ok rootsDelta ∧ out = ⟨(), ledger.withAccount id account,
          ⟨[.stalkChanged id stalkDelta rootsDelta account.stalk account.roots ledger.epoch]⟩⟩ := by
  simp only [creditStalk, ledger_bind, lift_bind, setAccount_bind, emit_eq_ok,
    exists_and_left]
  rfl

/-- and a debit with the losses. -/
theorem debitStalk_eq_ok {id : AccountId} {stalk roots : Amount} {out : Outcome Unit} :
    debitStalk id stalk roots ledger = .ok out ↔ ∃ account stalkDelta rootsDelta,
      (ledger.account id).debit stalk roots = .ok account ∧ stalk.loss = .ok stalkDelta ∧
        roots.loss = .ok rootsDelta ∧ out = ⟨(), ledger.withAccount id account,
          ⟨[.stalkChanged id stalkDelta rootsDelta account.stalk account.roots ledger.epoch]⟩⟩ := by
  simp only [debitStalk, ledger_bind, lift_bind, setAccount_bind, emit_eq_ok,
    exists_and_left]
  rfl

/-- A credit changes one account, in stalk and roots only. -/
theorem creditStalk_spec {id : AccountId} {stalk roots : Amount} {out : Outcome Unit}
    (h : creditStalk id stalk roots ledger = .ok out) :
    ∃ (stalk' roots' : Amount) (events : Event.Log),
      stalk'.toNat = (ledger.account id).stalk.toNat + stalk.toNat ∧
        roots'.toNat = (ledger.account id).roots.toNat + roots.toNat ∧
          out = ⟨(), ledger.withAccount id
            { ledger.account id with stalk := stalk', roots := roots' }, events⟩ := by
  obtain ⟨account, _, _, ha, -, -, rfl⟩ := creditStalk_eq_ok.mp h
  obtain ⟨stalk', roots', hs, hr, rfl⟩ := Account.credit_eq_ok.mp ha
  exact ⟨stalk', roots', _, hs, hr, rfl⟩

/-- So does a debit. -/
theorem debitStalk_spec {id : AccountId} {stalk roots : Amount} {out : Outcome Unit}
    (h : debitStalk id stalk roots ledger = .ok out) :
    ∃ (stalk' roots' : Amount) (events : Event.Log),
      stalk'.toNat + stalk.toNat = (ledger.account id).stalk.toNat ∧
        roots'.toNat + roots.toNat = (ledger.account id).roots.toNat ∧
          out = ⟨(), ledger.withAccount id
            { ledger.account id with stalk := stalk', roots := roots' }, events⟩ := by
  obtain ⟨account, _, _, ha, -, -, rfl⟩ := debitStalk_eq_ok.mp h
  obtain ⟨stalk', roots', hs, hr, rfl⟩ := Account.debit_eq_ok.mp ha
  exact ⟨stalk', roots', _, hs, hr, rfl⟩

/-- Minting something raises the totals and credits the account. -/
theorem mintStalk_eq_ok {id : AccountId} {stalk : Amount} {out : Outcome Amount}
    (hs : stalk ≠ 0) :
    mintStalk id stalk ledger = .ok out ↔ ∃ roots totals credited,
      rootsForMint ledger.totals.roots ledger.totals.stalk stalk = .ok roots ∧
        ledger.totals.credit stalk roots = .ok totals ∧
          creditStalk id stalk roots { ledger with totals } = .ok credited ∧
            out = ⟨roots, credited.ledger, credited.events⟩ := by
  unfold mintStalk
  rw [if_neg hs]
  simp only [ledger_bind, lift_bind, setTotals_bind, bind_pure_eq_ok, exists_and_left]

/-- Burning something lowers the totals and debits the account. -/
theorem burnStalk_eq_ok {id : AccountId} {stalk : Amount} {out : Outcome Amount}
    (hs : stalk ≠ 0) :
    burnStalk id stalk ledger = .ok out ↔ ∃ roots totals debited,
      rootsForBurn ledger.totals.roots ledger.totals.stalk stalk (ledger.account id).roots =
          .ok roots ∧
        ledger.totals.debit stalk roots = .ok totals ∧
          debitStalk id stalk roots { ledger with totals } = .ok debited ∧
            out = ⟨roots, debited.ledger, debited.events⟩ := by
  unfold burnStalk
  rw [if_neg hs]
  simp only [ledger_bind, lift_bind, setTotals_bind, bind_pure_eq_ok, exists_and_left]

/-- Handing something over debits the sender and then credits the recipient. -/
theorem transferStalk_eq_ok {sender recipient : AccountId} {stalk : Amount}
    {out : Outcome Amount} (hs : stalk ≠ 0) :
    transferStalk sender recipient stalk ledger = .ok out ↔ ∃ roots debited credited,
      rootsForBurn ledger.totals.roots ledger.totals.stalk stalk (ledger.account sender).roots =
          .ok roots ∧
        debitStalk sender stalk roots ledger = .ok debited ∧
          creditStalk recipient stalk roots debited.ledger = .ok credited ∧
            out = ⟨roots, credited.ledger, debited.events ++ credited.events⟩ := by
  unfold transferStalk
  rw [if_neg hs]
  rw [ledger_bind, lift_bind]
  constructor
  · rintro ⟨roots, hr, h⟩
    obtain ⟨debited, _, hd, hrest, rfl⟩ := bind_apply_ok.mp h
    obtain ⟨credited, hc, rfl⟩ := bind_pure_eq_ok.mp hrest
    exact ⟨roots, debited, credited, hr, hd, hc, rfl⟩
  · rintro ⟨roots, debited, credited, hr, hd, hc, rfl⟩
    exact ⟨roots, hr, bind_apply_ok.mpr ⟨debited, _, hd, bind_pure_eq_ok.mpr ⟨_, hc, rfl⟩, rfl⟩⟩

/-! ### Updates and checkpoints -/

/-- An account that was updated in this epoch is entered as it is; another one is settled. -/
theorem updateAccount_eq_ok {id : AccountId} {out : Outcome Unit} :
    updateAccount id ledger = .ok out ↔
      (ledger.epoch ≤ (ledger.account id).lastUpdate ∧
          out = ⟨(), ledger.withAccount id (ledger.account id), ∅⟩) ∨
        (ledger.account id).lastUpdate < ledger.epoch ∧ ∃ flood,
          ledger.floodBook.settle (ledger.account id).roots (ledger.account id).flood =
              .ok flood ∧
            out = ⟨(), ledger.withAccount id
              { ledger.account id with flood, lastUpdate := ledger.epoch }, ∅⟩ := by
  unfold updateAccount
  rw [ledger_bind]
  split
  next hle =>
    rw [setAccount_eq_ok]
    exact ⟨fun h => .inl ⟨hle, h⟩, fun h => h.elim And.right fun h => absurd hle (Nat.not_le.mpr h.1)⟩
  next hlt =>
    simp only [lift_bind, setAccount_eq_ok]
    exact ⟨fun h => .inr ⟨Nat.not_le.mp hlt, h⟩, fun h => h.elim (fun h => absurd h.1 hlt) And.right⟩

/-- Bringing an account up to date has no events. -/
theorem updateAccount_silent (id : AccountId) : Silent (updateAccount id) := by
  intro ledger out h
  rcases updateAccount_eq_ok.mp h with ⟨-, rfl⟩ | ⟨-, flood, -, rfl⟩ <;> rfl

/-- Nothing grows on the spot. -/
theorem grownReward_self (tip : Index) (value : Amount) : grownReward tip tip value = .ok 0 := by
  rw [grownReward_eq_ok]
  simp

/-- The checkpoint moves to the tip, and what was grown in between is minted. -/
theorem creditGrowth_spec {id : AccountId} {asset : AssetId} {out : Outcome Amount}
    (h : creditGrowth id asset ledger = .ok out) : ∃ entry grown minted,
      ledger.asset asset = .ok entry ∧
        grownReward entry.accrualIndex ((ledger.account id).checkpoint asset).lastIndex
            ((ledger.account id).checkpoint asset).value = .ok grown ∧
          mintStalk id grown (ledger.withAccount id ((ledger.account id).withCheckpoint asset
              { (ledger.account id).checkpoint asset with lastIndex := entry.accrualIndex })) =
              .ok minted ∧
            out = ⟨grown, minted.ledger, minted.events⟩ := by
  unfold creditGrowth at h
  rw [ledger_bind, lift_bind] at h
  obtain ⟨tip, htip, h⟩ := h
  obtain ⟨entry, hentry, rfl⟩ :
      ∃ entry, ledger.asset asset = .ok entry ∧ entry.accrualIndex = tip := by
    simpa only [Ledger.accrualIndex, bind_eq_ok, StalkLedger.pure_eq_ok] using htip
  split at h
  next heq =>
    rw [setAccount_bind, pure_eq_ok] at h
    refine ⟨entry, 0, ⟨0, _, ∅⟩, hentry, ?_, rfl, ?_⟩
    · rw [heq]
      exact grownReward_self _ _
    · rw [h, ← heq]
  next =>
    rw [lift_bind] at h
    obtain ⟨grown, hgrown, h⟩ := h
    rw [setAccount_bind] at h
    obtain ⟨minted, hminted, rfl⟩ := bind_pure_eq_ok.mp h
    exact ⟨entry, grown, minted, hentry, hgrown, hminted, rfl⟩

/-- Value is booked at the checkpoint, which stays at its index, -/
theorem creditValue_eq_ok {id : AccountId} {asset : AssetId} {value : Amount}
    {out : Outcome Unit} :
    creditValue id asset value ledger = .ok out ↔ ∃ held : Amount,
      held.toNat = ((ledger.account id).checkpoint asset).value.toNat + value.toNat ∧
        out = ⟨(), ledger.withAccount id ((ledger.account id).withCheckpoint asset
          { (ledger.account id).checkpoint asset with value := held }), ∅⟩ := by
  simp only [creditValue, ledger_bind, lift_bind, setAccount_eq_ok, Unsigned.add_eq_ok]

/-- or taken off there, if it is there. -/
theorem debitValue_eq_ok {id : AccountId} {asset : AssetId} {value : Amount}
    {out : Outcome Unit} :
    debitValue id asset value ledger = .ok out ↔ ∃ held : Amount,
      held.toNat + value.toNat = ((ledger.account id).checkpoint asset).value.toNat ∧
        out = ⟨(), ledger.withAccount id ((ledger.account id).withCheckpoint asset
          { (ledger.account id).checkpoint asset with value := held }), ∅⟩ := by
  simp only [debitValue, ledger_bind, lift_bind, setAccount_eq_ok, Unsigned.sub_eq_ok]

theorem creditValue_silent (id : AccountId) (asset : AssetId) (value : Amount) :
    Silent (creditValue id asset value) := by
  intro ledger out h
  obtain ⟨held, -, rfl⟩ := creditValue_eq_ok.mp h
  rfl

theorem debitValue_silent (id : AccountId) (asset : AssetId) (value : Amount) :
    Silent (debitValue id asset value) := by
  intro ledger out h
  obtain ⟨held, -, rfl⟩ := debitValue_eq_ok.mp h
  rfl

/-! ### Positions -/

/-- Entering a position: the account is current, the store and the totals of the asset take it. -/
theorem addPositionAt_eq_ok {slot : Slot Index} {position : Position} {out : Outcome Unit} :
    addPositionAt slot position ledger = .ok out ↔ ∃ deposits entry entry',
      position.quantity ≠ 0 ∧ position.value ≠ 0 ∧
        ledger.requireCurrent slot.owner slot.asset = .ok () ∧
          ledger.deposits.put slot position = .ok deposits ∧
            ledger.asset slot.asset = .ok entry ∧ entry.take position = .ok entry' ∧
              out = ⟨(), { ledger with deposits }.withAsset slot.asset entry',
                ⟨[.positionAdded slot.positionId slot.owner slot.asset slot.mark
                  position.quantity position.value ledger.epoch]⟩⟩ := by
  simp only [addPositionAt, lift_bind, Position.make_eq_ok, ensureCurrent_bind, ledger_bind,
    update_bind, setAsset_bind, emit_eq_ok]
  constructor
  · rintro ⟨_, ⟨hq, hv, rfl⟩, hcur, deposits, hput, entry, hentry, entry', htake, rfl⟩
    exact ⟨deposits, entry, entry', hq, hv, hcur, hput, hentry, htake, rfl⟩
  · rintro ⟨deposits, entry, entry', hq, hv, hcur, hput, hentry, htake, rfl⟩
    exact ⟨_, ⟨hq, hv, rfl⟩, hcur, deposits, hput, entry, hentry, entry', htake, rfl⟩

/-- Removing something: the account is current, the stores and the totals of the asset give it. -/
theorem removePosition_eq_ok {slot : Slot Index} {amount : Amount} {out : Outcome Amount}
    (ha : amount ≠ 0) :
    removePosition slot amount ledger = .ok out ↔ ∃ value taken entry entry',
      ledger.requireCurrent slot.owner slot.asset = .ok () ∧
        ledger.asset slot.asset = .ok entry ∧ ledger.takeAt entry slot amount = .ok (value, taken) ∧
          entry.release ⟨amount, value⟩ = .ok entry' ∧
            out = ⟨value, taken.withAsset slot.asset entry',
              ⟨[.positionRemoved slot.positionId slot.owner slot.asset slot.mark amount value
                taken.epoch]⟩⟩ := by
  unfold removePosition
  rw [ensureCurrent_bind, if_neg ha]
  simp only [ledger_bind, lift_bind, Prod.exists, update_bind, setAsset_bind, emit_bind,
    pure_eq_ok]
  constructor
  · rintro ⟨hcur, entry, hentry, value, taken, htake, entry', hrel, _, rfl, rfl⟩
    exact ⟨value, taken, entry, entry', hcur, hentry, htake, hrel, rfl⟩
  · rintro ⟨value, taken, entry, entry', hcur, hentry, htake, hrel, rfl⟩
    exact ⟨hcur, entry, hentry, value, taken, htake, entry', hrel, _, rfl, rfl⟩

/-- The check of a legacy epoch asks for the legacy range. -/
theorem requireLegacy_eq_ok {asset : AssetId} {epoch : Epoch} :
    ledger.requireLegacy asset epoch = .ok () ↔ ledger.charter.isLegacy epoch = true := by
  unfold Ledger.requireLegacy
  split
  next hlegacy => exact ⟨fun _ => hlegacy, fun _ => rfl⟩
  next hlegacy => exact ⟨nofun, fun h => absurd h hlegacy⟩

/-- Removing nothing does nothing. -/
theorem removePosition_zero_eq_ok {slot : Slot Index} {out : Outcome Amount} :
    removePosition slot 0 ledger = .ok out ↔
      ledger.requireCurrent slot.owner slot.asset = .ok () ∧ out = ⟨0, ledger, ∅⟩ := by
  unfold removePosition
  rw [ensureCurrent_bind, if_pos rfl, pure_eq_ok]

end Action

end StalkLedger
