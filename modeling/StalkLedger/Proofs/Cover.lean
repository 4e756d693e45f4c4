import StalkLedger.Proofs.Backing
import StalkLedger.Proofs.Totals

/-!
# What is taken out is covered

A removal asks the stores for a quantity, takes the value that comes of it off what is booked, and has
the stalk of both burned or handed over.  In an orderly ledger it fails in one way only, because less
is held at the index than was asked for.

* The stores give up to what they hold at an index (`Ledger.available`): the decision that they pay is
  taken (`Ledger.draw_succeeds`), they have what was decided (`Ledger.Tallied.pay_succeeds`), and the
  totals of the asset cover it (`Ledger.Tallied.release_succeeds`).  For more they refuse as they
  would an ordinary overdraft (`Ledger.Tallied.draw_refuses`).
* Nothing is taken from beyond the tip (`removeEach_below`).
* The value taken is booked, and the account has the stalk that it carries: what is left of its
  positions backs no less than nothing (`Taking.covered`).
* The totals count what the account has (`Ledger.Totalled.covers`).
-/

namespace StalkLedger

open StalkLedger.Action Imbalance

/-! ### The stores give what they hold -/

/-- Where a quantity is held, there is a position. -/
theorem Position.exists_of_held {position? : Option Position} {amount : Amount} (hne : amount ≠ 0)
    (hle : amount ≤ (position?.map (·.quantity)).getD 0) :
    ∃ position, position? = some position ∧ amount ≤ position.quantity := by
  cases position? with
  | none => exact absurd (Unsigned.ext (Nat.le_zero.mp hle)) hne
  | some position => exact ⟨position, rfl, hle⟩

namespace SortedMap

variable {μ : Type} [Key μ] {store : SortedMap (Slot μ) Position} {slot : Slot μ} {amount : Amount}

/-- A position gives any part of its quantity: its share of the value is no more than the value. -/
theorem take_succeeds_of_get? {position : Position} (hget : store.get? slot = some position)
    (hq : position.quantity ≠ 0) (hle : amount ≤ position.quantity) :
    ∃ value store', store.take slot amount = .ok (value, store') := by
  unfold take
  rw [hget]
  have hfits : ¬ position.quantity < amount := Nat.not_lt.mpr hle
  dsimp only
  rw [if_neg hfits]
  split
  · exact ⟨_, _, rfl⟩
  next hpart =>
    have hquantity : position.quantity.toNat ≠ 0 := fun hzero => hq (Unsigned.ext hzero)
    have hshare : position.value.toNat * amount.toNat / position.quantity.toNat ≤
        position.value.toNat :=
      Nat.div_le_of_le_mul <| by
        rw [Nat.mul_comm]
        exact Nat.mul_le_mul_right _ hle
    let value : Amount := ⟨_, hshare.trans_lt position.value.toNat_lt⟩
    refine ⟨value, store.insert slot
      ⟨position.quantity.monus amount, position.value.monus value⟩, ?_⟩
    rw [proportionalValue, if_neg hpart]
    simp only [bind_eq_ok, mulDiv_eq_ok, Unsigned.sub_eq_ok, pure_eq_ok]
    exact ⟨value, ⟨hquantity, rfl⟩, _, Nat.sub_add_cancel hle, _, Nat.sub_add_cancel hshare, rfl⟩

/-- So a slot gives whatever it holds. -/
theorem take_succeeds (hne : amount ≠ 0)
    (hle : amount ≤ ((store.get? slot).map (·.quantity)).getD 0) :
    ∃ value store', store.take slot amount = .ok (value, store') := by
  obtain ⟨position, hget, hle⟩ := Position.exists_of_held hne hle
  refine take_succeeds_of_get? hget (fun hzero => ?_) hle
  rw [hzero] at hle
  exact hne (Unsigned.ext (Nat.le_zero.mp hle))

end SortedMap

namespace Ledger

variable {ledger ledger' : Ledger} {slot : Slot Index} {entry : Asset} {amount value : Amount}

/-- How much can be taken at an index. -/
def available (ledger : Ledger) (entry : Asset) (slot : Slot Index) : ℕ :=
  let held := ledger.quantityAt slot.owner slot.asset slot.mark
  match entry.locate ledger.charter slot.mark with
  | .current _ => held.toNat
  | .legacy _ epoch =>
    let heldLegacy := ledger.legacyQuantity slot.owner slot.asset epoch
    if held = 0 then
      heldLegacy.toNat
    else if entry.grandfathered then
      held.toNat + heldLegacy.toNat
    else
      held.toNat

/-- What the current store holds can always be taken. -/
theorem quantityAt_le_available (ledger : Ledger) (entry : Asset) (slot : Slot Index) :
    (ledger.quantityAt slot.owner slot.asset slot.mark).toNat ≤ ledger.available entry slot := by
  unfold available
  dsimp only
  split
  · exact le_rfl
  · split
    next hzero => exact (congrArg Unsigned.toNat hzero).le.trans (Nat.zero_le _)
    · split
      · exact Nat.le_add_right _ _
      · exact le_rfl

/-- The stores are drawn on for whatever is available. -/
theorem draw_succeeds (hle : amount.toNat ≤ ledger.available entry slot) :
    ∃ draw, ledger.draw entry slot amount = .ok draw := by
  unfold draw
  dsimp only
  split
  · exact ⟨.current, rfl⟩
  next hmore =>
    unfold available at hle
    cases hl : entry.locate ledger.charter slot.mark with
    | current =>
      simp only [hl] at hle
      exact absurd hle hmore
    | legacy index epoch =>
      simp only [hl] at hle ⊢
      split at hle
      next hzero =>
        have hfits : ¬ ledger.legacyQuantity slot.owner slot.asset epoch < amount :=
          Nat.not_lt.mpr hle
        rw [if_pos hzero, if_neg hfits]
        exact ⟨.legacy epoch, rfl⟩
      next hheld =>
        rw [if_neg hheld]
        split at hle
        next hboth =>
          have hfits : ¬ ledger.legacyQuantity slot.owner slot.asset epoch <
              amount.monus (ledger.quantityAt slot.owner slot.asset slot.mark) :=
            Nat.not_lt.mpr (Nat.sub_le_iff_le_add'.mpr hle)
          rw [if_pos hboth, if_neg hfits]
          exact ⟨.both epoch, rfl⟩
        next => exact absurd hle hmore

/-- What counts nowhere less than nothing counts no less than nothing together. -/
theorem holdings_nonneg (ledger : Ledger) {weight : Weight}
    (h : ∀ owner asset index, 0 ≤ (weight owner asset index).1 ∧ 0 ≤ (weight owner asset index).2) :
    0 ≤ ledger.holdings weight := by
  have weighs (position : Position) (owner : AccountId) (asset : AssetId) (index : ℤ) :
      0 ≤ position.weigh (weight owner asset index) :=
    add_nonneg (mul_nonneg (h ..).1 (Int.natCast_nonneg _))
      (mul_nonneg (h ..).2 (Int.natCast_nonneg _))
  refine add_nonneg (SortedMap.sum_nonneg ?_) (SortedMap.sum_nonneg ?_)
  · exact fun slot position _ => weighs position _ _ _
  · exact fun slot position _ => weighs position _ _ _

theorem amountsIn_nonneg (asset : AssetId) {weight : ℤ × ℤ} (hq : 0 ≤ weight.1)
    (hv : 0 ≤ weight.2) (owner : AccountId) (asset' : AssetId) (index : ℤ) :
    0 ≤ (amountsIn asset weight owner asset' index).1 ∧
      0 ≤ (amountsIn asset weight owner asset' index).2 := by
  unfold amountsIn
  split
  · exact ⟨hq, hv⟩
  · exact ⟨le_rfl, le_rfl⟩

/-- What is taken out of both stores at an index counts there together. -/
theorem gains_takeBoth {index : Index} {epoch : Epoch}
    {held shortfall fromCurrent fromLegacy : Amount}
    {deposits : SortedMap (Slot Index) Position} {legacyDeposits : SortedMap (Slot Epoch) Position}
    (he : ledger.asset slot.asset = .ok entry)
    (hl : entry.locate ledger.charter slot.mark = .legacy index epoch)
    (hc : ledger.deposits.take slot held = .ok (fromCurrent, deposits))
    (h : ledger.legacyDeposits.take ⟨slot.owner, slot.asset, epoch⟩ shortfall =
      .ok (fromLegacy, legacyDeposits)) :
    Gains ledger { ledger with deposits, legacyDeposits } slot.owner slot.asset slot.mark.toInt
      (-(held.toNat + shortfall.toNat)) (-(fromCurrent.toNat + fromLegacy.toNat)) := by
  intro weight
  have hlegacy := @holdings_takeLegacy { ledger with deposits } _ _ _ _ h weight
  rw [hlegacy, holdings_take hc,
    show ({ ledger with deposits } : Ledger).legacyIndex = ledger.legacyIndex from rfl,
    legacyIndex_of_locate he hl, Position.weigh, Position.weigh]
  ring

namespace Tallied

/-- What can be taken out of the positions of an asset is no more than its totals say. -/
theorem taken_le {owner : AccountId} {asset : AssetId} {index quantity value : ℤ}
    (h : ledger.Tallied) (he : ledger.asset asset = .ok entry)
    (hg : Gains ledger ledger' owner asset index (-quantity) (-value)) :
    quantity ≤ entry.totalQuantity.toNat ∧ value ≤ entry.totalValue.toNat := by
  have counts (weight : ℤ × ℤ) (hq : 0 ≤ weight.1) (hv : 0 ≤ weight.2) :
      weight.1 * quantity + weight.2 * value ≤ entry.held.weigh weight := by
    have hrest := ledger'.holdings_nonneg (amountsIn_nonneg asset hq hv)
    rw [hg, ← h _ _ (asset_eq_ok.mp he), amountsIn, if_pos rfl] at hrest
    linarith
  have hquantity := counts (1, 0) Int.one_nonneg le_rfl
  have hvalue := counts (0, 1) le_rfl Int.one_nonneg
  simp only [Position.weigh, Asset.held, one_mul, zero_mul, add_zero, zero_add]
    at hquantity hvalue
  exact ⟨hquantity, hvalue⟩

/-- The totals of the asset cover what has been taken. -/
theorem release_succeeds (h : ledger.Tallied) (he : ledger.asset slot.asset = .ok entry)
    (ht : ledger.takeAt entry slot amount = .ok (value, ledger')) :
    ∃ entry', entry.release ⟨amount, value⟩ = .ok entry' := by
  obtain ⟨hquantity, hvalue⟩ := h.taken_le he (gains_takeAt he ht)
  have hq : amount ≤ entry.totalQuantity := by exact_mod_cast hquantity
  have hv : value ≤ entry.totalValue := by exact_mod_cast hvalue
  exact ⟨_, Asset.release_eq_ok.mpr ⟨entry.totalQuantity.monus amount, entry.totalValue.monus value,
    Nat.sub_add_cancel hq, Nat.sub_add_cancel hv, rfl⟩⟩

/-- Both stores give what they hold at an index, and their sum can be told. -/
theorem takeBoth_succeeds (h : ledger.Tallied) (he : ledger.asset slot.asset = .ok entry)
    {index : Index} {epoch : Epoch} {held shortfall : Amount}
    (hl : entry.locate ledger.charter slot.mark = .legacy index epoch) (hheld : held ≠ 0)
    (hheld_le : held ≤ ledger.quantityAt slot.owner slot.asset slot.mark) (hshort : shortfall ≠ 0)
    (hshort_le : shortfall ≤ ledger.legacyQuantity slot.owner slot.asset epoch) :
    (∃ value ledger', ledger.takeBoth slot epoch held shortfall = .ok (value, ledger')) ∧
      ∃ sum, held.add shortfall = .ok sum := by
  obtain ⟨fromCurrent, deposits, hc⟩ := SortedMap.take_succeeds hheld hheld_le
  obtain ⟨fromLegacy, legacyDeposits, hg⟩ := SortedMap.take_succeeds hshort hshort_le
  obtain ⟨hquantity, hvalue⟩ := h.taken_le he (gains_takeBoth he hl hc hg)
  have hq : held.toNat + shortfall.toNat < 2 ^ 128 := by
    have := entry.totalQuantity.toNat_lt
    omega
  have hv : fromCurrent.toNat + fromLegacy.toNat < 2 ^ 128 := by
    have := entry.totalValue.toNat_lt
    omega
  exact ⟨⟨⟨_, hv⟩, _, takeBoth_eq_ok.mpr
    ⟨deposits, legacyDeposits, fromCurrent, fromLegacy, rfl, hc, hg, rfl⟩⟩, ⟨_, hq⟩,
    Unsigned.add_eq_ok.mpr rfl⟩

/-- So what both stores hold together can be told. -/
theorem held_add (h : ledger.Tallied) (he : ledger.asset slot.asset = .ok entry) {index : Index}
    {epoch : Epoch} (hl : entry.locate ledger.charter slot.mark = .legacy index epoch)
    (hheld : ledger.quantityAt slot.owner slot.asset slot.mark ≠ 0) :
    ∃ sum, (ledger.quantityAt slot.owner slot.asset slot.mark).add
      (ledger.legacyQuantity slot.owner slot.asset epoch) = .ok sum := by
  by_cases hzero : ledger.legacyQuantity slot.owner slot.asset epoch = 0
  · refine ⟨ledger.quantityAt slot.owner slot.asset slot.mark, Unsigned.add_eq_ok.mpr ?_⟩
    rw [hzero, Unsigned.toNat_zero, Nat.add_zero]
  · exact (h.takeBoth_succeeds he hl hheld (Nat.le_refl _) hzero (Nat.le_refl _)).2

/-- What has been decided can be paid. -/
theorem pay_succeeds (h : ledger.Tallied) (he : ledger.asset slot.asset = .ok entry)
    (hne : amount ≠ 0) {draw : Draw} (hd : Draws ledger entry slot amount draw) :
    ∃ value ledger', ledger.pay slot amount draw = .ok (value, ledger') := by
  cases hd with
  | current hle =>
    obtain ⟨value, deposits, ht⟩ := SortedMap.take_succeeds hne hle
    exact ⟨value, _, takeCurrent_eq_ok.mpr ⟨deposits, ht, rfl⟩⟩
  | legacy hl hzero hle =>
    obtain ⟨value, legacyDeposits, ht⟩ := SortedMap.take_succeeds hne hle
    exact ⟨value, _, takeLegacy_eq_ok.mpr ⟨legacyDeposits, ht, rfl⟩⟩
  | @both index epoch hl hlt hheld hg hle =>
    obtain ⟨hshort, hsum⟩ := shortfall_spec hlt
    have hshort_le : amount.monus (ledger.quantityAt slot.owner slot.asset slot.mark) ≤
        ledger.legacyQuantity slot.owner slot.asset epoch := Unsigned.le_iff.mpr (by omega)
    exact (h.takeBoth_succeeds he hl hheld (Nat.le_refl _) hshort hshort_le).1

/-- **What is held can be taken.** -/
theorem takeAt_succeeds (h : ledger.Tallied) (he : ledger.asset slot.asset = .ok entry)
    (hne : amount ≠ 0) (hle : amount.toNat ≤ ledger.available entry slot) :
    ∃ value ledger', ledger.takeAt entry slot amount = .ok (value, ledger') := by
  obtain ⟨draw, hdraw⟩ := draw_succeeds hle
  obtain ⟨value, ledger', hpay⟩ := h.pay_succeeds he hne (draws_of_ok hdraw)
  exact ⟨value, ledger', takeAt_eq ▸ bind_eq_ok.mpr ⟨draw, hdraw, hpay⟩⟩

/-- **More than that is refused**, before anything is paid. -/
theorem draw_refuses (h : ledger.Tallied) (he : ledger.asset slot.asset = .ok entry)
    (hlt : ledger.available entry slot < amount.toNat) :
    ∃ rest : Amount, rest.toNat = ledger.available entry slot ∧
      ledger.draw entry slot amount =
        .error (.insufficientBalance slot.owner slot.asset slot.mark rest amount) := by
  have hmore : ¬ amount ≤ ledger.quantityAt slot.owner slot.asset slot.mark := fun hle =>
    absurd (hle.trans (ledger.quantityAt_le_available entry slot)) (Nat.not_le.mpr hlt)
  unfold draw
  dsimp only
  rw [if_neg hmore]
  unfold available at hlt ⊢
  cases hl : entry.locate ledger.charter slot.mark with
  | current => exact ⟨_, rfl, rfl⟩
  | legacy index epoch =>
    simp only [hl] at hlt ⊢
    split at hlt
    next hzero =>
      have hshort : ledger.legacyQuantity slot.owner slot.asset epoch < amount := hlt
      refine ⟨_, (if_pos hzero).symm, ?_⟩
      rw [if_pos hzero, if_pos hshort]
    next hheld =>
      rw [if_neg hheld, if_neg hheld]
      split at hlt
      next hboth =>
        have hshort : ledger.legacyQuantity slot.owner slot.asset epoch <
              amount.monus (ledger.quantityAt slot.owner slot.asset slot.mark) :=
          Nat.lt_sub_iff_add_lt'.mpr hlt
        rw [if_pos hboth, if_pos hboth, if_pos hshort]
        obtain ⟨sum, hsum⟩ := h.held_add he hl hheld
        exact ⟨sum, Unsigned.add_eq_ok.mp hsum, by rw [hsum]; rfl⟩
      next hcurrent =>
        rw [if_neg hcurrent, if_neg hcurrent]
        exact ⟨_, rfl, rfl⟩

theorem takeAt_refuses (h : ledger.Tallied) (he : ledger.asset slot.asset = .ok entry)
    (hlt : ledger.available entry slot < amount.toNat) :
    ∃ rest : Amount, rest.toNat = ledger.available entry slot ∧
      ledger.takeAt entry slot amount =
        .error (.insufficientBalance slot.owner slot.asset slot.mark rest amount) := by
  obtain ⟨rest, hrest, hdraw⟩ := h.draw_refuses he hlt
  refine ⟨rest, hrest, ?_⟩
  rw [takeAt_eq, hdraw]
  rfl

end Tallied

/-! ### Nothing is taken from beyond the tip -/

namespace Housed

/-- What an account has reached is no further than the tip. -/
theorem reached_le_tip (h : ledger.Housed) {id : AccountId} {asset : AssetId} {index : ℤ}
    (hr : ledger.Reached id asset index) : index ≤ ledger.tip asset := by
  obtain ⟨checkpoint, hget, hle⟩ := hr
  obtain ⟨-, entry, hentry, hle'⟩ := h.checkpoint hget
  rw [tip_eq (asset_eq_ok.mpr hentry)]
  exact hle.trans hle'

/-- Where something can be taken, there was a tip. -/
theorem mark_le_tip (h : ledger.Housed) (he : ledger.asset slot.asset = .ok entry)
    (ht : ledger.takeAt entry slot amount = .ok (value, ledger')) :
    slot.mark.toInt ≤ ledger.tip slot.asset := by
  have current {quantity value : Amount} {deposits : SortedMap (Slot Index) Position}
      (hc : ledger.deposits.take slot quantity = .ok (value, deposits)) :
      slot.mark.toInt ≤ ledger.tip slot.asset := by
    obtain ⟨position, hget, -⟩ := SortedMap.take_eq_ok hc
    exact h.reached_le_tip (h.deposits slot position hget).2.2
  cases taken_of_takeAt ht with
  | current hc => exact current hc
  | legacy hl hg =>
    obtain ⟨position, hget, -⟩ := SortedMap.take_eq_ok hg
    rw [← legacyIndex_of_locate he hl]
    exact (h.legacyIndex_nonpos (h.legacyDeposits _ position hget).2.2.2).trans (h.tip_nonneg _)
  | both _ _ _ _ hc _ => exact current hc

end Housed

end Ledger

variable {ledger : Ledger} {owner : AccountId} {asset : AssetId}

/-- A removal leaves the accounts and the totals alone. -/
theorem removeEach_frame {entries : List (Index × Amount)} {removal : Removal}
    {out : Outcome Removal} (h : removeEach owner asset entries removal ledger = .ok out) :
    out.ledger.accounts = ledger.accounts ∧ out.ledger.totals = ledger.totals := by
  induction entries generalizing removal ledger out with
  | nil =>
    obtain rfl := pure_eq_ok.mp h
    exact ⟨rfl, rfl⟩
  | cons entry entries ih =>
    obtain ⟨first, rest, hfirst, hnext, rfl⟩ := bind_apply_ok.mp h
    obtain ⟨extended, -, hrest⟩ := lift_bind.mp hnext
    obtain ⟨haccounts, htotals⟩ := ih hrest
    have hframe : first.ledger.accounts = ledger.accounts ∧
        first.ledger.totals = ledger.totals := by
      by_cases hzero : entry.2 = 0
      · rw [hzero] at hfirst
        obtain ⟨-, rfl⟩ := removePosition_zero_eq_ok.mp hfirst
        exact ⟨rfl, rfl⟩
      · obtain ⟨_, _, _, _, -, -, ht, -, rfl⟩ := (removePosition_eq_ok hzero).mp hfirst
        obtain ⟨_, _, rfl⟩ := (Ledger.taken_of_takeAt ht).frame
        exact ⟨rfl, rfl⟩
    exact ⟨haccounts.trans hframe.1, htotals.trans hframe.2⟩

/-- **Nothing is taken from beyond the tip**: the induction is on the entries, and the tip stays
where it is. -/
theorem removeEach_below {entries : List (Index × Amount)} {removal : Removal}
    {out : Outcome Removal} (hl : ledger.Housed)
    (h : removeEach owner asset entries removal ledger = .ok out) :
    ∀ e ∈ entries, e.2 ≠ 0 → e.1.toInt ≤ ledger.tip asset := by
  induction entries generalizing removal ledger out with
  | nil => exact List.forall_mem_nil _
  | cons entry entries ih =>
    obtain ⟨first, rest, hfirst, hnext, rfl⟩ := bind_apply_ok.mp h
    obtain ⟨extended, -, hrest⟩ := lift_bind.mp hnext
    obtain ⟨-, hmoves⟩ := removePosition_moves hfirst
    refine List.forall_mem_cons.mpr ⟨fun hne => ?_, ?_⟩
    · obtain ⟨_, _, _, _, -, he, ht, -, -⟩ := (removePosition_eq_ok hne).mp hfirst
      exact hl.mark_le_tip he ht
    · rw [← hmoves.keeps.tip]
      exact ih (hmoves.housed hl) hrest

/-- So no value comes from beyond the tip. -/
theorem Taking.below {entries taken : List (Index × Amount)} {removal : Removal}
    {out : Outcome Removal} (hl : ledger.Housed)
    (h : removeEach owner asset entries removal ledger = .ok out)
    (t : Taking owner asset entries removal ledger out taken) :
    ∀ e ∈ taken, e.2 ≠ 0 → e.1.toInt ≤ ledger.tip asset := by
  have hbelow := removeEach_below hl h
  obtain ⟨hindices, -, -, hnothing, -⟩ := t
  clear h
  induction hnothing with
  | nil => exact List.forall_mem_nil _
  | cons hzero _ ih =>
    obtain ⟨hindex, hindices'⟩ := List.cons.inj hindices
    obtain ⟨hfirst, hrest⟩ := List.forall_mem_cons.mp hbelow
    refine List.forall_mem_cons.mpr ⟨fun hne => ?_, ih hrest hindices'⟩
    rw [hindex]
    exact hfirst fun h₀ => hne (hzero h₀)

/-! ### The account has what is taken from it -/

/-- What is booked is no less than what is booked beyond the positions. -/
theorem Ledger.valueUnbooked_le (ledger : Ledger) (id : AccountId) (asset : AssetId) :
    ledger.valueUnbooked id asset ≤ ((ledger.account id).checkpoint asset).value.toNat := by
  refine sub_le_self _ (ledger.holdings_nonneg fun owner asset' index => ⟨le_rfl, ?_⟩)
  dsimp only [valuesOf]
  split
  · exact Int.one_nonneg
  · exact le_rfl

/-- Value that is booked can be taken off. -/
theorem debitValue_succeeds {value : Amount}
    (h : value ≤ ((ledger.account owner).checkpoint asset).value) :
    ∃ out, debitValue owner asset value ledger = .ok out :=
  ⟨_, debitValue_eq_ok.mpr ⟨((ledger.account owner).checkpoint asset).value.monus value,
    Nat.sub_add_cancel h, rfl⟩⟩

/-- **What is taken is booked, and what it carries is there.**  Once the value is taken off what is
booked, the stalk that is due is what the positions left do not back; and they back no less than
nothing. -/
theorem Taking.covered {entries taken : List (Index × Amount)} {out : Outcome Removal}
    (t : Taking owner asset entries .none ledger out taken) (ho : ledger.Orderly)
    (hc : ledger.Current owner asset) (ha : out.ledger.accounts = ledger.accounts) :
    out.result.totalValue ≤ ((ledger.account owner).checkpoint asset).value ∧
      (ledger.stalkPerValue asset + ledger.tip asset) * valued taken - indexed taken ≤
        (ledger.account owner).stalk.toNat := by
  have hvalue : (out.result.totalValue.toNat : ℤ) = valued taken := t.total.trans (zero_add _)
  have himbalance := t.moves.imbalance
  rw [ho.imbalance, zero_add] at himbalance
  have hunbooked : out.ledger.valueUnbooked owner asset = valued taken := by
    rw [due_add_unbooked] at himbalance
    exact (congrArg (fun imbalance : Imbalance => imbalance.2.1 (owner, asset)) himbalance).trans
      (Pi.single_eq_same ..)
  have hle : out.result.totalValue ≤ ((out.ledger.account owner).checkpoint asset).value := by
    have hbooked := out.ledger.valueUnbooked_le owner asset
    rw [hunbooked, ← hvalue] at hbooked
    exact_mod_cast hbooked
  obtain ⟨debited, hd⟩ := debitValue_succeeds hle
  have hunbook := Move.unbook (t.moves.keeps.current hc) hd
  have hdue : debited.ledger.imbalance =
      due owner ((ledger.stalkPerValue asset + ledger.tip asset) * valued taken - indexed taken) := by
    rw [hunbook.imbalance, himbalance, t.moves.keeps.stalkPerValue, t.moves.keeps.tip, hvalue,
      add_add_add_comm, ← due_add, ← unbooked_add, add_neg_cancel, unbooked_zero, add_zero,
      neg_add_eq_sub]
  have hhoused := hunbook.housed (t.moves.housed ho.consistent.housed)
  have hstalk : debited.ledger.stalkDue owner ≤ _ := hhoused.stalkDue_le fun asset' =>
    congrArg (fun imbalance : Imbalance => imbalance.2.1 (owner, asset')) hdue
  have howed : debited.ledger.stalkDue owner =
      (ledger.stalkPerValue asset + ledger.tip asset) * valued taken - indexed taken :=
    (congrArg (fun imbalance : Imbalance => imbalance.1 owner) hdue).trans (Pi.single_eq_same ..)
  obtain ⟨held, -, rfl⟩ := debitValue_eq_ok.mp hd
  rw [howed, Ledger.account_withAccount, if_pos rfl] at hstalk
  rw [← Ledger.account_congr ha owner]
  exact ⟨hle, hstalk⟩

/-! ### The totals count what the account has -/

/-- An account has some stalk, and the totals count all that it has. -/
structure Ledger.Covers (ledger : Ledger) (id : AccountId) (stalk : Amount) : Prop where
  stalk : stalk ≤ (ledger.account id).stalk
  totalStalk : (ledger.account id).stalk ≤ ledger.totals.stalk
  totalRoots : (ledger.account id).roots ≤ ledger.totals.roots

/-- The totals are sums in which every account counts. -/
theorem Ledger.Totalled.covers (h : ledger.Totalled) {id : AccountId} {stalk : Amount}
    (hle : stalk ≤ (ledger.account id).stalk) : ledger.Covers id stalk := by
  refine ⟨hle, ?_, ?_⟩
  · have hsum : _ ≤ ledger.accounts.sum fun _ a => (a.stalk.toNat : ℤ) :=
      Ledger.account_le_sum rfl (fun _ => Int.natCast_nonneg _) id
    have hpool : 0 ≤ (ledger.totals.earnedPool.toNat : ℤ) *
        ledger.stalkPerValue ledger.charter.baseAsset :=
      mul_nonneg (Int.natCast_nonneg _) (ledger.stalkPerValue_nonneg _)
    have htotal := h.stalk
    rw [Ledger.stalkUnpooled] at htotal
    exact Int.ofNat_le.mp (by linarith)
  · have hsum : _ ≤ ledger.accounts.sum fun _ a => (a.roots.toNat : ℤ) :=
      Ledger.account_le_sum rfl (fun _ => Int.natCast_nonneg _) id
    have htotal := h.roots
    rw [Ledger.rootsLoose] at htotal
    exact Int.ofNat_le.mp (by linarith)

/-- The balances of all accounts are the same, and so are the totals. -/
structure Ledger.SameBalances (ledger ledger' : Ledger) : Prop where
  stalk : ∀ id, (ledger'.account id).stalk = (ledger.account id).stalk
  roots : ∀ id, (ledger'.account id).roots = (ledger.account id).roots
  totals : ledger'.totals = ledger.totals

namespace Ledger.SameBalances

variable {ledger' ledger'' : Ledger}

theorem of_accounts (haccounts : ledger'.accounts = ledger.accounts)
    (htotals : ledger'.totals = ledger.totals) : SameBalances ledger ledger' :=
  ⟨fun id => congrArg Account.stalk (account_congr haccounts id),
    fun id => congrArg Account.roots (account_congr haccounts id), htotals⟩

theorem trans (h : SameBalances ledger ledger') (h' : SameBalances ledger' ledger'') :
    SameBalances ledger ledger'' :=
  ⟨fun id => (h'.stalk id).trans (h.stalk id), fun id => (h'.roots id).trans (h.roots id),
    h'.totals.trans h.totals⟩

/-- An account may change in all but its balances. -/
theorem withAccount {id : AccountId} {account : Account}
    (hs : account.stalk = (ledger.account id).stalk)
    (hr : account.roots = (ledger.account id).roots) :
    SameBalances ledger (ledger.withAccount id account) := by
  refine ⟨fun id' => ?_, fun id' => ?_, rfl⟩
  · rw [account_withAccount]
    split
    next heq => rw [heq, hs]
    next => rfl
  · rw [account_withAccount]
    split
    next heq => rw [heq, hr]
    next => rfl

/-- Booking value leaves the balances alone. -/
theorem withCheckpoint (ledger : Ledger) (id : AccountId) (asset : AssetId)
    (checkpoint : Checkpoint) : SameBalances ledger
      (ledger.withAccount id ((ledger.account id).withCheckpoint asset checkpoint)) :=
  withAccount rfl rfl

theorem creditValue {value : Amount} {out : Outcome Unit}
    (h : Action.creditValue owner asset value ledger = .ok out) :
    SameBalances ledger out.ledger := by
  obtain ⟨held, -, rfl⟩ := creditValue_eq_ok.mp h
  exact withCheckpoint ..

theorem debitValue {value : Amount} {out : Outcome Unit}
    (h : Action.debitValue owner asset value ledger = .ok out) :
    SameBalances ledger out.ledger := by
  obtain ⟨held, -, rfl⟩ := debitValue_eq_ok.mp h
  exact withCheckpoint ..

end Ledger.SameBalances

namespace Ledger.Covers

variable {id : AccountId} {stalk : Amount}

/-- Only the balances matter. -/
theorem of_balances {ledger' : Ledger} (h : ledger.Covers id stalk)
    (hsame : ledger.SameBalances ledger') : ledger'.Covers id stalk := by
  refine ⟨?_, ?_, ?_⟩
  · rw [hsame.stalk]
    exact h.stalk
  · rw [hsame.stalk, hsame.totals]
    exact h.totalStalk
  · rw [hsame.roots, hsame.totals]
    exact h.totalRoots

/-- The roots that go with the stalk can be told, and the account has them: their share of all roots
is no more than all of them. -/
theorem rootsForBurn_succeeds (h : ledger.Covers id stalk) : ∃ roots,
    rootsForBurn ledger.totals.roots ledger.totals.stalk stalk (ledger.account id).roots =
      .ok roots ∧ roots ≤ (ledger.account id).roots := by
  unfold rootsForBurn
  split
  next => exact ⟨_, rfl, Nat.le_refl _⟩
  next hne =>
    have hpos : 0 < ledger.totals.stalk.toNat :=
      Nat.pos_of_ne_zero fun hzero => hne (Unsigned.ext hzero)
    have hshare : (ledger.totals.roots.toNat * stalk.toNat + (ledger.totals.stalk.toNat - 1)) /
        ledger.totals.stalk.toNat ≤ ledger.totals.roots.toNat := by
      have hle := Nat.mul_le_mul_left ledger.totals.roots.toNat (h.stalk.trans h.totalStalk)
      rw [Nat.div_le_iff_le_mul_add_pred hpos, Nat.mul_comm ledger.totals.stalk.toNat]
      omega
    let roots : Amount := ⟨_, hshare.trans_lt ledger.totals.roots.toNat_lt⟩
    refine ⟨min roots (ledger.account id).roots, ?_, ?_⟩
    · exact bind_eq_ok.mpr ⟨roots, mulDivCeil_eq_ok.mpr ⟨hpos.ne', rfl⟩, rfl⟩
    · exact Unsigned.min_le_right _ _

/-- The totals and the account give them. -/
theorem debit_succeeds (h : ledger.Covers id stalk) {roots : Amount}
    (hroots : roots ≤ (ledger.account id).roots) :
    (∃ totals, ledger.totals.debit stalk roots = .ok totals) ∧
      ∃ account, (ledger.account id).debit stalk roots = .ok account :=
  ⟨⟨{ ledger.totals with
      stalk := ledger.totals.stalk.monus stalk
      roots := ledger.totals.roots.monus roots },
    Totals.debit_eq_ok.mpr ⟨Nat.sub_add_cancel (h.stalk.trans h.totalStalk),
      Nat.sub_add_cancel (hroots.trans h.totalRoots), rfl⟩⟩,
    _, Account.debit_eq_ok.mpr ⟨(ledger.account id).stalk.monus stalk,
      (ledger.account id).roots.monus roots, Nat.sub_add_cancel h.stalk,
      Nat.sub_add_cancel hroots, rfl⟩⟩

end Ledger.Covers

/-- **The account has what removed positions carry**: what they were worth can be taken off what is
booked, and then the stalk they carry is there. -/
theorem removeMultiple_covers {indices : List Index} {amounts : List Amount}
    {removed : Outcome Removal} {later : Ledger} {entry : Asset} {carried : CarriedStalk}
    (ho : ledger.Orderly) (hc : ledger.Current owner asset)
    (hr : removeMultiple owner asset indices amounts ledger = .ok removed)
    (haccounts : later.accounts = ledger.accounts) (htotals : later.totals = ledger.totals)
    (hprice : (entry.stalkPerValue.toNat : ℤ) = ledger.stalkPerValue asset)
    (htip : entry.accrualIndex.toInt = ledger.tip asset)
    (hs : entry.stalkOf indices removed.result = .ok carried) :
    ∃ debited, debitValue owner asset removed.result.totalValue later = .ok debited ∧
      later.SameBalances debited.ledger ∧ debited.ledger.Covers owner carried.stalk := by
  obtain ⟨-, taking⟩ := removeMultiple_taking hr
  obtain ⟨hbooked, hcarries⟩ :=
    taking.covered ho hc (removeEach_frame (removeMultiple_stages hr).2).1
  obtain ⟨hgrown, htotal, -⟩ := stalkOf_spec hs
  have hvalue : (removed.result.totalValue.toNat : ℤ) =
      valued (indices.zip removed.result.values) := taking.total.trans (zero_add _)
  have hstalk : carried.stalk ≤ (ledger.account owner).stalk := by
    refine Int.ofNat_le.mp (hcarries.trans' (le_of_eq ?_))
    rw [htotal]
    push_cast
    rw [hgrown, hvalue, hprice, htip]
    ring
  rw [← Ledger.account_congr haccounts owner] at hbooked
  obtain ⟨debited, hd⟩ := debitValue_succeeds hbooked
  have hlater := Ledger.SameBalances.of_accounts haccounts htotals
  have hsame := Ledger.SameBalances.debitValue hd
  exact ⟨debited, hd, hsame, (ho.totalled.covers hstalk).of_balances (hlater.trans hsame)⟩

end StalkLedger
