import StalkLedger.Proofs.Absorption
import StalkLedger.Proofs.Dilution
import StalkLedger.Proofs.Parcels

/-!
# Planting takes one share

What an account could plant is the stalk behind its roots beyond its own, in whole units of the base
asset (`Ledger.unclaimed`), as far as the pool goes.  The stalk of the pool is in the total before
it is planted, so planting changes neither the total nor what stands behind the roots of anybody.

* **What a planting does** (`plant_plants`): the quantity goes from the pool to a position at the
  tip, and its stalk to the account.
* **It leaves the account nothing** (`Ledger.Plants.earned_self`): either the stalk behind its roots
  is used up to less than a unit, or the pool is.
* **It leaves the others their shares** (`Ledger.Plants.unclaimed_other`); only the pool is smaller.

So **planting takes exactly one share** (`Vault.planting_takes_share`), and planting again does
nothing at all.
-/

namespace StalkLedger

open StalkLedger.Action
open Position (contents)

variable {ledger ledger' : Ledger} {id : AccountId}

namespace Ledger

/-- The units of the base asset for which there is stalk behind the roots of an account, beyond its
own. -/
def unclaimed (ledger : Ledger) (id : AccountId) : ℕ :=
  (ledger.totals.stalk.toNat * (ledger.account id).roots.toNat / ledger.totals.roots.toNat -
      (ledger.account id).stalk.toNat) /
    (ledger.stalkPerValue ledger.charter.baseAsset).toNat

theorem earned_eq_min (ledger : Ledger) (id : AccountId) :
    ledger.earned id = min (ledger.unclaimed id) ledger.totals.earnedPool.toNat := rfl

/-- The second ledger is that in which an account has planted a quantity of the base asset, with the
entry that this has in the first. -/
structure Plants (id : AccountId) (entry : Asset) (planted : Amount) (ledger ledger' : Ledger) :
    Prop extends SameTerms ledger ledger' where
  /-- The pool gives the quantity, and the totals of stalk and roots stay, -/
  pool : ledger'.totals.earnedPool.toNat + planted.toNat = ledger.totals.earnedPool.toNat
  totals : ledger'.totals = { ledger.totals with earnedPool := ledger'.totals.earnedPool }
  /-- the account gets its stalk and its value, but no roots, -/
  stalk : (ledger'.account id).stalk.toNat =
    (ledger.account id).stalk.toNat + planted.toNat * entry.stalkPerValue.toNat
  roots : (ledger'.account id).roots = (ledger.account id).roots
  value : ((ledger'.account id).checkpoint ledger.charter.baseAsset).value.toNat =
    ((ledger.account id).checkpoint ledger.charter.baseAsset).value.toNat + planted.toNat
  /-- and the position at the tip has so much more of both. -/
  position : contents (ledger'.positionAt id ledger.charter.baseAsset entry.accrualIndex) =
    contents (ledger.positionAt id ledger.charter.baseAsset entry.accrualIndex) +
      contents (some ⟨planted, planted⟩)
  /-- All other accounts and positions are the same. -/
  others : ∀ other, other ≠ id → ledger'.accounts.get? other = ledger.accounts.get? other
  elsewhere : ∀ slot, slot ≠ ⟨id, ledger.charter.baseAsset, entry.accrualIndex⟩ →
    ledger'.deposits.get? slot = ledger.deposits.get? slot

namespace Plants

variable {entry : Asset} {planted : Amount}

/-- Nothing planted is nothing done. -/
theorem nothing (ledger : Ledger) (id : AccountId) (entry : Asset) :
    Plants id entry 0 ledger ledger where
  toSameTerms := .refl ledger
  pool := Nat.add_zero _
  totals := rfl
  stalk := by rw [Unsigned.toNat_zero, Nat.zero_mul, Nat.add_zero]
  roots := rfl
  value := Nat.add_zero _
  position := (add_zero _).symm
  others := fun _ _ => rfl
  elsewhere := fun _ _ => rfl

/-- The base asset is still listed, at the same index. -/
theorem listed (h : Plants id entry planted ledger ledger')
    (hentry : ledger.asset ledger.charter.baseAsset = .ok entry) :
    ∃ entry', ledger'.asset ledger'.charter.baseAsset = .ok entry' ∧
      entry'.accrualIndex = entry.accrualIndex := by
  obtain ⟨entry', hentry', hsame⟩ := h.entry (asset_eq_ok.mp hentry)
  have hindex := congrArg Asset.accrualIndex hsame
  exact ⟨entry', h.charter ▸ asset_eq_ok.mpr hentry', hindex⟩

/-- **What is left for the others**: what stands behind their roots is the same. -/
theorem unclaimed_other (h : Plants id entry planted ledger ledger') {other : AccountId}
    (hne : other ≠ id) : ledger'.unclaimed other = ledger.unclaimed other := by
  have haccount : ledger'.account other = ledger.account other := by
    rw [account, h.others other hne, account]
  rw [unclaimed, haccount, h.totals, h.charter, h.stalkPerValue, unclaimed]

/-- What stands behind the roots of the account is less by what was planted. -/
theorem unclaimed_self (h : Plants id entry planted ledger ledger')
    (hentry : ledger.asset ledger.charter.baseAsset = .ok entry)
    (hle : planted.toNat ≤ ledger.unclaimed id) :
    ledger'.unclaimed id = ledger.unclaimed id - planted.toNat := by
  rw [unclaimed, stalkPerValue_eq hentry, Int.toNat_natCast] at hle
  rw [unclaimed, unclaimed, h.roots, h.totals, h.charter, h.stalkPerValue, h.stalk,
    stalkPerValue_eq hentry, Int.toNat_natCast, ← Nat.sub_sub, Nat.mul_comm planted.toNat]
  refine Nat.sub_mul_div_of_le _ _ _ ?_
  rw [Nat.mul_comm]
  exact Nat.mul_le_of_le_div _ _ _ hle

/-- **What is left for the account**: nothing. -/
theorem earned_self (h : Plants id entry planted ledger ledger')
    (hentry : ledger.asset ledger.charter.baseAsset = .ok entry)
    (hearned : planted.toNat = ledger.earned id) : ledger'.earned id = 0 := by
  rw [earned_eq_min] at hearned ⊢
  have hself := h.unclaimed_self hentry (hearned ▸ Nat.min_le_left _ _)
  have hpool := h.pool
  -- Either the share was planted, or the pool was.
  omega

end Plants

end Ledger

open Ledger (Plants Keeps)

/-! ### A planting -/

/-- A position is entered and its value booked: the slot takes the position in, and the checkpoint
of its owner the value. -/
theorem entering_spec {slot : Slot Index} {position : Position} {added booked : Outcome Unit}
    (hadd : addPositionAt slot position ledger = .ok added)
    (hbook : creditValue slot.owner slot.asset position.value added.ledger = .ok booked) :
    ∃ (deposits : SortedMap (Slot Index) Position) (assets : SortedMap AssetId Asset)
      (held : Amount), ledger.deposits.put slot position = .ok deposits ∧
      held.toNat =
        ((ledger.account slot.owner).checkpoint slot.asset).value.toNat + position.value.toNat ∧
      booked.ledger = ({ ledger with deposits, assets }).withAccount slot.owner
        ((ledger.account slot.owner).withCheckpoint slot.asset
          { (ledger.account slot.owner).checkpoint slot.asset with value := held }) := by
  obtain ⟨deposits, entry, entry', -, -, -, hput, -, -, rfl⟩ := addPositionAt_eq_ok.mp hadd
  obtain ⟨held, hheld, rfl⟩ := creditValue_eq_ok.mp hbook
  exact ⟨deposits, _, held, hput, hheld, rfl⟩

/-- **What a planting does** after it has mown: it plants what could be planted, and the account
stays current. -/
theorem plant_plants {out : Outcome PlantReceipt} (h : plant id ledger = .ok out) :
    ∃ mown entry, mow id ledger.charter.baseAsset ledger = .ok mown ∧
      mown.ledger.asset ledger.charter.baseAsset = .ok entry ∧
      mown.ledger.earnedBalance id = .ok out.result.quantity ∧
      Plants id entry out.result.quantity mown.ledger out.ledger ∧
      Keeps mown.ledger out.ledger := by
  obtain ⟨mown, quantity, entry, hmow, hquantity, hentry, hplant⟩ := plant_stages h
  refine ⟨mown, entry, hmow, hentry, ?_⟩
  rcases hplant with ⟨rfl, rfl⟩ | ⟨stalk, pool, tip, added, booked, credited, event, hstalk, hpool,
    htip, hadd, hbook, hcredit, -, rfl⟩
  · exact ⟨hquantity, .nothing _ _ _, .refl _⟩
  obtain rfl := Except.ok.inj (hentry.symm.trans htip)
  rw [← (mow_moves hmow).1.keeps.charter] at hentry hadd hbook
  have hkeeps : Keeps mown.ledger credited.ledger :=
    ((Keeps.withTotals _ _).trans (entering_moves (Ledger.tip_eq hentry).ge hadd hbook).keeps).trans
      (.creditStalk hcredit)
  refine ⟨hquantity, ?_, hkeeps⟩
  obtain ⟨deposits, assets, held, hput, hheld, hbooked⟩ := entering_spec hadd hbook
  obtain ⟨stalk', roots', _, hstalk', hroots', rfl⟩ := creditStalk_spec hcredit
  -- The account with its new value, before its stalk is credited.
  have haccount : booked.ledger.account id =
      (mown.ledger.account id).withCheckpoint mown.ledger.charter.baseAsset
        { (mown.ledger.account id).checkpoint mown.ledger.charter.baseAsset with
          value := held } := by
    rw [hbooked, Ledger.account_withAccount, if_pos rfl]
    rfl
  have hcheckpoint : (booked.ledger.account id).checkpoint mown.ledger.charter.baseAsset =
      { (mown.ledger.account id).checkpoint mown.ledger.charter.baseAsset with value := held } := by
    rw [haccount, Account.checkpoint_withCheckpoint, if_pos rfl]
  have hself := (Ledger.account_withAccount booked.ledger id id
    { booked.ledger.account id with stalk := stalk', roots := roots' }).trans (if_pos rfl)
  rw [haccount] at hstalk' hroots'
  exact {
    toSameTerms := hkeeps.toSameTerms
    pool := by
      rw [hbooked]
      exact Unsigned.sub_eq_ok.mp hpool
    totals := by
      rw [hbooked]
      rfl
    stalk := by
      rw [hself, ← Unsigned.mul_eq_ok.mp hstalk]
      exact hstalk'
    roots := by
      rw [hself]
      exact Unsigned.ext hroots'
    value := by
      rw [hself]
      exact (congrArg (fun c : Checkpoint => c.value.toNat) hcheckpoint).trans hheld
    position := by
      rw [hbooked]
      exact SortedMap.contents_of_put hput
    others := fun other hne => by
      rw [hbooked]
      exact (SortedMap.get?_insert_of_ne _ hne _).trans (SortedMap.get?_insert_of_ne _ hne _)
    elsewhere := fun slot hne => by
      rw [hbooked]
      exact SortedMap.get?_of_put hput hne }

/-- **Nothing to plant**: a current account that could plant nothing plants nothing, without a
trace. -/
theorem plant_of_current {entry : Asset} (hcurrent : ledger.Current id ledger.charter.baseAsset)
    (hentry : ledger.asset ledger.charter.baseAsset = .ok entry)
    (hearned : ledger.earnedBalance id = .ok 0) :
    plant id ledger = .ok ⟨⟨0, entry.accrualIndex, 0⟩, ledger, ∅⟩ := by
  refine ledger_bind.mpr ((bind_of_silent (mow_of_current hcurrent)).mpr (ledger_bind.mpr
    (lift_bind.mpr ⟨0, hearned, lift_bind.mpr ⟨entry, hentry, ?_⟩⟩)))
  rw [if_pos rfl]
  rfl

section Planted

variable {entry : Asset} {planted : Amount}

/-- **Nothing to plant again**: the account has planted what it could, and is current. -/
theorem plant_again (h : Plants id entry planted ledger ledger') (hkeeps : Keeps ledger ledger')
    (ho : ledger'.Orderly) (hcurrent : ledger.Current id ledger.charter.baseAsset)
    (hentry : ledger.asset ledger.charter.baseAsset = .ok entry)
    (hearned : planted.toNat = ledger.earned id) :
    plant id ledger' = .ok ⟨⟨0, entry.accrualIndex, 0⟩, ledger', ∅⟩ := by
  obtain ⟨entry', hlisted, hindex⟩ := h.listed hentry
  obtain ⟨earned, hbalance, heq⟩ := Ledger.earnedBalance_eq hlisted (ho.roots_le id)
  obtain rfl : earned = 0 := Unsigned.ext (heq.trans (h.earned_self hentry hearned))
  rw [← hindex]
  exact plant_of_current (h.charter ▸ hkeeps.current hcurrent) hlisted hbalance

/-- **What the others could plant**: what they have unclaimed, as far as the rest of the pool
goes. -/
theorem earnedBalance_other (h : Plants id entry planted ledger ledger') (ho : ledger'.Orderly)
    (hentry : ledger.asset ledger.charter.baseAsset = .ok entry) {other : AccountId}
    (hne : other ≠ id) : ∃ earned, ledger'.earnedBalance other = .ok earned ∧
      earned.toNat = min (ledger.unclaimed other)
        (ledger.totals.earnedPool.toNat - planted.toNat) := by
  obtain ⟨_, hlisted, -⟩ := h.listed hentry
  obtain ⟨earned, hbalance, heq⟩ := Ledger.earnedBalance_eq hlisted (ho.roots_le other)
  refine ⟨earned, hbalance, ?_⟩
  rw [heq, Ledger.earned_eq_min, h.unclaimed_other hne, Nat.eq_sub_of_add_eq h.pool]

end Planted

namespace Vault

/-- **Planting takes exactly one share.**  After any requests to a new vault, let a planting be
answered.  Next to the ledger in which the account has been mown, the pool has given the quantity,
the totals of stalk and roots are the same, the account has the stalk and the value of the quantity
and its position at the tip has grown by it.  Planting again plants nothing and leaves the vault as
it is.  And any other account could now plant what it has unclaimed in the mown ledger, as far as
the rest of the pool goes. -/
theorem planting_takes_share {charter : Charter} {start : Vault} (h : genesis charter = .ok start)
    (requests : List Request) {id : AccountId} {receipt : PlantReceipt}
    (hanswer : (serve (.plant id) (run requests start).2).1.result = .ok (.planted receipt)) :
    let vault := (run requests start).2
    let planted := (serve (.plant id) vault).2
    ∃ mown entry, mow id vault.ledger.charter.baseAsset vault.ledger = .ok mown ∧
      mown.ledger.asset vault.ledger.charter.baseAsset = .ok entry ∧
      Plants id entry receipt.quantity mown.ledger planted.ledger ∧
      serve (.plant id) planted =
        (⟨.ok (.planted ⟨0, entry.accrualIndex, 0⟩), none, ∅⟩, planted) ∧
      ∀ other, other ≠ id → ∃ earned, planted.ledger.earnedBalance other = .ok earned ∧
        earned.toNat = min (mown.ledger.unclaimed other)
          (mown.ledger.totals.earnedPool.toNat - receipt.quantity.toNat) := by
  intro vault planted
  obtain ⟨ho, hentered⟩ := orderly h requests
  obtain ⟨htransition, hreleased⟩ := handle_transition hentered (.call (.plant id))
  have hentered' : planted.entered = false := hreleased
  have ho' : planted.ledger.Orderly := htransition.orderly ho
  obtain ⟨out, hplant, hledger, hreceipt⟩ := plant_of_answer hentered hanswer
  obtain rfl := Answer.planted.inj hreceipt
  obtain ⟨mown, entry, hmow, hentry, hbalance, hplants, hkeeps⟩ := plant_plants hplant
  obtain ⟨hmoves, hcurrent⟩ := mow_moves hmow
  rw [← hledger] at hplants hkeeps
  refine ⟨mown, entry, hmow, hentry, hplants, ?_⟩
  rw [← hmoves.keeps.charter] at hentry hcurrent
  have hearned : out.result.quantity.toNat = mown.ledger.earned id :=
    Ledger.earned_of_earnedBalance hentry ((ho.of_mow hmow).roots_le id) hbalance
  have hagain : plant id planted.ledger = .ok ⟨⟨0, entry.accrualIndex, 0⟩, planted.ledger, ∅⟩ :=
    plant_again hplants hkeeps ho' hcurrent hentry hearned
  refine ⟨?_, fun _ => earnedBalance_other hplants ho' hentry⟩
  rw [serve, transact_of_idle hentered' hagain]
  rfl

/-- Account 8 plants 35 of the 60 in the pool; account 7 could plant another 24. -/
theorem planting_takes_share_pool : genesis ⟨10, 10, 0, 9⟩ = .ok sample ∧
    let vault := (run poolRequests sample).2
    let planted := (serve (.plant 8) vault).2
    (serve (.plant 8) vault).1.result = .ok (.planted ⟨35, 0, 350000⟩) ∧
    ∃ mown entry, mow 8 vault.ledger.charter.baseAsset vault.ledger = .ok mown ∧
      mown.ledger.asset vault.ledger.charter.baseAsset = .ok entry ∧
      Plants 8 entry 35 mown.ledger planted.ledger ∧
      serve (.plant 8) planted =
        (⟨.ok (.planted ⟨0, entry.accrualIndex, 0⟩), none, ∅⟩, planted) ∧
      ∀ other, other ≠ 8 → ∃ earned, planted.ledger.earnedBalance other = .ok earned ∧
        earned.toNat = min (mown.ledger.unclaimed other)
          (mown.ledger.totals.earnedPool.toNat - 35) := by
  have hanswer : (serve (.plant 8) (run poolRequests sample).2).1.result =
      .ok (.planted ⟨35, 0, 350000⟩) := by decide +kernel
  exact ⟨genesis_sample, hanswer, planting_takes_share genesis_sample poolRequests hanswer⟩

end Vault

end StalkLedger
