import StalkLedger.Proofs.Claimable
import StalkLedger.Proofs.Laziness
import StalkLedger.Proofs.Planting

/-!
# Queries predict operations

A query computes on the ledger as it is what an operation computes on its way, after it has updated
the account, settled its floods and moved its checkpoint.  Both come to the same:

* a mowing returns the grown balance (`grownBalance_of_mow`): an account that was never touched in
  an asset has grown nothing there;
* a claim pays out the flood balance (`Vault.claim_reply`);
* mowing that returns nothing leaves what the account could plant (`earnedBalance_of_mow`);
* a removal of all that is found at an index takes its value, from whichever store
  (`removePosition_resolved`), and mowing moves no position (`resolvedPosition_of_mow`).

So whoever asks first knows what the operation will do (`Vault.queries_predict`).
-/

namespace StalkLedger

open StalkLedger.Action

variable {ledger ledger' : Ledger} {id owner : AccountId} {asset : AssetId}

/-! ### Mowing -/

/-- **A mowing returns the grown balance.** -/
theorem grownBalance_of_mow {out : Outcome Amount} (h : mow id asset ledger = .ok out) :
    ledger.grownBalance id asset = .ok out.result := by
  obtain ⟨updated, hupdate, hgrowth⟩ := mow_stages h
  obtain ⟨entry, grown, minted, hentry, hgrown, -, rfl⟩ := creditGrowth_spec hgrowth
  obtain ⟨flood, lastUpdate, haccount⟩ := account_of_update hupdate
  -- An update leaves the registry and the checkpoints.
  have hlisted : ledger.asset asset = .ok entry := by
    rcases updateAccount_eq_ok.mp hupdate with ⟨-, rfl⟩ | ⟨-, flood, -, rfl⟩
    · exact hentry
    · exact hentry
  have hcheckpoint : (updated.ledger.account id).checkpoint asset =
      ((ledger.account id).checkpoints.get? asset).getD .fresh := by rw [haccount]; rfl
  rw [hcheckpoint] at hgrown
  refine bind_eq_ok.mpr ⟨entry.accrualIndex, bind_eq_ok.mpr ⟨entry, hlisted, rfl⟩, ?_⟩
  cases hget : (ledger.account id).checkpoints.get? asset with
  | some checkpoint =>
    rw [hget] at hgrown
    exact hgrown
  | none =>
    rw [hget] at hgrown
    obtain ⟨-, -, hzero⟩ := grownReward_eq_ok.mp hgrown
    have hnothing : (grown.toNat : ℤ) = 0 := hzero.trans (mul_zero _)
    exact congrArg Except.ok (Unsigned.ext (Int.natCast_eq_zero.mp hnothing)).symm

/-- Only balances, the registry and the base asset matter for what an account could plant. -/
theorem earnedBalance_congr (hb : ledger.SameBalances ledger')
    (hcharter : ledger'.charter = ledger.charter) (hassets : ledger'.assets = ledger.assets)
    (id : AccountId) : ledger'.earnedBalance id = ledger.earnedBalance id := by
  have hasset (asset : AssetId) : ledger'.asset asset = ledger.asset asset := by
    rw [Ledger.asset, hassets, Ledger.asset]
  unfold Ledger.earnedBalance
  dsimp only
  rw [hb.totals, hb.roots, hb.stalk, hcharter, hasset]

/-- **A mowing that returns nothing** leaves what an account could plant. -/
theorem earnedBalance_of_mow {out : Outcome Amount} (h : mow id asset ledger = .ok out)
    (hzero : out.result = 0) (other : AccountId) :
    out.ledger.earnedBalance other = ledger.earnedBalance other := by
  obtain ⟨accounts, totals, hframe⟩ := mow_frame h
  obtain ⟨updated, hupdate, hgrowth⟩ := mow_stages h
  obtain ⟨entry, grown, minted, -, -, hmint, rfl⟩ := creditGrowth_spec hgrowth
  obtain rfl : grown = 0 := hzero
  -- Minting nothing does nothing.
  have hbalances : ledger.SameBalances minted.ledger := by
    cases hmint
    exact (updateAccount_same hupdate).1.trans (.withCheckpoint ..)
  exact earnedBalance_congr hbalances (by rw [hframe]) (by rw [hframe]) other

/-! ### Removing all -/

/-- All of an entry goes with all of its value, and leaves no entry. -/
theorem SortedMap.take_whole {μ : Type} [Key μ] {store : SortedMap (Slot μ) Position}
    {slot : Slot μ} {position : Position} (h : store.get? slot = some position) :
    store.take slot position.quantity = .ok (position.value, store.erase slot) := by
  have hfits : ¬ position.quantity < position.quantity := Nat.lt_irrefl _
  unfold take
  rw [h]
  dsimp only
  rw [if_neg hfits, if_pos rfl]

namespace Ledger

variable {slot : Slot Index} {entry : Asset} {position : Position}

/-- An entry of the current store is taken as a whole, -/
theorem takeAt_current (h : ledger.positionAt slot.owner slot.asset slot.mark = some position) :
    ledger.takeAt entry slot position.quantity =
      .ok (position.value, { ledger with deposits := ledger.deposits.erase slot }) := by
  have hheld : ledger.quantityAt slot.owner slot.asset slot.mark = position.quantity := by
    rw [quantityAt, h]
    rfl
  have hpays : position.quantity ≤ position.quantity := Nat.le_refl _
  unfold takeAt
  dsimp only
  rw [hheld, if_pos hpays]
  exact takeCurrent_eq_ok.mpr ⟨_, SortedMap.take_whole h, rfl⟩

/-- and so is an entry of the legacy store, if there is no other at the index. -/
theorem takeAt_legacy {index : Index} {epoch : Epoch}
    (hnone : ledger.positionAt slot.owner slot.asset slot.mark = none)
    (hlocated : entry.locate ledger.charter slot.mark = .legacy index epoch)
    (h : ledger.legacyPosition slot.owner slot.asset epoch = some position)
    (hne : position.quantity ≠ 0) :
    ledger.takeAt entry slot position.quantity = .ok (position.value,
      { ledger with
        legacyDeposits := ledger.legacyDeposits.erase ⟨slot.owner, slot.asset, epoch⟩ }) := by
  have hheld : ledger.quantityAt slot.owner slot.asset slot.mark = 0 := by
    rw [quantityAt, hnone]
    rfl
  have hlegacy : ledger.legacyQuantity slot.owner slot.asset epoch = position.quantity := by
    rw [legacyQuantity, h]
    rfl
  have hmore : ¬ position.quantity ≤ 0 := fun hle => hne (Unsigned.ext (Nat.le_zero.mp hle))
  have hpays : ¬ position.quantity < position.quantity := Nat.lt_irrefl _
  unfold takeAt
  dsimp only
  rw [hheld, if_neg hmore, hlocated]
  dsimp only
  rw [if_pos rfl, hlegacy, if_neg hpays]
  exact takeLegacy_eq_ok.mpr ⟨_, SortedMap.take_whole h, rfl⟩

/-- **What is found at an index is taken with its value**, from whichever store. -/
theorem takeAt_resolved (he : ledger.asset slot.asset = .ok entry)
    (h : ledger.resolvedPosition slot.owner slot.asset slot.mark = .ok (some position))
    (hne : position.quantity ≠ 0) :
    ∃ taken, ledger.takeAt entry slot position.quantity = .ok (position.value, taken) := by
  unfold resolvedPosition at h
  cases hcurrent : ledger.positionAt slot.owner slot.asset slot.mark with
  | some found =>
    rw [hcurrent] at h
    obtain rfl := Option.some.inj (Except.ok.inj h)
    exact ⟨_, takeAt_current hcurrent⟩
  | none =>
    rw [hcurrent] at h
    obtain ⟨entry', he', hfound⟩ := bind_eq_ok.mp h
    obtain rfl := Except.ok.inj (he.symm.trans he')
    obtain ⟨epoch, hepoch, hlegacy⟩ :=
      Option.bind_eq_some_iff.mp (StalkLedger.pure_eq_ok.mp hfound)
    cases hlocated : entry.locate ledger.charter slot.mark with
    | current =>
      rw [hlocated] at hepoch
      cases hepoch
    | legacy index located =>
      rw [hlocated] at hepoch
      obtain rfl := Option.some.inj hepoch
      exact ⟨_, takeAt_legacy hcurrent hlocated hlegacy hne⟩

/-- What is found at an index holds something. -/
theorem Housed.resolved_ne_zero (hl : ledger.Housed) {index : Index}
    (h : ledger.resolvedPosition owner asset index = .ok (some position)) :
    position.quantity ≠ 0 := by
  unfold resolvedPosition at h
  cases hcurrent : ledger.positionAt owner asset index with
  | some found =>
    rw [hcurrent] at h
    obtain rfl := Option.some.inj (Except.ok.inj h)
    exact (hl.deposits _ _ hcurrent).1
  | none =>
    rw [hcurrent] at h
    obtain ⟨entry, -, hfound⟩ := bind_eq_ok.mp h
    obtain ⟨epoch, -, hlegacy⟩ := Option.bind_eq_some_iff.mp (StalkLedger.pure_eq_ok.mp hfound)
    exact (hl.legacyDeposits _ _ hlegacy).1

end Ledger

/-- A removal of all that is found at an index returns its value. -/
theorem removePosition_resolved {index : Index} {position : Position} {out : Outcome Amount}
    (hne : position.quantity ≠ 0)
    (hp : ledger.resolvedPosition owner asset index = .ok (some position))
    (h : removePosition ⟨owner, asset, index⟩ position.quantity ledger = .ok out) :
    out.result = position.value := by
  obtain ⟨value, taken, entry, entry', -, hentry, htake, -, rfl⟩ := (removePosition_eq_ok hne).mp h
  obtain ⟨taken', htake'⟩ := Ledger.takeAt_resolved hentry hp hne
  exact congrArg Prod.fst (Except.ok.inj (htake.symm.trans htake'))

/-- One entry removed. -/
theorem removeMultiple_single {index : Index} {amount : Amount} {removed : Outcome Removal}
    (h : removeMultiple owner asset [index] [amount] ledger = .ok removed) :
    ∃ first, removePosition ⟨owner, asset, index⟩ amount ledger = .ok first ∧
      removed.ledger = first.ledger ∧ removed.result = ⟨first.result, amount, [first.result]⟩ := by
  obtain ⟨-, hremove⟩ := removeMultiple_stages h
  obtain ⟨first, _, hfirst, hnext, rfl⟩ := bind_apply_ok.mp hremove
  obtain ⟨removal, hextend, hlast⟩ := lift_bind.mp hnext
  obtain rfl := pure_eq_ok.mp hlast
  obtain ⟨hvalue, hquantity, hvalues⟩ := Removal.extend_eq_ok hextend
  refine ⟨first, hfirst, rfl, ?_⟩
  obtain ⟨totalValue, totalQuantity, values⟩ := removal
  obtain rfl : values = [first.result] := hvalues
  obtain rfl : totalValue = first.result := Unsigned.ext (hvalue.trans (Nat.zero_add _))
  obtain rfl : totalQuantity = amount := Unsigned.ext (hquantity.trans (Nat.zero_add _))
  rfl

/-- Mowing moves no position. -/
theorem resolvedPosition_of_mow {out : Outcome Amount} (h : mow id asset ledger = .ok out) :
    out.ledger.resolvedPosition = ledger.resolvedPosition := by
  obtain ⟨accounts, totals, hframe⟩ := mow_frame h
  rw [hframe]
  rfl

/-- **A withdrawal of all that is found at an index** takes its value. -/
theorem withdraw_resolved {index : Index} {position : Position} {out : Outcome WithdrawReceipt}
    (hne : position.quantity ≠ 0)
    (hp : ledger.resolvedPosition owner asset index = .ok (some position))
    (h : withdraw owner asset [index] [position.quantity] ledger = .ok out) :
    out.result.quantity = position.quantity ∧ out.result.value = position.value := by
  obtain ⟨mown, removed, entry, carried, debited, burned, hmow, hremove, -, -, -, -, rfl⟩ :=
    withdraw_stages h
  obtain ⟨first, hfirst, -, hresult⟩ := removeMultiple_single hremove
  have hmown : mown.ledger.resolvedPosition owner asset index = .ok (some position) := by
    rw [resolvedPosition_of_mow hmow]
    exact hp
  have hvalue : first.result = position.value := removePosition_resolved hne hmown hfirst
  dsimp only
  rw [hresult]
  exact ⟨rfl, hvalue⟩

namespace Vault

variable {vault : Vault}

/-! ### On a vault -/

/-- **What is replied to a claim** whose transfer is accepted, and what is paid out. -/
theorem claim_reply (hentered : vault.entered = false) (hs : vault.ledger.Solvent)
    {balance : Amount} (hbalance : vault.ledger.floodBalance id = .ok balance)
    (inner : List Call) :
    let reply := (serve (.claim id true inner) vault).1
    if balance = 0 then reply.result = .error (.nothingToClaim id) ∧ reply.payout = none
    else reply.result = .ok (.amount balance) ∧ ∃ report,
      reply.payout = some ⟨⟨vault.ledger.charter.floodAsset, id, balance⟩, true, report⟩ := by
  intro reply
  have hresult := claim_result hentered hs hbalance inner
  have hclaim := hs.claimFlood_spec hbalance
  have hpayout : reply.payout = (vault.claim id (carrying true inner)).1.2 := by
    show (serve (.claim id true inner) vault).1.payout = _
    rw [serve_claim, Reply.payout_ofPaying]
  split
  next hzero =>
    rw [if_pos hzero] at hresult hclaim
    refine ⟨hresult, hpayout.trans ?_⟩
    rw [Vault.claim, transactPaying_of_error hentered hclaim]
  next hne =>
    rw [if_neg hne] at hresult hclaim
    obtain ⟨out, hout, rfl⟩ := hclaim
    obtain ⟨report, hpaid⟩ := transactPaying_accepted
      (fun amount => ⟨vault.ledger.charter.floodAsset, id, amount⟩) inner hentered hout hne
    refine ⟨hresult, report, hpayout.trans ?_⟩
    rw [Vault.claim, hpaid]

/-- A call for mowing leaves the positions, whether or not it is answered. -/
theorem resolvedPosition_of_serve (hentered : vault.entered = false) :
    (serve (.mow id asset) vault).2.ledger.resolvedPosition = vault.ledger.resolvedPosition := by
  rw [serve]
  have hchanged : Changed (Action.mow id asset) vault _ _ := transact_changed hentered
  rcases hchanged with ⟨_, -, hledger, -⟩ | ⟨out, hmow, -, hledger, -⟩
  · exact congrArg _ hledger
  · exact (congrArg _ hledger).trans (resolvedPosition_of_mow hmow)

/-- Withdrawing all of a position at an index takes just that position. -/
def WithdrawsWhole (vault : Vault) (owner : AccountId) (asset : AssetId) (index : Index)
    (position : Position) : Prop :=
  ∀ accepts inner receipt, (serve (.withdraw owner asset [index] [position.quantity] accepts inner)
      vault).1.result = .ok (.withdrawn receipt) →
    receipt.quantity = position.quantity ∧ receipt.value = position.value

/-- That is so for what is found at the index. -/
theorem withdrawsWhole_of_resolved (hentered : vault.entered = false) {index : Index}
    {position : Position} (hne : position.quantity ≠ 0)
    (hp : vault.ledger.resolvedPosition owner asset index = .ok (some position)) :
    vault.WithdrawsWhole owner asset index position := by
  intro accepts inner receipt hanswer
  rw [serve_withdraw, Reply.result_ofPaying] at hanswer
  obtain ⟨out, hout, -, hreceipt⟩ := (withdraw_changed hentered).answered hanswer
  obtain rfl := Answer.withdrawn.inj hreceipt
  exact withdraw_resolved hne hp hout

/-- **Queries predict operations.**  After any requests to a new vault, take any account.  A mowing
that is answered returns the grown balance.  A claim whose transfer is accepted returns and pays out
the flood balance, or, if that is zero, replies that there is nothing to claim.  If the grown balance
in the base asset is zero, a planting that is answered plants the earned balance.  And if a position
is found at an index, a withdrawal of its quantity there, of the mown account, removes its value
if it is answered. -/
theorem queries_predict {charter : Charter} {start : Vault} (h : genesis charter = .ok start)
    (requests : List Request) (id : AccountId) :
    let vault := (run requests start).2
    (∀ asset answer, (serve (.mow id asset) vault).1.result = .ok answer →
      vault.ask (.grown id asset) = .ok answer) ∧
    (∃ balance, vault.ask (.floodPayout id) = .ok (.amount balance) ∧ ∀ inner,
      let reply := (serve (.claim id true inner) vault).1
      if balance = 0 then reply.result = .error (.nothingToClaim id) ∧ reply.payout = none
      else reply.result = .ok (.amount balance) ∧ ∃ report,
        reply.payout = some ⟨⟨vault.ledger.charter.floodAsset, id, balance⟩, true, report⟩) ∧
    (vault.ask (.grown id vault.ledger.charter.baseAsset) = .ok (.amount 0) → ∀ receipt,
      (serve (.plant id) vault).1.result = .ok (.planted receipt) →
        vault.ask (.earned id) = .ok (.amount receipt.quantity)) ∧
    ∀ asset index position,
      vault.ask (.position id asset index) = .ok (.position (some position)) →
        vault.WithdrawsWhole id asset index position ∧
          (serve (.mow id asset) vault).2.WithdrawsWhole id asset index position := by
  intro vault
  obtain ⟨ho, hentered⟩ := orderly h requests
  have hsolvent : vault.ledger.Solvent := ho.solvent
  refine ⟨fun asset answer hanswer => ?_, ?_, fun hnothing receipt hanswer => ?_,
    fun asset index position hfound => ?_⟩
  · obtain ⟨mown, hmow, hserved⟩ := mow_committed hentered hanswer
    rw [hserved] at hanswer
    rw [← hanswer, ask, grownBalance_of_mow hmow]
    rfl
  · obtain ⟨balance, hbalance⟩ : ∃ balance, vault.ledger.floodBalance id = .ok balance := by
      obtain ⟨updated, hupdate⟩ := hsolvent.updateAccount_succeeds id
      exact ⟨_, hsolvent.claimable_of_update hupdate⟩
    refine ⟨balance, ?_, claim_reply hentered hsolvent hbalance⟩
    rw [ask, hbalance]
    rfl
  · obtain ⟨out, hplant, -, hreceipt⟩ := plant_of_answer hentered hanswer
    obtain rfl := Answer.planted.inj hreceipt
    obtain ⟨mown, entry, hmow, -, hearned, -⟩ := plant_plants hplant
    have hgrown : mown.result = 0 := by
      rw [ask, grownBalance_of_mow hmow] at hnothing
      exact Answer.amount.inj (Except.ok.inj hnothing)
    rw [ask, ← earnedBalance_of_mow hmow hgrown, hearned]
    rfl
  · have hresolved : vault.ledger.resolvedPosition id asset index = .ok (some position) := by
      rw [ask] at hfound
      cases hp : vault.ledger.resolvedPosition id asset index with
      | error => rw [hp] at hfound; cases hfound
      | ok found => rw [hp] at hfound; exact congrArg _ (Answer.position.inj (Except.ok.inj hfound))
    have hne := ho.consistent.housed.resolved_ne_zero hresolved
    have hentered' : (serve (.mow id asset) vault).2.entered = false :=
      (handle_transition hentered (.call (.mow id asset))).2
    refine ⟨withdrawsWhole_of_resolved hentered hne hresolved,
      withdrawsWhole_of_resolved hentered' hne ?_⟩
    rw [resolvedPosition_of_serve hentered]
    exact hresolved

/-- Two epochs go by while account 7 grows, and account 8 has earned reward to plant. -/
def grownRequests : List Request := poolRequests ++ [.call (.advanceEpoch ⟨15, false, 0, 0⟩)]

/-- Account 7 is told 306 before it mows and 444 before it claims, account 8 is told 35 before it
plants, and the 20 of account 7 at index -8 are known to be worth 27. -/
theorem queries_predict_grown : genesis ⟨10, 10, 0, 9⟩ = .ok sample ∧
    let vault := (run grownRequests sample).2
    (serve (.mow 7 1) vault).1.result = .ok (.amount 306) ∧
      vault.ask (.grown 7 1) = .ok (.amount 306) ∧
    (∃ balance, vault.ask (.floodPayout 7) = .ok (.amount balance) ∧ balance = 444 ∧ ∀ inner,
      let reply := (serve (.claim 7 true inner) vault).1
      if balance = 0 then reply.result = .error (.nothingToClaim 7) ∧ reply.payout = none
      else reply.result = .ok (.amount balance) ∧ ∃ report,
        reply.payout = some ⟨⟨vault.ledger.charter.floodAsset, 7, balance⟩, true, report⟩) ∧
    vault.ask (.grown 8 vault.ledger.charter.baseAsset) = .ok (.amount 0) ∧
      (serve (.plant 8) vault).1.result = .ok (.planted ⟨35, 4, 350000⟩) ∧
      vault.ask (.earned 8) = .ok (.amount 35) ∧
    vault.ask (.position 7 1 (.ofInt (-8))) = .ok (.position (some ⟨20, 27⟩)) ∧
      vault.WithdrawsWhole 7 1 (.ofInt (-8)) ⟨20, 27⟩ ∧
      (serve (.mow 7 1) vault).2.WithdrawsWhole 7 1 (.ofInt (-8)) ⟨20, 27⟩ ∧
      ((serve (.withdraw 7 1 [.ofInt (-8)] [20] true [])
        (serve (.mow 7 1) vault).2).1.result.toOption.isSome = true) := by
  obtain ⟨hmows, hclaims, -, hwithdraws⟩ := queries_predict genesis_sample grownRequests 7
  obtain ⟨-, -, hplants, -⟩ := queries_predict genesis_sample grownRequests 8
  have hmow : (serve (.mow 7 1) (run grownRequests sample).2).1.result = .ok (.amount 306) := by
    decide +kernel
  have hbalance : (run grownRequests sample).2.ask (.floodPayout 7) = .ok (.amount 444) := by
    decide +kernel
  have hnothing : (run grownRequests sample).2.ask
      (.grown 8 (run grownRequests sample).2.ledger.charter.baseAsset) = .ok (.amount 0) := by
    decide +kernel
  have hplant : (serve (.plant 8) (run grownRequests sample).2).1.result =
      .ok (.planted ⟨35, 4, 350000⟩) := by decide +kernel
  have hfound : (run grownRequests sample).2.ask (.position 7 1 (.ofInt (-8))) =
      .ok (.position (some ⟨20, 27⟩)) := by decide +kernel
  obtain ⟨balance, htold, hclaim⟩ := hclaims
  have hamount : balance = 444 := Answer.amount.inj (Except.ok.inj (htold.symm.trans hbalance))
  exact ⟨genesis_sample, hmow, hmows 1 _ hmow, ⟨balance, htold, hamount, hclaim⟩, hnothing, hplant,
    hplants hnothing _ hplant, hfound, (hwithdraws 1 _ _ hfound).1, (hwithdraws 1 _ _ hfound).2,
    by decide +kernel⟩

end Vault

end StalkLedger
