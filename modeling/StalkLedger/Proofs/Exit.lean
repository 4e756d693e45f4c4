import StalkLedger.Proofs.Cover

/-!
# No deposit is locked in

A withdrawal goes through a dozen checked steps.  After mowing, an orderly ledger lets it through all
of them, as long as the balances of the account have a sign to spare for the record of the change:

* what is held at the index is given (`Ledger.Tallied.takeAt_succeeds`);
* what it has grown is part of the stalk that the account has, so every sum on the way is in range
  (`stalkOf_succeeds`);
* the stalk can be burned, with its roots (`Ledger.Covers.burnStalk_succeeds`).

So whoever can mow can withdraw what is there (`Vault.withdrawal_succeeds`).
-/

namespace StalkLedger

open StalkLedger.Action

/-! ### What can be removed -/

namespace Ledger

variable {ledger : Ledger} {owner : AccountId} {asset : AssetId} {index : Index}

/-- How much of an asset an account can remove at an index. -/
inductive Removable (ledger : Ledger) (owner : AccountId) (asset : AssetId) (index : Index) :
    ℕ → Prop
  /-- The quantity of the position that is found there. -/
  | resolved {position : Position}
      (h : ledger.resolvedPosition owner asset index = .ok (some position)) :
      Removable ledger owner asset index position.quantity.toNat
  /-- What both stores hold together, where the asset has a grandfathered excess, the index stands
  for a legacy epoch, and the current store holds something under it. -/
  | both {entry : Asset} {legacyIndex : Index} {epoch : Epoch} (he : ledger.asset asset = .ok entry)
      (hg : entry.grandfathered = true)
      (hl : entry.locate ledger.charter index = .legacy legacyIndex epoch)
      (hheld : ledger.quantityAt owner asset index ≠ 0) :
      Removable ledger owner asset index
        ((ledger.quantityAt owner asset index).toNat +
          (ledger.legacyQuantity owner asset epoch).toNat)

/-- What can be removed is what the stores give. -/
theorem Removable.le_available {quantity : ℕ} {entry : Asset}
    (h : ledger.Removable owner asset index quantity) (he : ledger.asset asset = .ok entry) :
    quantity ≤ ledger.available entry ⟨owner, asset, index⟩ := by
  cases h with
  | @resolved position h =>
    unfold resolvedPosition at h
    split at h
    next position' hget =>
      cases h
      have hquantity : ledger.quantityAt owner asset index = position.quantity := by
        rw [quantityAt, hget, Option.map_some, Option.getD_some]
      rw [← hquantity]
      exact ledger.quantityAt_le_available entry ⟨owner, asset, index⟩
    next hget =>
      simp only [bind_eq_ok, StalkLedger.pure_eq_ok] at h
      obtain ⟨entry', he', hlocated⟩ := h
      obtain rfl := Except.ok.inj (he.symm.trans he')
      have hnone : ledger.quantityAt owner asset index = 0 := by
        rw [quantityAt, hget, Option.map_none, Option.getD_none]
      unfold available
      cases hl : entry.locate ledger.charter index with
      | current =>
        rw [hl] at hlocated
        cases hlocated
      | legacy legacyIndex epoch =>
        rw [hl] at hlocated
        have hlegacy : ledger.legacyQuantity owner asset epoch = position.quantity := by
          have hposition : ledger.legacyPosition owner asset epoch = some position := hlocated
          rw [legacyQuantity, hposition, Option.map_some, Option.getD_some]
        simp only [if_pos hnone, hlegacy, le_refl]
  | both he' hg hl hheld =>
    obtain rfl := Except.ok.inj (he.symm.trans he')
    unfold available
    simp only [hl, if_neg hheld, if_pos hg, le_refl]

end Ledger

/-! ### Balances with a sign to spare -/

/-- An amount below half its range can be lost. -/
theorem Unsigned.loss_succeeds {a : Amount} (h : a.toNat < 2 ^ 127) : ∃ i, a.loss = .ok i := by
  have hlt : (a.toNat : ℤ) < 2 ^ 127 := by exact_mod_cast h
  refine ⟨⟨-(a.toNat : ℤ), ?_, ?_⟩, bind_eq_ok.mpr
    ⟨⟨a.toNat, ?_, hlt⟩, Signed.checked_eq_ok.mpr rfl, Signed.checked_eq_ok.mpr rfl⟩⟩
  · exact neg_le_neg hlt.le
  · have : (0 : ℤ) < 2 ^ 127 := by decide
    show -(a.toNat : ℤ) < 2 ^ 127
    omega
  · have : (0 : ℤ) < 2 ^ 127 := by decide
    show -2 ^ 127 ≤ (a.toNat : ℤ)
    omega

variable {ledger : Ledger} {owner : AccountId} {asset : AssetId}

/-- **Stalk that is covered can be burned**, if the balances of the account have a sign to spare. -/
theorem Ledger.Covers.burnStalk_succeeds {id : AccountId} {stalk : Amount}
    (h : ledger.Covers id stalk) (hstalk : (ledger.account id).stalk.toNat < 2 ^ 127)
    (hroots : (ledger.account id).roots.toNat < 2 ^ 127) :
    ∃ out, burnStalk id stalk ledger = .ok out := by
  by_cases hzero : stalk = 0
  · rw [hzero]
    exact ⟨_, rfl⟩
  obtain ⟨roots, hburn, hle⟩ := h.rootsForBurn_succeeds
  obtain ⟨⟨totals, htotals⟩, account, haccount⟩ := h.debit_succeeds hle
  obtain ⟨stalkLoss, hstalkLoss⟩ := Unsigned.loss_succeeds (Nat.lt_of_le_of_lt h.stalk hstalk)
  obtain ⟨rootsLoss, hrootsLoss⟩ := Unsigned.loss_succeeds (Nat.lt_of_le_of_lt hle hroots)
  exact ⟨_, (burnStalk_eq_ok hzero).mpr ⟨roots, totals, _, hburn, htotals,
    debitStalk_eq_ok.mpr ⟨account, stalkLoss, rootsLoss, haccount, hstalkLoss, hrootsLoss, rfl⟩,
    rfl⟩⟩

/-! ### What removed positions carry -/

/-- Values from no further than the tip have grown no less than nothing. -/
theorem grown_nonneg {tip : ℤ} {entries : List (Index × Amount)}
    (hbelow : ∀ e ∈ entries, e.2 ≠ 0 → e.1.toInt ≤ tip) :
    0 ≤ tip * valued entries - indexed entries := by
  induction entries with
  | nil => simp
  | cons entry entries ih =>
    obtain ⟨hindex, hbelow'⟩ := List.forall_mem_cons.mp hbelow
    have hfirst : 0 ≤ (tip - entry.1.toInt) * entry.2.toNat := by
      by_cases hzero : entry.2 = 0
      · rw [hzero, Unsigned.toNat_zero, Nat.cast_zero, mul_zero]
      · exact mul_nonneg (sub_nonneg.mpr (hindex hzero)) (Int.natCast_nonneg _)
    have hrest := ih hbelow'
    rw [indexed_cons, valued_cons]
    linarith

/-- **What values have grown can be told**, if all of it is in range: none has grown less than
nothing, and what is worth something has grown no more steps than that. -/
theorem grownOf_succeeds {tip : Index} {entries : List (Index × Amount)} (grown : Amount)
    (hbelow : ∀ e ∈ entries, e.2 ≠ 0 → e.1.toInt ≤ tip.toInt)
    (hfits : grown.toNat + (tip.toInt * valued entries - indexed entries) < 2 ^ 127) :
    ∃ total, grownOf tip entries grown = .ok total := by
  induction entries generalizing grown with
  | nil => exact ⟨grown, rfl⟩
  | cons entry entries ih =>
    obtain ⟨index, value⟩ := entry
    obtain ⟨hindex, hbelow'⟩ := List.forall_mem_cons.mp hbelow
    rw [indexed_cons, valued_cons] at hfits
    unfold grownOf
    split
    next hzero =>
      subst hzero
      refine ih grown hbelow' (lt_of_eq_of_lt ?_ hfits)
      rw [Unsigned.toNat_zero]
      push_cast
      ring
    next hne =>
      have hrest := grown_nonneg hbelow'
      have hsteps : 0 ≤ tip.toInt - index.toInt := sub_nonneg.mpr (hindex hne)
      have hworth : (1 : ℤ) ≤ value.toNat := by
        exact_mod_cast Nat.pos_of_ne_zero fun h₀ => hne (Unsigned.ext h₀)
      have hle := le_mul_of_one_le_right hsteps hworth
      obtain ⟨more, hmore⟩ := Int.eq_ofNat_of_zero_le (hsteps.trans hle)
      have hmore' : more < 2 ^ 128 := by
        zify
        linarith
      have hsum : grown.toNat + more < 2 ^ 128 := by
        zify
        linarith
      obtain ⟨total, htotal⟩ := ih ⟨grown.toNat + more, hsum⟩ hbelow' (by
        push_cast
        rw [← hmore]
        linarith)
      refine ⟨total, bind_eq_ok.mpr ⟨⟨more, hmore'⟩, ?_, bind_eq_ok.mpr
        ⟨_, Unsigned.add_eq_ok.mpr rfl, htotal⟩⟩⟩
      exact grownReward_eq_ok.mpr ⟨hindex hne, by linarith, hmore.symm⟩

/-- **The stalk of removed positions can be told**, if it is in range. -/
theorem stalkOf_succeeds {entry : Asset} {indices : List Index} {removal : Removal}
    (hvalue : (removal.totalValue.toNat : ℤ) = valued (indices.zip removal.values))
    (hbelow : ∀ e ∈ indices.zip removal.values, e.2 ≠ 0 → e.1.toInt ≤ entry.accrualIndex.toInt)
    (hfits : (entry.stalkPerValue.toNat + entry.accrualIndex.toInt) *
      valued (indices.zip removal.values) - indexed (indices.zip removal.values) < 2 ^ 127) :
    ∃ carried, entry.stalkOf indices removal = .ok carried := by
  have hgrown := grown_nonneg hbelow
  have hbase : 0 ≤ (entry.stalkPerValue.toNat : ℤ) * removal.totalValue.toNat :=
    mul_nonneg (Int.natCast_nonneg _) (Int.natCast_nonneg _)
  rw [← hvalue] at hgrown hfits
  obtain ⟨grown, hg⟩ := grownOf_succeeds 0 hbelow (by
    rw [← hvalue, Unsigned.toNat_zero]
    push_cast
    linarith)
  obtain ⟨htotal, -⟩ := grownOf_spec hg
  rw [← hvalue, Unsigned.toNat_zero, Nat.cast_zero, zero_add] at htotal
  have hfits' : removal.totalValue.toNat * entry.stalkPerValue.toNat + grown.toNat < 2 ^ 128 := by
    zify
    linarith
  have hbase' : removal.totalValue.toNat * entry.stalkPerValue.toNat < 2 ^ 128 :=
    lt_of_le_of_lt (Nat.le_add_right _ _) hfits'
  exact ⟨⟨⟨_, hfits'⟩, grown⟩, bind_eq_ok.mpr ⟨grown, hg, bind_eq_ok.mpr
    ⟨⟨_, hbase'⟩, Unsigned.mul_eq_ok.mpr rfl, bind_eq_ok.mpr
      ⟨_, Unsigned.add_eq_ok.mpr rfl, rfl⟩⟩⟩⟩

/-! ### Withdrawals -/

/-- **A withdrawal that finds what it asks for succeeds**, if the balances of the account have a sign
to spare. -/
theorem withdraw_succeeds {indices : List Index} {amounts : List Amount} {mown : Outcome Amount}
    {removed : Outcome Removal} (hmow : mow owner asset ledger = .ok mown)
    (ho : mown.ledger.Orderly)
    (hr : removeMultiple owner asset indices amounts mown.ledger = .ok removed)
    (hstalk : (mown.ledger.account owner).stalk.toNat < 2 ^ 127)
    (hroots : (mown.ledger.account owner).roots.toNat < 2 ^ 127) :
    ∃ out, withdraw owner asset indices amounts ledger = .ok out ∧
      out.result.quantity = removed.result.totalQuantity := by
  have hcurrent := (mow_moves hmow).2
  obtain ⟨-, taking⟩ := removeMultiple_taking hr
  have hremove := (removeMultiple_stages hr).2
  obtain ⟨haccounts, htotals⟩ := removeEach_frame hremove
  have hkeeps := taking.moves.keeps
  obtain ⟨_, _, entry, -, -, -, he, -⟩ := hkeeps.current hcurrent
  have he := Ledger.asset_eq_ok.mpr he
  have hprice : (entry.stalkPerValue.toNat : ℤ) = mown.ledger.stalkPerValue asset := by
    rw [← hkeeps.stalkPerValue, Ledger.stalkPerValue_eq he]
  have htip : entry.accrualIndex.toInt = mown.ledger.tip asset := by
    rw [← hkeeps.tip, Ledger.tip_eq he]
  have hbelow := taking.below ho.consistent.housed hremove
  obtain ⟨-, hcarries⟩ := taking.covered ho hcurrent haccounts
  obtain ⟨carried, hcarried⟩ := stalkOf_succeeds (taking.total.trans (zero_add _))
    (by rwa [htip]) (by rw [hprice, htip]; exact hcarries.trans_lt (by exact_mod_cast hstalk))
  obtain ⟨debited, hdebit, hsame, hcovered⟩ :=
    removeMultiple_covers ho hcurrent hr haccounts htotals hprice htip hcarried
  have hbalances := (Ledger.SameBalances.of_accounts haccounts htotals).trans hsame
  obtain ⟨burned, hburn⟩ := hcovered.burnStalk_succeeds (by rwa [hbalances.stalk])
    (by rwa [hbalances.roots])
  exact ⟨_, withdraw_of_stages hmow hr he hcarried hdebit hburn, rfl⟩

/-- What the stores can give is removed. -/
theorem removePosition_succeeds (slot : Slot Index) {amount : Amount} {entry : Asset}
    (ht : ledger.Tallied) (hc : ledger.Current slot.owner slot.asset)
    (he : ledger.asset slot.asset = .ok entry) (hne : amount ≠ 0)
    (hle : amount.toNat ≤ ledger.available entry slot) :
    ∃ out, removePosition slot amount ledger = .ok out := by
  obtain ⟨value, taken, htake⟩ := ht.takeAt_succeeds he hne hle
  obtain ⟨entry', hrelease⟩ := ht.release_succeeds he htake
  exact ⟨_, (removePosition_eq_ok hne).mpr
    ⟨value, taken, entry, entry', Ledger.requireCurrent_eq_ok.mpr hc, he, htake, hrelease, rfl⟩⟩

theorem removeMultiple_succeeds {index : Index} {amount : Amount} {entry : Asset}
    (ht : ledger.Tallied) (hc : ledger.Current owner asset) (he : ledger.asset asset = .ok entry)
    (hne : amount ≠ 0) (hle : amount.toNat ≤ ledger.available entry ⟨owner, asset, index⟩) :
    ∃ removed, removeMultiple owner asset [index] [amount] ledger = .ok removed ∧
      removed.result.totalQuantity = amount := by
  obtain ⟨first, hfirst⟩ := removePosition_succeeds ⟨owner, asset, index⟩ ht hc he hne hle
  have hextend : Removal.none.extend amount first.result =
      .ok ⟨first.result, amount, [first.result]⟩ :=
    bind_eq_ok.mpr ⟨first.result, Unsigned.add_eq_ok.mpr (Nat.zero_add _).symm,
      bind_eq_ok.mpr ⟨amount, Unsigned.add_eq_ok.mpr (Nat.zero_add _).symm, rfl⟩⟩
  have hremove : removeEach owner asset [(index, amount)] .none ledger =
      .ok ⟨⟨first.result, amount, [first.result]⟩, first.ledger, first.events ++ ∅⟩ :=
    bind_apply_ok.mpr ⟨first, _, hfirst, lift_bind.mpr ⟨_, hextend, pure_eq_ok.mpr rfl⟩, rfl⟩
  exact ⟨_, lift_bind.mpr ⟨(), rfl, hremove⟩, rfl⟩

/-- Minting changes the accounts and the totals, and nothing else. -/
theorem mintStalk_frame {id : AccountId} {stalk : Amount} {out : Outcome Amount}
    (h : mintStalk id stalk ledger = .ok out) :
    ∃ accounts totals, out.ledger = { ledger with accounts, totals } := by
  by_cases hzero : stalk = 0
  · subst hzero
    cases h
    exact ⟨ledger.accounts, ledger.totals, rfl⟩
  · obtain ⟨_, totals, credited, -, -, hc, rfl⟩ := (mintStalk_eq_ok hzero).mp h
    obtain ⟨_, _, _, -, -, rfl⟩ := creditStalk_spec hc
    exact ⟨_, totals, rfl⟩

/-- So does mowing. -/
theorem mow_frame {out : Outcome Amount} (h : mow owner asset ledger = .ok out) :
    ∃ accounts totals, out.ledger = { ledger with accounts, totals } := by
  obtain ⟨updated, hup, hgrowth⟩ := mow_stages h
  obtain ⟨_, _, minted, -, -, hmint, rfl⟩ := creditGrowth_spec hgrowth
  obtain ⟨accounts, totals, hminted⟩ := mintStalk_frame hmint
  dsimp only
  rw [hminted]
  rcases updateAccount_eq_ok.mp hup with ⟨-, rfl⟩ | ⟨-, flood, -, rfl⟩
  · exact ⟨accounts, totals, rfl⟩
  · exact ⟨accounts, totals, rfl⟩

namespace Vault

variable {vault : Vault}

/-- A change that is answered has taken place, and the answer is its result. -/
theorem Changed.answered {α : Type} {action : Action α} {completion : Completion α} {after : Vault}
    {answer : α → Answer} {x : Answer} (h : Changed action vault completion after)
    (hx : completion.result.map answer = .ok x) :
    ∃ out, action vault.ledger = .ok out ∧ after.ledger = out.ledger ∧ answer out.result = x := by
  cases h with
  | refused fault hc =>
    rw [hc] at hx
    cases hx
  | made out hrun hc hl =>
    rw [hc] at hx
    exact ⟨out, hrun, hl, Except.ok.inj hx⟩

/-- A mowing that is answered has taken place. -/
theorem mow_of_answer {id : AccountId} {asset : AssetId} {answer : Answer}
    (hentered : vault.entered = false)
    (h : (serve (.mow id asset) vault).1.result = .ok answer) :
    ∃ mown, mow id asset vault.ledger = .ok mown ∧
      (serve (.mow id asset) vault).2.ledger = mown.ledger := by
  rw [serve] at h ⊢
  obtain ⟨mown, hmow, hledger, -⟩ := (transact_changed hentered).answered h
  exact ⟨mown, hmow, hledger⟩

/-- **No deposit is locked in.**  After any requests to a new vault, take any quantity that an account
can remove at an index.  If mowing is answered, and leaves the account with balances that have a sign
to spare, then a withdrawal whose transfer is accepted succeeds and pays out that quantity, whatever
calls the transfer makes. -/
theorem withdrawal_succeeds {charter : Charter} {start : Vault} (h : genesis charter = .ok start)
    (requests : List Request) {owner : AccountId} {asset : AssetId} {index : Index}
    {amount : Amount} {quantity : ℕ} {answer : Answer}
    (hremovable : (run requests start).2.ledger.Removable owner asset index quantity)
    (hne : amount ≠ 0) (hle : amount.toNat ≤ quantity)
    (hmow : (serve (.mow owner asset) (run requests start).2).1.result = .ok answer)
    (hstalk : ((serve (.mow owner asset) (run requests start).2).2.ledger.account
      owner).stalk.toNat < 2 ^ 127)
    (hroots : ((serve (.mow owner asset) (run requests start).2).2.ledger.account
      owner).roots.toNat < 2 ^ 127) (inner : List Call) :
    ∃ receipt report,
      (serve (.withdraw owner asset [index] [amount] true inner) (run requests start).2).1.result =
          .ok (.withdrawn receipt) ∧
        receipt.quantity = amount ∧
          (serve (.withdraw owner asset [index] [amount] true inner)
            (run requests start).2).1.payout = some ⟨⟨asset, owner, amount⟩, true, report⟩ := by
  obtain ⟨horderly, hentered⟩ := orderly h requests
  obtain ⟨mown, hmown, hledger⟩ := mow_of_answer hentered hmow
  rw [hledger] at hstalk hroots
  have hcurrent := (mow_moves hmown).2
  have hmown_orderly := horderly.of_mow hmown
  obtain ⟨accounts, totals, hframe⟩ := mow_frame hmown
  obtain ⟨_, _, entry, -, -, -, hlisted, -⟩ := id hcurrent
  have hentry := Ledger.asset_eq_ok.mpr hlisted
  have havailable : amount.toNat ≤ mown.ledger.available entry ⟨owner, asset, index⟩ := by
    rw [hframe] at hentry ⊢
    exact hle.trans (hremovable.le_available hentry)
  obtain ⟨removed, hremoved, hquantity⟩ := removeMultiple_succeeds hmown_orderly.consistent.tallied
    hcurrent hentry hne havailable
  obtain ⟨out, hout, hpaid⟩ :=
    withdraw_succeeds hmown hmown_orderly hremoved hstalk hroots
  rw [hquantity] at hpaid
  obtain ⟨report, hreply⟩ := transactPaying_accepted
    (fun receipt => ⟨asset, owner, receipt.quantity⟩) inner hentered hout (hpaid ▸ hne)
  rw [serve_withdraw, Vault.withdraw, Reply.result_ofPaying, Reply.payout_ofPaying, hreply]
  exact ⟨out.result, report, rfl, hpaid, by rw [hpaid]⟩

/-- Account 7 hands part of what it has at index -8 to itself, so that both stores hold something. -/
def splitRequests : List Request :=
  sampleRequests ++ [.call (.transfer 7 7 1 [.ofInt (-8)] [5])]

theorem removable_split :
    (run splitRequests sample).2.ledger.Removable 7 1 (.ofInt (-8)) 20 := by
  have hentry : (run splitRequests sample).2.ledger.asset 1 =
      .ok ⟨10000, 3, 9, some ⟨2, true⟩, 75, 82, true, 10⟩ := by decide +kernel
  have hlocated : Asset.locate ⟨10000, 3, 9, some ⟨2, true⟩, 75, 82, true, 10⟩
      (run splitRequests sample).2.ledger.charter (.ofInt (-8)) = .legacy (.ofInt (-8)) 6 := by
    decide +kernel
  have hheld : (run splitRequests sample).2.ledger.quantityAt 7 1 (.ofInt (-8)) = 5 := by
    decide +kernel
  have hlegacy : (run splitRequests sample).2.ledger.legacyQuantity 7 1 6 = 15 := by
    decide +kernel
  have hboth := Ledger.Removable.both hentry rfl hlocated (by rw [hheld]; decide)
  rwa [hheld, hlegacy] at hboth

theorem withdrawal_succeeds_sample : genesis ⟨10, 10, 0, 9⟩ = .ok sample ∧
    (run splitRequests sample).2.ledger.Removable 7 1 (.ofInt (-8)) 20 ∧ ∃ receipt report,
      (serve (.withdraw 7 1 [.ofInt (-8)] [18] true []) (run splitRequests sample).2).1.result =
          .ok (.withdrawn receipt) ∧
        receipt.quantity = 18 ∧
          (serve (.withdraw 7 1 [.ofInt (-8)] [18] true [])
            (run splitRequests sample).2).1.payout = some ⟨⟨1, 7, 18⟩, true, report⟩ := by
  have hmow : (serve (.mow 7 1) (run splitRequests sample).2).1.result = .ok (.amount 0) := by
    decide +kernel
  exact ⟨genesis_sample, removable_split, withdrawal_succeeds genesis_sample splitRequests
    removable_split (by decide) (by decide) hmow (by decide +kernel) (by decide +kernel) []⟩

end Vault

end StalkLedger
