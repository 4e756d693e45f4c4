import StalkLedger.Proofs.Exit

/-!
# What a conversion keeps

A conversion realizes both of its assets, retires positions of the one with the stalk that they carry,
and enters a position of the other with the stalk that this one carries.  What the retired positions
had grown is turned into an index of the other asset, as far as whole steps go.

* **Mowing twice is mowing once** (`mow_of_current`), so a conversion of an asset into itself, which
  mows once, is as good as one that mows both sides.
* **Retiring** takes the stalk of the values and of their growth off the account
  (`retire_carries`), and **entering** puts the stalk of the new value and of what it carries back
  (`enter_carries`).
* **Conversions keep value and growth** (`convert_conserves`).  The new position is worth no less than
  what was retired; what it carries and what is forfeited is what was grown; and less is forfeited than
  one step of the index would carry.
-/

namespace StalkLedger

open StalkLedger.Action

variable {ledger : Ledger} {id : AccountId} {asset : AssetId}

/-! ### Mowing an account that is current -/

/-- To put in what is there changes nothing. -/
theorem SortedMap.insert_of_get? {κ α : Type} [Key κ] {m : SortedMap κ α} {k : κ} {a : α}
    (h : m.get? k = some a) : m.insert k a = m := by
  refine ext_get? fun k' => ?_
  by_cases hk : k' = k
  · rw [hk, get?_insert_self, h]
  · exact get?_insert_of_ne m hk a

theorem Ledger.withAccount_of_get? {account : Account}
    (h : ledger.accounts.get? id = some account) : ledger.withAccount id account = ledger := by
  rw [withAccount, SortedMap.insert_of_get? h]

theorem Account.withCheckpoint_of_get? {account : Account} {checkpoint : Checkpoint}
    (h : account.checkpoints.get? asset = some checkpoint) :
    account.withCheckpoint asset checkpoint = account := by
  rw [withCheckpoint, SortedMap.insert_of_get? h]

/-- **Mowing twice is mowing once**: where an account is current, mowing it does nothing. -/
theorem mow_of_current (h : ledger.Current id asset) : mow id asset ledger = .ok ⟨0, ledger, ∅⟩ := by
  obtain ⟨account, checkpoint, entry, haccount, hle, hcheckpoint, hentry, hindex⟩ := h
  have hself : ledger.account id = account := Ledger.account_of_get? haccount
  have hchecked : account.checkpoint asset = checkpoint := by
    rw [Account.checkpoint, hcheckpoint, Option.getD_some]
  have hupdate : updateAccount id ledger = .ok ⟨(), ledger, ∅⟩ := by
    refine updateAccount_eq_ok.mpr (.inl ⟨by rwa [hself], ?_⟩)
    rw [hself, Ledger.withAccount_of_get? haccount]
  have htip : ledger.accrualIndex asset = .ok entry.accrualIndex :=
    bind_eq_ok.mpr ⟨entry, Ledger.asset_eq_ok.mpr hentry, rfl⟩
  refine (bind_of_silent hupdate).mpr (ledger_bind.mpr (lift_bind.mpr ⟨_, htip, ?_⟩))
  rw [hself, hchecked, if_pos hindex, setAccount_bind, Account.withCheckpoint_of_get? hcheckpoint,
    Ledger.withAccount_of_get? haccount]
  rfl

/-! ### The stalk of an account -/

/-- What is burned is taken off the stalk of the account. -/
theorem stalk_of_burn {stalk : Amount} {out : Outcome Amount}
    (h : burnStalk id stalk ledger = .ok out) :
    (out.ledger.account id).stalk.toNat + stalk.toNat = (ledger.account id).stalk.toNat := by
  by_cases hzero : stalk = 0
  · subst hzero
    cases h
    rfl
  · obtain ⟨_, _, debited, -, -, hdebit, rfl⟩ := (burnStalk_eq_ok hzero).mp h
    obtain ⟨stalk', _, _, hstalk, -, rfl⟩ := debitStalk_spec hdebit
    rw [Ledger.account_withAccount, if_pos rfl]
    exact hstalk

/-- Minting changes the stalk of the account, by what is minted, and its roots. -/
theorem account_of_mint {stalk : Amount} {out : Outcome Amount}
    (h : mintStalk id stalk ledger = .ok out) :
    ∃ stalk' roots' : Amount, stalk'.toNat = (ledger.account id).stalk.toNat + stalk.toNat ∧
      out.ledger.account id = { ledger.account id with stalk := stalk', roots := roots' } := by
  by_cases hzero : stalk = 0
  · subst hzero
    cases h
    exact ⟨_, _, rfl, rfl⟩
  · obtain ⟨_, _, credited, -, -, hcredit, rfl⟩ := (mintStalk_eq_ok hzero).mp h
    obtain ⟨stalk', roots', _, hstalk, -, rfl⟩ := creditStalk_spec hcredit
    exact ⟨stalk', roots', hstalk, (Ledger.account_withAccount ..).trans (if_pos rfl)⟩

/-- What is minted is put on it. -/
theorem stalk_of_mint {stalk : Amount} {out : Outcome Amount}
    (h : mintStalk id stalk ledger = .ok out) :
    (out.ledger.account id).stalk.toNat = (ledger.account id).stalk.toNat + stalk.toNat := by
  obtain ⟨stalk', _, hstalk, haccount⟩ := account_of_mint h
  rw [haccount]
  exact hstalk

/-! ### What was grown -/

/-- What some values have grown from their indices up to a tip. -/
def grownSince (tip : ℤ) (entries : List (Index × Amount)) : ℤ :=
  (entries.map fun e => (tip - e.1.toInt) * (e.2.toNat : ℤ)).sum

/-- Growth is counted from the tip: what the values would count there, less what they count at
their indices. -/
theorem grownSince_eq (tip : ℤ) (entries : List (Index × Amount)) :
    grownSince tip entries = tip * valued entries - indexed entries := by
  induction entries with
  | nil => simp [grownSince]
  | cons entry entries ih =>
    rw [grownSince, List.map_cons, List.sum_cons, ← grownSince, ih, valued_cons, indexed_cons]
    ring

/-- **Retiring** takes the values out, and what they carry off the stalk of the account: that of the
values and what these have grown since their indices. -/
structure Retires (order : ConversionOrder) (ledger : Ledger) (out : Outcome Retired) : Prop where
  /-- The removal is the one that was asked for. -/
  removed : ∃ removed, removeMultiple order.owner order.fromAsset order.indices order.amounts ledger =
    .ok removed ∧ removed.result = out.result.removal
  total : (out.result.removal.totalValue.toNat : ℤ) =
    valued (order.indices.zip out.result.removal.values)
  grown : (out.result.carried.grown.toNat : ℤ) =
    grownSince (ledger.tip order.fromAsset) (order.indices.zip out.result.removal.values)
  stalk : (out.result.carried.stalk.toNat : ℤ) =
    out.result.removal.totalValue.toNat * ledger.stalkPerValue order.fromAsset +
      out.result.carried.grown.toNat
  balance : (out.ledger.account order.owner).stalk.toNat + out.result.carried.stalk.toNat =
    (ledger.account order.owner).stalk.toNat

/-- The first half of a conversion takes out what it says, and burns its stalk. -/
theorem retire_carries {order : ConversionOrder} {out : Outcome Retired}
    (h : retire order ledger = .ok out) : Retires order ledger out := by
  obtain ⟨removed, entry, carried, debited, burned, hremove, hentry, hcarried, hdebit, hburn, rfl⟩ :=
    retire_stages h
  obtain ⟨-, taking⟩ := removeMultiple_taking hremove
  obtain ⟨haccounts, -⟩ := removeEach_frame (removeMultiple_stages hremove).2
  obtain ⟨hgrown, hstalk, -⟩ := stalkOf_spec hcarried
  have hkeeps := taking.moves.keeps
  refine ⟨⟨removed, hremove, rfl⟩, taking.total.trans (zero_add _), ?_, ?_, ?_⟩
  · rw [grownSince_eq, ← hkeeps.tip, Ledger.tip_eq hentry]
    exact hgrown
  · rw [← hkeeps.stalkPerValue, Ledger.stalkPerValue_eq hentry]
    exact_mod_cast hstalk
  · rw [← Ledger.account_congr haccounts, ← (Ledger.SameBalances.debitValue hdebit).stalk]
    exact stalk_of_burn hburn

/-- **Entering** turns what was grown into an index, and puts the stalk of the new value and of what it
carries on the account. -/
structure Enters (order : ConversionOrder) (retired : Retired) (worth : Amount) (ledger : Ledger)
    (out : Outcome ConversionReceipt) : Prop where
  quantity : out.result.quantity = order.toQuantity
  value : out.result.value = worth
  removedQuantity : out.result.removedQuantity = retired.removal.totalQuantity
  removedValue : out.result.removedValue = retired.removal.totalValue
  stalkRemoved : out.result.stalkRemoved = retired.carried.stalk
  grown : out.result.carriedReward.toNat + out.result.forfeitedReward.toNat =
    retired.carried.grown.toNat
  forfeited : out.result.forfeitedReward.toNat < worth.toNat
  carried : (ledger.tip order.toAsset - out.result.index.toInt) * worth.toNat =
    out.result.carriedReward.toNat
  stalkAdded : (out.result.stalkAdded.toNat : ℤ) =
    worth.toNat * ledger.stalkPerValue order.toAsset + out.result.carriedReward.toNat
  balance : (out.ledger.account order.owner).stalk.toNat =
    (ledger.account order.owner).stalk.toNat + out.result.stalkAdded.toNat

/-- The second half enters what it says, and mints its stalk. -/
theorem enter_carries {order : ConversionOrder} {retired : Retired} {value : Amount}
    {out : Outcome ConversionReceipt} (h : enter order retired value ledger = .ok out) :
    Enters order retired value ledger out := by
  obtain ⟨target, backdate, forfeited, base, stalk, added, booked, minted, _, htarget, hbackdate,
    hforfeited, hbase, hstalk, hadd, hbook, hmint, -, rfl⟩ := enter_stages h
  obtain ⟨hvalue, -, hindex, hcarried⟩ := indexForGrown_eq_ok.mp hbackdate
  have hgrown := Unsigned.sub_eq_ok.mp hforfeited
  refine ⟨rfl, rfl, rfl, rfl, rfl, ?_, ?_, ?_, ?_, ?_⟩
  · rw [Nat.add_comm]
    exact hgrown
  · -- What is forfeited is the remainder of a division by the value.
    have hmod := Nat.mod_lt retired.carried.grown.toNat (Nat.pos_of_ne_zero hvalue)
    have hdiv := Nat.div_add_mod' retired.carried.grown.toNat value.toNat
    dsimp only
    omega
  · dsimp only
    rw [Ledger.tip_eq htarget, hindex, hcarried]
    push_cast
    ring
  · dsimp only
    rw [Unsigned.add_eq_ok.mp hstalk, Unsigned.mul_eq_ok.mp hbase, Ledger.stalkPerValue_eq htarget]
    push_cast
    rfl
  · obtain ⟨_, _, _, -, -, -, -, -, -, rfl⟩ := addPositionAt_eq_ok.mp hadd
    have hsame := (Ledger.SameBalances.creditValue hbook).stalk order.owner
    dsimp only
    rw [stalk_of_mint hmint, hsame]
    rfl

/-! ### Conversions -/

/-- What a conversion does: it mows both assets, removes the positions, and has the new quantity
valued; what is said of the receipt is said in the terms of the ledger that it started from. -/
structure Converts (order : ConversionOrder) (valueOf : Amount → Except Fault Amount)
    (ledger : Ledger) (mown mown' : Outcome Amount) (removed : Outcome Removal)
    (recomputed : Amount) (out : Outcome ConversionReceipt) : Prop where
  source : mow order.owner order.fromAsset ledger = .ok mown
  target : mow order.owner order.toAsset mown.ledger = .ok mown'
  removal : removeMultiple order.owner order.fromAsset order.indices order.amounts mown'.ledger =
    .ok removed
  valuation : valueOf order.toQuantity = .ok recomputed
  /-- A value is removed for each index, and the receipt tells their sum. -/
  values : removed.result.values.length = order.indices.length
  removedValue : (out.result.removedValue.toNat : ℤ) =
    valued (order.indices.zip removed.result.values)
  /-- The new position is worth no less than that. -/
  value : out.result.value = max recomputed out.result.removedValue
  /-- What is carried and what is forfeited is what the removed values had grown, each from its index
  to the tip of the source, -/
  grown : (out.result.carriedReward.toNat + out.result.forfeitedReward.toNat : ℤ) =
    grownSince (ledger.tip order.fromAsset) (order.indices.zip removed.result.values)
  forfeited : out.result.forfeitedReward.toNat < out.result.value.toNat
  /-- and what is carried is what the new value grows from its index to the tip of the target. -/
  carried : (ledger.tip order.toAsset - out.result.index.toInt) * out.result.value.toNat =
    out.result.carriedReward.toNat
  stalkRemoved : (out.result.stalkRemoved.toNat : ℤ) =
    out.result.removedValue.toNat * ledger.stalkPerValue order.fromAsset +
      (out.result.carriedReward.toNat + out.result.forfeitedReward.toNat)
  stalkAdded : (out.result.stalkAdded.toNat : ℤ) =
    out.result.value.toNat * ledger.stalkPerValue order.toAsset + out.result.carriedReward.toNat
  /-- The account has the stalk that is removed, and ends with the stalk that is added in its place. -/
  covered : out.result.stalkRemoved ≤ (mown'.ledger.account order.owner).stalk
  balance : (out.ledger.account order.owner).stalk.toNat =
    (mown'.ledger.account order.owner).stalk.toNat - out.result.stalkRemoved.toNat +
      out.result.stalkAdded.toNat

/-- Both assets of a conversion are mowed, also where they are the same. -/
theorem convert_mows {order : ConversionOrder} {mown mown' : Outcome Amount}
    (h : mow order.owner order.fromAsset ledger = .ok mown)
    (h' : order.toAsset ≠ order.fromAsset ∧
        mow order.owner order.toAsset mown.ledger = .ok mown' ∨
      order.toAsset = order.fromAsset ∧ mown' = ⟨mown.result, mown.ledger, ∅⟩) :
    ∃ mown'', mow order.owner order.toAsset mown.ledger = .ok mown'' ∧
      mown''.ledger = mown'.ledger := by
  rcases h' with ⟨-, h'⟩ | ⟨heq, rfl⟩
  · exact ⟨mown', h', rfl⟩
  · have hagain := mow_of_current (mow_moves h).2
    rw [← heq] at hagain
    exact ⟨_, hagain, rfl⟩

/-- As many values are removed as there are indices. -/
theorem length_of_removeMultiple {owner : AccountId} {indices : List Index}
    {amounts : List Amount} {out : Outcome Removal}
    (h : removeMultiple owner asset indices amounts ledger = .ok out) :
    out.result.values.length = indices.length := by
  obtain ⟨hlength, taking⟩ := removeMultiple_taking h
  have hvalues := congrArg List.length taking.values
  have hindices := congrArg List.length taking.indices
  simp [Removal.none] at hvalues hindices
  omega

/-- **Conversions keep value and growth.** -/
theorem convert_conserves {order : ConversionOrder} {valueOf : Amount → Except Fault Amount}
    {out : Outcome ConversionReceipt} (h : convert order valueOf ledger = .ok out) :
    ∃ mown mown' removed recomputed,
      Converts order valueOf ledger mown mown' removed recomputed out := by
  obtain ⟨mown, later, retired, recomputed, entered, -, hmow, hlater, hretire, hvalue, henter, rfl⟩ :=
    convert_stages h
  obtain ⟨mown', hmow', hsame⟩ := convert_mows hmow hlater
  rw [← hsame] at hretire
  have hmown := (mow_moves hmow).1.keeps
  have hmown' := (mow_moves hmow').1.keeps
  have hkeeps := hmown.trans hmown'
  have hretired := (retire_moves (hmown'.current (mow_moves hmow).2) hretire).keeps
  obtain ⟨⟨removed, hremove, hremoval⟩, htotal, hgrown, hstalk, hburned⟩ := retire_carries hretire
  have e := enter_carries henter
  rw [← hremoval] at htotal hgrown hstalk
  rw [hkeeps.tip, ← e.grown] at hgrown
  rw [hkeeps.stalkPerValue, ← e.grown] at hstalk
  have hremoved : entered.result.removedValue = removed.result.totalValue := by
    rw [e.removedValue, hremoval]
  refine ⟨mown, mown', removed, recomputed, ?_⟩
  exact {
    source := hmow
    target := hmow'
    removal := hremove
    valuation := hvalue
    values := length_of_removeMultiple hremove
    removedValue := by
      rw [hremoved]
      exact htotal
    value := by
      dsimp only
      rw [e.value, e.removedValue]
    grown := by exact_mod_cast hgrown
    forfeited := by
      dsimp only
      rw [e.value]
      exact e.forfeited
    carried := by
      dsimp only
      rw [e.value, ← hkeeps.tip, ← hretired.tip]
      exact e.carried
    stalkRemoved := by
      dsimp only
      rw [e.stalkRemoved, hremoved]
      exact_mod_cast hstalk
    stalkAdded := by
      dsimp only
      rw [e.value, ← hkeeps.stalkPerValue, ← hretired.stalkPerValue]
      exact e.stalkAdded
    covered := by
      dsimp only
      rw [e.stalkRemoved, Unsigned.le_iff, ← hburned]
      exact Nat.le_add_left _ _
    balance := by
      dsimp only
      rw [e.balance, e.stalkRemoved, ← hburned, Nat.add_sub_cancel] }

/-- Account 7 has positions of asset 1 in both stores, and there is an asset 2; some epochs later both
have grown. -/
def exchangeRequests : List Request :=
  Vault.splitRequests ++
    [.whitelist 2 ⟨100, 1, none⟩ .unit, .call (.advanceEpoch ⟨15, false, 0, 0⟩)]

/-- An order that draws on both stores, and on one index twice, the second time for nothing. -/
theorem convert_conserves_exchange :
    ∃ out, convert ⟨7, 1, 2, [.ofInt (-8), 0, 0], [18, 3, 0], 50⟩ .ok
        (Vault.run exchangeRequests Vault.sample).2.ledger = .ok out ∧
      ∃ mown mown' removed recomputed,
        Converts ⟨7, 1, 2, [.ofInt (-8), 0, 0], [18, 3, 0], 50⟩ .ok
          (Vault.run exchangeRequests Vault.sample).2.ledger mown mown' removed recomputed out := by
  have hok : (convert ⟨7, 1, 2, [.ofInt (-8), 0, 0], [18, 3, 0], 50⟩ .ok
      (Vault.run exchangeRequests Vault.sample).2.ledger).toOption.isSome = true := by
    decide +kernel
  cases h : convert ⟨7, 1, 2, [.ofInt (-8), 0, 0], [18, 3, 0], 50⟩ .ok
      (Vault.run exchangeRequests Vault.sample).2.ledger with
  | ok out => exact ⟨out, rfl, convert_conserves h⟩
  | error fault =>
    rw [h] at hok
    cases hok

end StalkLedger
