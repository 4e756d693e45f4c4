import StalkLedger.Proofs.Prediction

/-!
# Converting an asset into itself

A conversion of a whole position into its own asset takes the position out and puts it in again.
What it had grown is a whole number of steps of its value, so that turning the growth into an index
leads back to the index where it was (`convert_whole_receipt`).

* **The stores and the registry** are what they were: a slot that was emptied takes back what it
  held (`SortedMap.put_erase`), and the totals of the asset take back what they released
  (`Asset.take_of_release`).
* **The account** has its stalk and its checkpoints again: as much is minted as was burned
  (`balances_restored`).

Only the roots may differ, since they are burned at the ratio of the totals, rounded up, and minted
at it, rounded down.  So the conversion is **lossless** (`Vault.reconversion_lossless`).
-/

namespace StalkLedger

open StalkLedger.Action

variable {ledger : Ledger} {owner id : AccountId} {asset : AssetId}

/-! ### Out and in again -/

/-- A slot that was emptied takes back what it held. -/
theorem SortedMap.put_erase {μ : Type} [Key μ] [DecidableEq μ] {store : SortedMap (Slot μ) Position}
    {slot : Slot μ} {position : Position} (h : store.get? slot = some position) :
    (store.erase slot).put slot position = .ok store := by
  refine put_eq_ok.mpr ⟨position, ?_, ?_, ext_get? fun other => ?_⟩
  · rw [get?_erase_self]
    exact (Nat.zero_add _).symm
  · rw [get?_erase_self]
    exact (Nat.zero_add _).symm
  · by_cases hother : other = slot
    · rw [hother, get?_insert_self, h]
    · rw [get?_insert_of_ne _ hother, get?_erase_of_ne _ hother]

/-- Totals that released a position take it back. -/
theorem Asset.take_of_release {entry entry' : Asset} {position : Position}
    (h : entry.release position = .ok entry') : entry'.take position = .ok entry := by
  obtain ⟨quantity, value, hquantity, hvalue, rfl⟩ := release_eq_ok.mp h
  exact take_eq_ok.mpr ⟨entry.totalQuantity, entry.totalValue, hquantity.symm, hvalue.symm, rfl⟩

/-- **A position that was removed and is entered again** is where it was, whatever has become of the
accounts and the totals in between. -/
theorem addPositionAt_of_removed {index : Index} {position : Position}
    {removed : Outcome Amount} {accounts : SortedMap AccountId Account} {totals : Totals}
    {added : Outcome Unit} (hp : ledger.positionAt owner asset index = some position)
    (hne : position.quantity ≠ 0)
    (hremove : removePosition ⟨owner, asset, index⟩ position.quantity ledger = .ok removed)
    (hadd : addPositionAt ⟨owner, asset, index⟩ position { removed.ledger with accounts, totals } =
      .ok added) :
    added.ledger = { ledger with accounts, totals } := by
  obtain ⟨value, taken, entry, entry', -, hentry, htake, hrelease, rfl⟩ :=
    (removePosition_eq_ok hne).mp hremove
  obtain ⟨rfl, rfl⟩ := Prod.mk.inj (Except.ok.inj (htake.symm.trans (Ledger.takeAt_current hp)))
  obtain ⟨deposits, listed, listed', -, -, -, hput, hlisted, htaken, rfl⟩ :=
    addPositionAt_eq_ok.mp hadd
  have hstore : (ledger.deposits.erase ⟨owner, asset, index⟩).put ⟨owner, asset, index⟩
      position = .ok deposits := hput
  obtain rfl := Except.ok.inj ((SortedMap.put_erase hp).symm.trans hstore)
  have hsame : listed = entry' := by
    have hget := Ledger.asset_eq_ok.mp hlisted
    exact Option.some.inj (hget.symm.trans (SortedMap.get?_insert_self ..))
  rw [hsame] at htaken
  obtain rfl := Except.ok.inj ((Asset.take_of_release hrelease).symm.trans htaken)
  have hassets : (ledger.assets.insert asset entry').insert asset entry =
      ledger.assets := by
    rw [SortedMap.insert_insert, SortedMap.insert_of_get? (Ledger.asset_eq_ok.mp hentry)]
  exact congrArg (fun assets => { ledger with assets, accounts, totals }) hassets

/-! ### Burned and minted again -/

theorem Ledger.withAccount_withAccount (ledger : Ledger) (id : AccountId)
    (account account' : Account) :
    (ledger.withAccount id account).withAccount id account' = ledger.withAccount id account' := by
  rw [withAccount, withAccount, withAccount, SortedMap.insert_insert]

/-- An account that holds another value in an asset, and other stalk and roots. -/
def Account.rebooked (account : Account) (asset : AssetId) (value stalk roots : Amount) : Account :=
  { account.withCheckpoint asset { account.checkpoint asset with value } with stalk, roots }

/-- A second booking takes the place of the first; the value that was held is held again. -/
theorem Account.rebooked_rebooked {account : Account} {checkpoint : Checkpoint}
    (h : account.checkpoints.get? asset = some checkpoint) (value stalk roots roots' : Amount) :
    (account.rebooked asset value stalk roots).rebooked asset checkpoint.value account.stalk roots' =
      { account with roots := roots' } := by
  have hfirst : (account.rebooked asset value stalk roots).checkpoint asset =
      { account.checkpoint asset with value } :=
    (Account.checkpoint_withCheckpoint ..).trans (if_pos rfl)
  have hheld : account.checkpoint asset = checkpoint := by
    rw [Account.checkpoint, h, Option.getD_some]
  rw [rebooked, hfirst, hheld]
  show { (account.withCheckpoint asset _).withCheckpoint asset checkpoint with
    stalk := account.stalk, roots := roots' } = { account with roots := roots' }
  rw [withCheckpoint, withCheckpoint, SortedMap.insert_insert, SortedMap.insert_of_get? h]

/-- **A value that is no longer booked, and its stalk burned.** -/
theorem unbooked_spec {value stalk : Amount} {debited : Outcome Unit} {burned : Outcome Amount}
    (hs : stalk ≠ 0) (hdebit : debitValue id asset value ledger = .ok debited)
    (hburn : burnStalk id stalk debited.ledger = .ok burned) :
    ∃ (value' stalk' roots' : Amount) (totals : Totals),
      value'.toNat + value.toNat = ((ledger.account id).checkpoint asset).value.toNat ∧
      stalk'.toNat + stalk.toNat = (ledger.account id).stalk.toNat ∧
      totals.stalk.toNat + stalk.toNat = ledger.totals.stalk.toNat ∧
      totals.earnedPool = ledger.totals.earnedPool ∧
      burned.ledger = { ledger with totals }.withAccount id
        ((ledger.account id).rebooked asset value' stalk' roots') := by
  obtain ⟨value', hvalue, rfl⟩ := debitValue_eq_ok.mp hdebit
  obtain ⟨roots, totals, reduced, -, htotals, hreduce, rfl⟩ := (burnStalk_eq_ok hs).mp hburn
  obtain ⟨stalk', roots', _, hstalk, -, rfl⟩ := debitStalk_spec hreduce
  obtain ⟨hsum, -, hpool⟩ := Totals.debit_eq_ok.mp htotals
  have haccount := (Ledger.account_withAccount ledger id id ((ledger.account id).withCheckpoint asset
    { (ledger.account id).checkpoint asset with value := value' })).trans (if_pos rfl)
  refine ⟨value', stalk', roots', totals, hvalue,
    hstalk.trans (congrArg (·.stalk.toNat) haccount), hsum, hpool, ?_⟩
  exact (Ledger.withAccount_withAccount { ledger with totals } id _ _).trans
    (congrArg (fun account : Account => { ledger with totals }.withAccount id
      { account with stalk := stalk', roots := roots' }) haccount)

/-- **A value that is booked, and its stalk minted.** -/
theorem booked_spec {value stalk : Amount} {booked : Outcome Unit} {minted : Outcome Amount}
    (hs : stalk ≠ 0) (hbook : creditValue id asset value ledger = .ok booked)
    (hmint : mintStalk id stalk booked.ledger = .ok minted) :
    ∃ (value' stalk' roots' : Amount) (totals : Totals),
      value'.toNat = ((ledger.account id).checkpoint asset).value.toNat + value.toNat ∧
      stalk'.toNat = (ledger.account id).stalk.toNat + stalk.toNat ∧
      totals.stalk.toNat = ledger.totals.stalk.toNat + stalk.toNat ∧
      totals.earnedPool = ledger.totals.earnedPool ∧
      minted.ledger = { ledger with totals }.withAccount id
        ((ledger.account id).rebooked asset value' stalk' roots') := by
  obtain ⟨value', hvalue, rfl⟩ := creditValue_eq_ok.mp hbook
  obtain ⟨roots, totals, raised, -, htotals, hraise, rfl⟩ := (mintStalk_eq_ok hs).mp hmint
  obtain ⟨stalk', roots', _, hstalk, -, rfl⟩ := creditStalk_spec hraise
  obtain ⟨hsum, -, hpool⟩ := Totals.credit_eq_ok.mp htotals
  have haccount := (Ledger.account_withAccount ledger id id ((ledger.account id).withCheckpoint asset
    { (ledger.account id).checkpoint asset with value := value' })).trans (if_pos rfl)
  refine ⟨value', stalk', roots', totals, hvalue,
    hstalk.trans (congrArg (·.stalk.toNat + _) haccount), hsum, hpool, ?_⟩
  exact (Ledger.withAccount_withAccount { ledger with totals } id _ _).trans
    (congrArg (fun account : Account => { ledger with totals }.withAccount id
      { account with stalk := stalk', roots := roots' }) haccount)

/-- The second ledger is the first but for the roots of an account and the total roots. -/
def Ledger.Rerooted (id : AccountId) (ledger ledger' : Ledger) : Prop :=
  ∃ roots total : Amount, ledger' =
    { ledger.withAccount id { ledger.account id with roots } with
      totals := { ledger.totals with roots := total } }

/-- **The balances of a position that is taken out and put in again**: as much value is booked again,
and as much stalk minted, as before. -/
theorem balances_restored {stalk value : Amount} {removed : Ledger} {debited booked : Outcome Unit}
    {burned minted : Outcome Amount} (hcurrent : ledger.Current id asset) (hs : stalk ≠ 0)
    (haccounts : removed.accounts = ledger.accounts) (htotals : removed.totals = ledger.totals)
    (hdebit : debitValue id asset value removed = .ok debited)
    (hburn : burnStalk id stalk debited.ledger = .ok burned)
    (hbook : creditValue id asset value
      { ledger with accounts := burned.ledger.accounts, totals := burned.ledger.totals } =
        .ok booked)
    (hmint : mintStalk id stalk booked.ledger = .ok minted) :
    ledger.Rerooted id minted.ledger := by
  obtain ⟨account, checkpoint, -, haccount, -, hcheckpoint, -, -⟩ := hcurrent
  have hself : ledger.account id = account := Ledger.account_of_get? haccount
  have hown : removed.account id = account := (Ledger.account_congr haccounts id).trans hself
  have hheld : account.checkpoint asset = checkpoint := by
    rw [Account.checkpoint, hcheckpoint, Option.getD_some]
  obtain ⟨value₁, stalk₁, roots₁, totals₁, hvalue₁, hstalk₁, htotal₁, hpool₁, hburned⟩ :=
    unbooked_spec hs hdebit hburn
  obtain ⟨value₂, stalk₂, roots₂, totals₂, hvalue₂, hstalk₂, htotal₂, hpool₂, hminted⟩ :=
    booked_spec hs hbook hmint
  rw [hown] at hvalue₁ hstalk₁ hburned
  rw [htotals] at htotal₁ hpool₁
  -- The account in between, with less value and less stalk.
  have hbetween : Ledger.account { ledger with
      accounts := burned.ledger.accounts, totals := burned.ledger.totals } id =
        account.rebooked asset value₁ stalk₁ roots₁ := by
    have hrebooked : burned.ledger.account id = account.rebooked asset value₁ stalk₁ roots₁ := by
      rw [hburned, Ledger.account_withAccount, if_pos rfl]
    exact hrebooked
  have hheld₁ : ((account.rebooked asset value₁ stalk₁ roots₁).checkpoint asset).value = value₁ :=
    congrArg Checkpoint.value ((Account.checkpoint_withCheckpoint ..).trans (if_pos rfl))
  rw [hbetween] at hvalue₂ hstalk₂ hminted
  rw [hheld₁] at hvalue₂
  obtain rfl : value₂ = checkpoint.value :=
    Unsigned.ext (hvalue₂.trans (hvalue₁.trans (congrArg (·.value.toNat) hheld)))
  obtain rfl : stalk₂ = account.stalk := Unsigned.ext (hstalk₂.trans hstalk₁)
  rw [Account.rebooked_rebooked hcheckpoint] at hminted
  have hsum : totals₂ = { ledger.totals with roots := totals₂.roots } := by
    have hstalk : totals₂.stalk = ledger.totals.stalk := by
      refine Unsigned.ext (htotal₂.trans ?_)
      rw [hburned]
      exact htotal₁
    have hpool : totals₂.earnedPool = ledger.totals.earnedPool := by
      rw [hpool₂, hburned]
      exact hpool₁
    dsimp only
    rw [← hstalk, ← hpool]
  have hothers : burned.ledger.accounts.insert id { account with roots := roots₂ } =
      ledger.accounts.insert id { account with roots := roots₂ } := by
    rw [hburned, ← haccounts]
    exact SortedMap.insert_insert ..
  refine ⟨roots₂, totals₂.roots, ?_⟩
  rw [hminted, hself, ← hsum]
  exact congrArg (fun accounts => { ledger with accounts, totals := totals₂ }) hothers

/-! ### Conversions of whole positions -/

section Whole

variable {index : Index} {position : Position} {worth : Amount}
  {valueOf : Amount → Except Fault Amount} {out : Outcome ConversionReceipt}

/-- A value that grows a whole number of steps is led back to its index, and nothing is forfeited. -/
theorem index_of_growth {tip index index' : ℤ} {value carried forfeited : ℕ}
    (hgrown : (carried : ℤ) + forfeited = (tip - index) * value)
    (hcarried : (tip - index') * value = carried) (hforfeited : forfeited < value) :
    index' = index ∧ forfeited = 0 := by
  have hsteps : (forfeited : ℤ) = (index' - index) * value := by linarith
  have hpos : (0 : ℤ) < value := by omega
  have hfew : index' - index < 1 := by
    by_contra hmany
    have hle := mul_le_mul_of_nonneg_right (not_lt.mp hmany) hpos.le
    omega
  have hsome : 0 ≤ index' - index := by
    by_contra hback
    have hlt := mul_neg_of_neg_of_pos (not_le.mp hback) hpos
    omega
  have hnone : index' - index = 0 := by omega
  refine ⟨by omega, ?_⟩
  rw [hnone, zero_mul] at hsteps
  exact Int.natCast_eq_zero.mp hsteps

/-- **What a conversion of a whole position into its own asset replies**: the position is where it
was, with all that it had grown. -/
theorem convert_whole_receipt (hl : ledger.Housed)
    (hp : ledger.positionAt owner asset index = some position)
    (hworth : valueOf position.quantity = .ok worth) (hle : worth ≤ position.value)
    (h : convert ⟨owner, asset, asset, [index], [position.quantity], position.quantity⟩ valueOf
      ledger = .ok out) :
    out.result.index = index ∧ out.result.value = position.value ∧
      (out.result.carriedReward.toNat : ℤ) =
        (ledger.tip asset - index.toInt) * position.value.toNat ∧
      out.result.forfeitedReward = 0 ∧ out.result.stalkAdded = out.result.stalkRemoved := by
  obtain ⟨mown, mown', removed, recomputed, hc⟩ := convert_conserves h
  obtain rfl : recomputed = worth := Except.ok.inj (hc.valuation.symm.trans hworth)
  obtain ⟨first, hfirst, -, hremoved⟩ := removeMultiple_single hc.removal
  have hmoved : mown'.ledger.resolvedPosition owner asset index = .ok (some position) := by
    rw [resolvedPosition_of_mow hc.target, resolvedPosition_of_mow hc.source,
      Ledger.resolvedPosition, hp]
  have hvalues : removed.result.values = [position.value] := by
    rw [hremoved]
    exact congrArg (fun value => [value])
      (removePosition_resolved (hl.deposits _ _ hp).1 hmoved hfirst)
  have hremovedValue : out.result.removedValue = position.value := by
    have htotal := hc.removedValue
    rw [hvalues] at htotal
    exact Unsigned.ext (Int.ofNat.inj (htotal.trans (add_zero _)))
  have hvalue : out.result.value = position.value := by
    rw [hc.value, hremovedValue]
    exact if_pos hle
  have hgrown : (out.result.carriedReward.toNat : ℤ) + out.result.forfeitedReward.toNat =
      (ledger.tip asset - index.toInt) * position.value.toNat := by
    have hsum := hc.grown
    rw [hvalues] at hsum
    exact hsum.trans (add_zero _)
  have hcarried := hc.carried
  have hforfeited := hc.forfeited
  have hadded := hc.stalkAdded
  have hburned := hc.stalkRemoved
  rw [hvalue] at hcarried hforfeited hadded
  rw [hremovedValue] at hburned
  obtain ⟨hindex, hnothing⟩ := index_of_growth hgrown hcarried hforfeited
  rw [hnothing, Nat.cast_zero, add_zero] at hgrown hburned
  exact ⟨Signed.ext hindex, hvalue, hgrown, Unsigned.ext hnothing,
    Unsigned.ext (Int.ofNat.inj (hadded.trans hburned.symm))⟩

/-- **What it does to the ledger** in which the account has been mown: nothing, but for the roots. -/
theorem convert_whole_restores (hl : ledger.Housed)
    (hp : ledger.positionAt owner asset index = some position)
    (hworth : valueOf position.quantity = .ok worth) (hle : worth ≤ position.value)
    (h : convert ⟨owner, asset, asset, [index], [position.quantity], position.quantity⟩ valueOf
      ledger = .ok out) :
    out.result.quantity = position.quantity ∧
      ∃ mown, mow owner asset ledger = .ok mown ∧ mown.ledger.Rerooted owner out.ledger := by
  obtain ⟨hindex, hvalue, -, -, hstalk⟩ := convert_whole_receipt hl hp hworth hle h
  obtain ⟨mown, mown', retired, recomputed, entered, -, hmow, hlater, hretire, -, henter, rfl⟩ :=
    convert_stages h
  obtain ⟨-, rfl⟩ := hlater.resolve_left fun hne => hne.1 rfl
  obtain ⟨removed, entry, carried, debited, burned, hremove, hentry, hcarried, hdebit, hburn, rfl⟩ :=
    retire_stages hretire
  obtain ⟨target, backdate, forfeited, base, stalk, added, booked, minted, _, -, -, -, -, -, hadd,
    hbook, hmint, -, rfl⟩ := enter_stages henter
  dsimp only at hindex hvalue hstalk hadd hbook hmint
  rw [hindex, hvalue] at hadd
  rw [hvalue] at hbook
  rw [hstalk] at hmint
  refine ⟨rfl, mown, hmow, ?_⟩
  have hmown : mown.ledger.Housed := (mow_moves hmow).1.housed hl
  have hp' : mown.ledger.positionAt owner asset index = some position := by
    obtain ⟨accounts, totals, hframe⟩ := mow_frame hmow
    rw [hframe]
    exact hp
  obtain ⟨hne, hworthy, -⟩ := hl.deposits _ _ hp
  obtain ⟨first, hfirst, hfirstLedger, hresult⟩ := removeMultiple_single hremove
  have htaken : first.result = position.value := by
    refine removePosition_resolved hne ?_ hfirst
    rw [Ledger.resolvedPosition, hp']
  have htotal : removed.result.totalValue = position.value := by
    rw [hresult]
    exact htaken
  -- Something is burned, because the value is something and gives stalk.
  have hsome : carried.stalk ≠ 0 := by
    have hhoused := (removeMultiple_taking hremove).2.moves.housed hmown
    have hprice := (hhoused.asset (Ledger.asset_eq_ok.mp hentry)).stalkPerValue
    obtain ⟨-, hsum, -⟩ := stalkOf_spec hcarried
    rw [htotal] at hsum
    intro hzero
    rw [hzero, Unsigned.toNat_zero] at hsum
    rcases Nat.mul_eq_zero.mp (Nat.eq_zero_of_add_eq_zero_right hsum.symm) with hv | hs
    · exact hworthy (Unsigned.ext hv)
    · exact hprice (Unsigned.ext hs)
  rw [htotal] at hdebit
  obtain ⟨haccounts, htotals⟩ := removeEach_frame (removeMultiple_stages hremove).2
  have hburned : burned.ledger = { first.ledger with
      accounts := burned.ledger.accounts, totals := burned.ledger.totals } := by
    obtain ⟨_, _, _, _, -, -, -, -, hburned⟩ := unbooked_spec hsome hdebit hburn
    rw [hburned, hfirstLedger]
    rfl
  rw [hburned] at hadd
  rw [addPositionAt_of_removed hp' hne hfirst hadd] at hbook
  exact balances_restored (mow_moves hmow).2 hsome haccounts htotals hdebit hburn hbook hmint

end Whole

/-- A conversion of a whole position into its own asset. -/
abbrev Call.reconvert (owner : AccountId) (asset : AssetId) (index : Index) (position : Position) :
    Call :=
  .convert ⟨owner, asset, asset, [index], [position.quantity], position.quantity⟩

namespace Vault

/-- **A conversion of a whole position into its own asset is lossless.**  After any requests to a new
vault, take any position of the current store whose quantity is now worth no more than the position,
and let its conversion into its own asset be answered.  The new position is at the index of the old
one, with its quantity and its value; all that it had grown is carried, and nothing is forfeited.  And
the vault is the one in which the account has been mown, but for the roots of the account, the total
roots, and the log. -/
theorem reconversion_lossless {charter : Charter} {start : Vault} (h : genesis charter = .ok start)
    (requests : List Request) {owner : AccountId} {asset : AssetId} {index : Index}
    {position : Position} {worth : Amount} {receipt : ConversionReceipt}
    (hp : (run requests start).2.ledger.positionAt owner asset index = some position)
    (hworth : (run requests start).2.valueOf asset position.quantity = .ok worth)
    (hle : worth ≤ position.value)
    (hanswer : (serve (.reconvert owner asset index position) (run requests start).2).1.result =
      .ok (.converted receipt)) :
    let vault := (run requests start).2
    let mown := (serve (.mow owner asset) vault).2
    let converted := (serve (.reconvert owner asset index position) vault).2
    (receipt.index = index ∧ receipt.quantity = position.quantity ∧
      receipt.value = position.value ∧ (receipt.carriedReward.toNat : ℤ) =
        (vault.ledger.tip asset - index.toInt) * position.value.toNat ∧
      receipt.forfeitedReward = 0) ∧
    converted.ledger.positionAt owner asset index = some position ∧
    (∃ grown, (serve (.mow owner asset) vault).1.result = .ok (.amount grown)) ∧
    mown.ledger.Rerooted owner converted.ledger ∧
    converted = { mown with ledger := converted.ledger, log := converted.log } := by
  intro vault mown converted
  obtain ⟨ho, hentered⟩ := orderly h requests
  have hl : vault.ledger.Housed := ho.consistent.housed
  rw [serve] at hanswer
  obtain ⟨out, hconvert, -, hreceipt⟩ := (transact_changed hentered).answered hanswer
  obtain rfl := Answer.converted.inj hreceipt
  obtain ⟨hindex, hvalue, hcarried, hforfeited, -⟩ :=
    convert_whole_receipt hl hp hworth hle hconvert
  obtain ⟨hquantity, mowed, hmow, hrerooted⟩ := convert_whole_restores hl hp hworth hle hconvert
  have hmown : serve (.mow owner asset) vault =
      (⟨.ok (.amount mowed.result), none, mowed.events⟩, vault.committed mowed) :=
    mow_answered hentered hmow
  have hconverted : converted = vault.committed out := by
    show (serve (.reconvert owner asset index position) vault).2 = _
    rw [serve, Vault.convert, transact_of_ok hentered hconvert]
    rfl
  have hmownLedger : mown.ledger = mowed.ledger := congrArg (fun served => served.2.ledger) hmown
  have hkept : out.ledger.positionAt owner asset index = some position := by
    obtain ⟨accounts, totals, hframe⟩ := mow_frame hmow
    obtain ⟨_, _, hledger⟩ := hrerooted
    rw [hledger, hframe]
    exact hp
  refine ⟨⟨hindex, hquantity, hvalue, hcarried, hforfeited⟩, ?_,
    ⟨_, congrArg (fun served => served.1.result) hmown⟩, ?_, ?_⟩
  · rw [hconverted]
    exact hkept
  · rw [hmownLedger, hconverted]
    exact hrerooted
  · show converted = { (serve (.mow owner asset) vault).2 with
      ledger := converted.ledger, log := converted.log }
    rw [hmown, hconverted]
    rfl

/-- Account 7 has 5 at index -8 that were worth 6 and are worth 5 now; in epoch 15 they have grown
138. -/
theorem reconversion_lossless_exchange : genesis ⟨10, 10, 0, 9⟩ = .ok sample ∧
    let vault := (run exchangeRequests sample).2
    let mown := (serve (.mow 7 1) vault).2
    let converted := (serve (.reconvert 7 1 (.ofInt (-8)) ⟨5, 6⟩) vault).2
    vault.ledger.positionAt 7 1 (.ofInt (-8)) = some ⟨5, 6⟩ ∧ vault.valueOf 1 5 = .ok 5 ∧
    (5 : Amount) ≤ 6 ∧ ∃ receipt,
      (serve (.reconvert 7 1 (.ofInt (-8)) ⟨5, 6⟩) vault).1.result = .ok (.converted receipt) ∧
      (receipt.index = .ofInt (-8) ∧ receipt.quantity = 5 ∧ receipt.value = 6 ∧
        (receipt.carriedReward.toNat : ℤ) =
          (vault.ledger.tip 1 - (Signed.ofInt (-8) : Index).toInt) * (6 : Amount).toNat ∧
        receipt.forfeitedReward = 0) ∧
      converted.ledger.positionAt 7 1 (.ofInt (-8)) = some ⟨5, 6⟩ ∧
      (∃ grown, (serve (.mow 7 1) vault).1.result = .ok (.amount grown)) ∧
      mown.ledger.Rerooted 7 converted.ledger ∧
      converted = { mown with ledger := converted.ledger, log := converted.log } := by
  have hp : (run exchangeRequests sample).2.ledger.positionAt 7 1 (.ofInt (-8)) = some ⟨5, 6⟩ := by
    decide +kernel
  have hworth : (run exchangeRequests sample).2.valueOf 1 5 = .ok 5 := by decide +kernel
  have hok : (serve (.reconvert 7 1 (.ofInt (-8)) ⟨5, 6⟩)
      (run exchangeRequests sample).2).1.result =
        .ok (.converted ⟨.ofInt (-8), 5, 6, 5, 6, 138, 0, 60138, 60138⟩) := by decide +kernel
  exact ⟨genesis_sample, hp, hworth, by decide, _, hok,
    reconversion_lossless genesis_sample exchangeRequests hp hworth (by decide) hok⟩

end Vault

end StalkLedger
