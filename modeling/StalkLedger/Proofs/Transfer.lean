import StalkLedger.Proofs.Conversion
import StalkLedger.Proofs.Parcels

/-!
# Transfers between accounts

A transfer mows both accounts.  Then parcels leave the stores of the sender and arrive in the current
store of the recipient, and stalk, roots and booked value go with them.

* **Accounts** change in stalk, roots and the value booked in one asset (`Account.Shifted`), and what
  several steps do to all of them is a sum (`Ledger.Shifts`).
* **The whole way** of a transfer is told once, for any two accounts (`transferRealized_passes`); here
  it is read for two that differ.
* **Transfers conserve everything** (`Vault.transfers_conserve`): what the sender has less the
  recipient has more, at each index and in all balances, and nothing else has changed.
-/

namespace StalkLedger

open StalkLedger.Action
open Position (contents)

/-! ### Balances of accounts -/

namespace Account

variable {asset : AssetId} {account account' account'' : Account} {change change' : ℤ × ℤ × ℤ}

/-- Stalk, roots, and the value booked in an asset. -/
def balances (account : Account) (asset : AssetId) : ℤ × ℤ × ℤ :=
  (account.stalk.toNat, account.roots.toNat, (account.checkpoint asset).value.toNat)

/-- The balances of an account have changed, and nothing else about it. -/
structure Shifted (asset : AssetId) (account account' : Account) (change : ℤ × ℤ × ℤ) : Prop where
  balances : account'.balances asset = account.balances asset + change
  lastIndex : (account'.checkpoint asset).lastIndex = (account.checkpoint asset).lastIndex
  others : ∀ other, other ≠ asset →
    account'.checkpoints.get? other = account.checkpoints.get? other
  lastUpdate : account'.lastUpdate = account.lastUpdate
  flood : account'.flood = account.flood

namespace Shifted

theorem refl (asset : AssetId) (account : Account) : Shifted asset account account 0 :=
  ⟨(add_zero _).symm, rfl, fun _ _ => rfl, rfl, rfl⟩

theorem trans (h : Shifted asset account account' change)
    (h' : Shifted asset account' account'' change') :
    Shifted asset account account'' (change + change') where
  balances := by rw [h'.balances, h.balances, add_assoc]
  lastIndex := h'.lastIndex.trans h.lastIndex
  others other hne := (h'.others other hne).trans (h.others other hne)
  lastUpdate := h'.lastUpdate.trans h.lastUpdate
  flood := h'.flood.trans h.flood

/-- Another value at the checkpoint of the asset is a shift of the value alone, -/
theorem withCheckpoint (account : Account) (asset : AssetId) (value : Amount) :
    Shifted asset account
      (account.withCheckpoint asset { account.checkpoint asset with value })
      (0, 0, (value.toNat : ℤ) - (account.checkpoint asset).value.toNat) := by
  have hself : (account.withCheckpoint asset { account.checkpoint asset with value }).checkpoint
      asset = { account.checkpoint asset with value } := by
    rw [checkpoint, Account.withCheckpoint, SortedMap.get?_insert_self, Option.getD_some]
  refine ⟨?_, ?_, fun other hne => SortedMap.get?_insert_of_ne _ hne _, rfl, rfl⟩
  · rw [Account.balances, hself, Account.balances, Prod.mk_add_mk, Prod.mk_add_mk, add_zero,
      add_zero, add_sub_cancel]
    rfl
  · rw [hself]

/-- and other balances are a shift of stalk and roots. -/
theorem withBalances (account : Account) (asset : AssetId) (stalk roots : Amount) :
    Shifted asset account { account with stalk, roots }
      ((stalk.toNat : ℤ) - account.stalk.toNat, (roots.toNat : ℤ) - account.roots.toNat, 0) := by
  refine ⟨?_, rfl, fun _ _ => rfl, rfl, rfl⟩
  rw [Account.balances, Account.balances, Prod.mk_add_mk, Prod.mk_add_mk, add_zero,
    add_sub_cancel, add_sub_cancel]
  rfl

/-- An account whose balances are the same again is the same. -/
theorem eq_of_zero (h : Shifted asset account account' 0) {checkpoint checkpoint' : Checkpoint}
    (hc : account.checkpoints.get? asset = some checkpoint)
    (hc' : account'.checkpoints.get? asset = some checkpoint') : account' = account := by
  obtain ⟨stalk, roots, lastUpdate, checkpoints, flood⟩ := account
  obtain ⟨stalk', roots', lastUpdate', checkpoints', flood'⟩ := account'
  obtain ⟨hbalances, hindex, hothers, hupdate, hflood⟩ := h
  simp only [Account.balances, add_zero, Prod.mk.injEq, Account.checkpoint] at hbalances hindex
  dsimp only at hc hc' hothers hupdate hflood
  rw [hc, hc', Option.getD_some, Option.getD_some] at hbalances hindex
  obtain ⟨hstalk, hroots, hvalue⟩ := hbalances
  obtain rfl : stalk' = stalk := Unsigned.ext (Int.ofNat.inj hstalk)
  obtain rfl : roots' = roots := Unsigned.ext (Int.ofNat.inj hroots)
  obtain rfl : checkpoints' = checkpoints := SortedMap.ext_get? fun other => by
    by_cases hother : other = asset
    · obtain ⟨lastIndex, value⟩ := checkpoint
      obtain ⟨lastIndex', value'⟩ := checkpoint'
      obtain rfl : value' = value := Unsigned.ext (Int.ofNat.inj hvalue)
      rw [hother, hc, hc', show lastIndex' = lastIndex from hindex]
    · exact hothers other hother
  rw [hupdate, hflood]

end Shifted

end Account

namespace Ledger

variable {ledger ledger' ledger'' : Ledger} {id : AccountId} {asset : AssetId}
  {owners : List AccountId}

/-- The balances of some accounts have changed, and nothing else. -/
structure Shifts (owners : List AccountId) (asset : AssetId) (ledger ledger' : Ledger)
    (change : AccountId → ℤ × ℤ × ℤ) : Prop where
  account : ∀ id, (ledger.account id).Shifted asset (ledger'.account id) (change id)
  others : ∀ id, id ∉ owners → ledger'.accounts.get? id = ledger.accounts.get? id
  rest : ledger' = { ledger with accounts := ledger'.accounts }

namespace Shifts

theorem refl (ledger : Ledger) : Shifts owners asset ledger ledger 0 :=
  ⟨fun _ => .refl asset _, fun _ _ => rfl, rfl⟩

/-- A shift leaves the terms of all assets alone. -/
theorem sameTerms {change : AccountId → ℤ × ℤ × ℤ}
    (h : Shifts owners asset ledger ledger' change) : SameTerms ledger ledger' := by
  rw [h.rest]
  exact ⟨rfl, fun _ => rfl⟩

theorem trans {change change' : AccountId → ℤ × ℤ × ℤ}
    (h : Shifts owners asset ledger ledger' change)
    (h' : Shifts owners asset ledger' ledger'' change') :
    Shifts owners asset ledger ledger'' (change + change') where
  account id := (h.account id).trans (h'.account id)
  others id hid := (h'.others id hid).trans (h.others id hid)
  rest := by rw [h'.rest, h.rest]

/-- A record that is shifted is entered for one of the owners. -/
theorem withAccount {account : Account} {change : ℤ × ℤ × ℤ} (hid : id ∈ owners)
    (h : (ledger.account id).Shifted asset account change) :
    Shifts owners asset ledger (ledger.withAccount id account) (Pi.single id change) where
  account other := by
    rw [account_withAccount]
    split
    next heq =>
      subst heq
      rwa [Pi.single_eq_same]
    next hne =>
      rw [Pi.single_eq_of_ne hne]
      exact .refl asset _
  others other hother := SortedMap.get?_insert_of_ne _ (ne_of_mem_of_not_mem hid hother).symm _
  rest := rfl

end Shifts

end Ledger

open Ledger (Shifts Rebooks)

variable {ledger : Ledger} {asset : AssetId} {owners : List AccountId} {id : AccountId}

/-- Value is taken off a checkpoint, -/
theorem debitValue_shifts {value : Amount} {out : Outcome Unit} (hid : id ∈ owners)
    (h : debitValue id asset value ledger = .ok out) :
    Shifts owners asset ledger out.ledger (Pi.single id (0, 0, -(value.toNat : ℤ))) := by
  obtain ⟨held, hheld, rfl⟩ := debitValue_eq_ok.mp h
  have hshifts : Shifts owners asset ledger _ _ :=
    .withAccount hid (.withCheckpoint (ledger.account id) asset held)
  rwa [← hheld, Nat.cast_add, sub_add_cancel_left] at hshifts

/-- or booked at one; -/
theorem creditValue_shifts {value : Amount} {out : Outcome Unit} (hid : id ∈ owners)
    (h : creditValue id asset value ledger = .ok out) :
    Shifts owners asset ledger out.ledger (Pi.single id (0, 0, (value.toNat : ℤ))) := by
  obtain ⟨held, hheld, rfl⟩ := creditValue_eq_ok.mp h
  have hshifts : Shifts owners asset ledger _ _ :=
    .withAccount hid (.withCheckpoint (ledger.account id) asset held)
  rwa [hheld, Nat.cast_add, add_sub_cancel_left] at hshifts

/-- stalk is taken off an account with its roots, -/
theorem debitStalk_shifts {stalk roots : Amount} {out : Outcome Unit} (hid : id ∈ owners)
    (h : debitStalk id stalk roots ledger = .ok out) :
    Shifts owners asset ledger out.ledger
      (Pi.single id (-(stalk.toNat : ℤ), -(roots.toNat : ℤ), 0)) := by
  obtain ⟨stalk', roots', _, hstalk, hroots, rfl⟩ := debitStalk_spec h
  have hshifts : Shifts owners asset ledger _ _ :=
    .withAccount hid (.withBalances (ledger.account id) asset stalk' roots')
  rwa [← hstalk, ← hroots, Nat.cast_add, Nat.cast_add, sub_add_cancel_left,
    sub_add_cancel_left] at hshifts

/-- or credited with them. -/
theorem creditStalk_shifts {stalk roots : Amount} {out : Outcome Unit} (hid : id ∈ owners)
    (h : creditStalk id stalk roots ledger = .ok out) :
    Shifts owners asset ledger out.ledger
      (Pi.single id ((stalk.toNat : ℤ), (roots.toNat : ℤ), 0)) := by
  obtain ⟨stalk', roots', _, hstalk, hroots, rfl⟩ := creditStalk_spec h
  have hshifts : Shifts owners asset ledger _ _ :=
    .withAccount hid (.withBalances (ledger.account id) asset stalk' roots')
  rwa [hstalk, hroots, Nat.cast_add, Nat.cast_add, add_sub_cancel_left,
    add_sub_cancel_left] at hshifts

/-- The roots that go from one account to another are those that are returned. -/
theorem transferStalk_shifts {sender recipient : AccountId} {stalk : Amount} {out : Outcome Amount}
    (hsender : sender ∈ owners) (hrecipient : recipient ∈ owners)
    (h : transferStalk sender recipient stalk ledger = .ok out) :
    Shifts owners asset ledger out.ledger
      (Pi.single sender (-(stalk.toNat : ℤ), -(out.result.toNat : ℤ), 0) +
        Pi.single recipient ((stalk.toNat : ℤ), (out.result.toNat : ℤ), 0)) := by
  by_cases hzero : stalk = 0
  · subst hzero
    cases h
    have hnothing : ((-((0 : Amount).toNat : ℤ), -((0 : Amount).toNat : ℤ), 0) : ℤ × ℤ × ℤ) = 0 :=
      rfl
    have hnothing' : ((((0 : Amount).toNat : ℤ), ((0 : Amount).toNat : ℤ), 0) : ℤ × ℤ × ℤ) = 0 :=
      rfl
    rw [hnothing, hnothing', Pi.single_zero, Pi.single_zero, add_zero]
    exact .refl ledger
  · obtain ⟨roots, debited, credited, -, hdebit, hcredit, rfl⟩ := (transferStalk_eq_ok hzero).mp h
    exact (debitStalk_shifts hsender hdebit).trans (creditStalk_shifts hrecipient hcredit)

/-! ### The way of a transfer -/

/-- What goes from one account to the other: stalk, roots and value. -/
def TransferReceipt.balances (receipt : TransferReceipt) : ℤ × ℤ × ℤ :=
  (receipt.stalk.toNat, receipt.roots.toNat, receipt.value.toNat)

/-- Quantity and value of what was moved. -/
def TransferReceipt.contents (receipt : TransferReceipt) : ℤ × ℤ :=
  (receipt.quantity.toNat, receipt.value.toNat)

/-- The stalk that some values carry: what they give, and what they have grown since their indices. -/
def Ledger.stalkCarried (ledger : Ledger) (asset : AssetId) (entries : List (Index × Amount)) : ℤ :=
  (entries.map fun e =>
    (e.2.toNat : ℤ) * (ledger.stalkPerValue asset + ledger.tip asset - e.1.toInt)).sum

/-- It can be told from all values together. -/
theorem Ledger.stalkCarried_eq (ledger : Ledger) (asset : AssetId)
    (entries : List (Index × Amount)) : ledger.stalkCarried asset entries =
      valued entries * ledger.stalkPerValue asset +
        (ledger.tip asset * valued entries - indexed entries) := by
  unfold stalkCarried
  induction entries with
  | nil => simp
  | cons entry entries ih =>
    rw [List.map_cons, List.sum_cons, ih, valued_cons, indexed_cons]
    ring

/-- Parcels leave one account and arrive at another, and what is booked for them follows. -/
structure Passes (sender recipient : AccountId) (asset : AssetId) (indices : List Index)
    (amounts values : List Amount) (receipt : TransferReceipt)
    (ledger removed received ledger' : Ledger) : Prop where
  lengths : amounts.length = indices.length ∧ values.length = indices.length
  sends : Sends sender asset ledger removed (indices.zip (amounts.zip values))
  receives : Receives recipient asset removed received (indices.zip (amounts.zip values))
  shifts : Shifts [sender, recipient] asset received ledger'
    (Pi.single sender (-receipt.balances) + Pi.single recipient receipt.balances)
  total : Parcel.total (indices.zip (amounts.zip values)) = receipt.contents
  stalk : (receipt.stalk.toNat : ℤ) = ledger.stalkCarried asset (indices.zip values)

/-- **The way of a transfer**, whether the two accounts differ or not. -/
theorem transferRealized_passes {sender recipient : AccountId} {indices : List Index}
    {amounts : List Amount} {out : Outcome TransferReceipt}
    (h : transferRealized sender recipient asset indices amounts ledger = .ok out) :
    ∃ values removed received,
      Passes sender recipient asset indices amounts values out.result ledger removed received
        out.ledger := by
  obtain ⟨removed, received, entry, carried, debited, credited, handed, hremove, hreceive, hentry,
    hcarried, hdebit, hcredit, hhand, rfl⟩ := transferRealized_stages h
  obtain ⟨hlength, taking⟩ := removeMultiple_taking hremove
  obtain ⟨htotal, hsends⟩ := removeMultiple_sends hremove
  obtain ⟨hgrown, hstalk, -⟩ := stalkOf_spec hcarried
  have hvalue : (removed.result.totalValue.toNat : ℤ) =
      valued (indices.zip removed.result.values) := taking.total.trans (zero_add _)
  have hkeeps := taking.moves.keeps.trans (receiveEach_keeps hreceive)
  have hs : sender ∈ [sender, recipient] := List.mem_cons_self
  have hr : recipient ∈ [sender, recipient] := List.mem_cons_of_mem _ List.mem_cons_self
  have hshifts := (debitValue_shifts hs hdebit).trans
    ((creditValue_shifts hr hcredit).trans (transferStalk_shifts hs hr hhand))
  refine ⟨removed.result.values, removed.ledger, received.ledger,
    ⟨hlength.symm, length_of_removeMultiple hremove⟩, hsends,
    receiveEach_receives hsends.nothing hreceive, ?_, htotal.symm, ?_⟩
  · rwa [← add_assoc, add_add_add_comm, ← Pi.single_add, ← Pi.single_add, Prod.mk_add_mk,
      Prod.mk_add_mk, Prod.mk_add_mk, Prod.mk_add_mk, zero_add, zero_add, zero_add, zero_add,
      add_zero, add_zero] at hshifts
  · rw [Ledger.stalkCarried_eq, ← hkeeps.stalkPerValue, ← hkeeps.tip, Ledger.stalkPerValue_eq hentry,
      Ledger.tip_eq hentry, ← hgrown, ← hvalue]
    exact_mod_cast hstalk

namespace Passes

variable {sender recipient : AccountId} {indices : List Index} {amounts values : List Amount}
  {receipt : TransferReceipt} {removed received ledger' : Ledger}
  (h : Passes sender recipient asset indices amounts values receipt ledger removed received ledger')
include h

/-- After the positions have been received, the current store stays, -/
theorem deposits : ledger'.deposits = received.deposits := by
  rw [h.shifts.rest]

/-- and the legacy store has stayed since they were removed, -/
theorem legacyDeposits : ledger'.legacyDeposits = removed.legacyDeposits := by
  rw [h.shifts.rest]
  exact h.receives.legacy

/-- whichever index is asked for. -/
theorem legacyAt : ledger'.legacyAt = removed.legacyAt :=
  Ledger.legacyAt_congr (h.receives.books.toSameTerms.trans h.shifts.sameTerms) h.legacyDeposits

/-- What leaves and arrives is the same, so the totals held in the asset are the same in the end. -/
theorem books : Rebooks [sender, recipient] asset ledger received 0 := by
  have hs : [sender] ⊆ [sender, recipient] :=
    List.cons_subset_cons sender (List.nil_subset [recipient])
  have hbooks := (h.sends.books.mono hs).trans
    (h.receives.books.mono (List.subset_cons_self sender [recipient]))
  rwa [neg_add_cancel] at hbooks

/-- Each account is shifted by what it gives away and what it receives, so an account that
transfers to itself is not shifted. -/
theorem account (id : AccountId) : (ledger.account id).Shifted asset (ledger'.account id)
      ((Pi.single sender (-receipt.balances) +
        Pi.single recipient receipt.balances : AccountId → ℤ × ℤ × ℤ) id) := by
  have hsame : received.account id = ledger.account id := by
    rw [h.books.rest]
    rfl
  rw [← hsame]
  exact h.shifts.account id

/-- Nothing has changed but accounts and positions. -/
theorem rest : ledger' = { ledger with
    accounts := ledger'.accounts
    deposits := ledger'.deposits
    legacyDeposits := ledger'.legacyDeposits } := by
  rw [h.shifts.rest, h.books.rest, h.books.assets_eq]

end Passes

/-! ### Transfers between two accounts -/

/-- A transfer between two accounts has conserved everything: told of the ledger in which both were
mown, and the ledger afterwards. -/
structure HandsOver (sender recipient : AccountId) (asset : AssetId) (indices : List Index)
    (amounts values : List Amount) (receipt : TransferReceipt) (ledger ledger' : Ledger) : Prop where
  lengths : amounts.length = indices.length ∧ values.length = indices.length
  /-- The sender has given what the parcels from an index hold, out of both stores; -/
  given : ∀ index, ledger'.heldAt ⟨sender, asset, index⟩ = ledger.heldAt ⟨sender, asset, index⟩ -
    Parcel.totalAt index (indices.zip (amounts.zip values))
  /-- the recipient has as much more in the current store. -/
  taken : ∀ index, contents (ledger'.deposits.get? ⟨recipient, asset, index⟩) =
    contents (ledger.deposits.get? ⟨recipient, asset, index⟩) +
      (ledger.heldAt ⟨sender, asset, index⟩ - ledger'.heldAt ⟨sender, asset, index⟩)
  deposits : ∀ slot : Slot Index, slot.owner ∉ [sender, recipient] ∨ slot.asset ≠ asset →
    ledger'.deposits.get? slot = ledger.deposits.get? slot
  legacyDeposits : ∀ slot : Slot Epoch, slot.owner ≠ sender ∨ slot.asset ≠ asset ∨
    (∀ index, ledger.epochAt asset index ≠ some slot.mark) →
    ledger'.legacyDeposits.get? slot = ledger.legacyDeposits.get? slot
  total : Parcel.total (indices.zip (amounts.zip values)) = receipt.contents
  stalk : (receipt.stalk.toNat : ℤ) = ledger.stalkCarried asset (indices.zip values)
  /-- The balances of the one fall by what those of the other rise by. -/
  debited : (ledger.account sender).Shifted asset (ledger'.account sender) (-receipt.balances)
  credited : (ledger.account recipient).Shifted asset (ledger'.account recipient) receipt.balances
  accounts : ∀ id, id ∉ [sender, recipient] →
    ledger'.accounts.get? id = ledger.accounts.get? id
  /-- The registry with the totals of the assets, the totals with the earned pool, and the book of
  floods have not changed. -/
  rest : ledger' = { ledger with
    accounts := ledger'.accounts
    deposits := ledger'.deposits
    legacyDeposits := ledger'.legacyDeposits }

/-- Between two accounts, what the way of a transfer has done at each of its stages comes to a
handing over. -/
theorem Passes.handsOver {sender recipient : AccountId} {indices : List Index}
    {amounts values : List Amount} {receipt : TransferReceipt} {removed received ledger' : Ledger}
    (h : Passes sender recipient asset indices amounts values receipt ledger removed received ledger')
    (hne : sender ≠ recipient) :
    HandsOver sender recipient asset indices amounts values receipt ledger ledger' := by
  have hgiven (index : Index) : ledger'.heldAt ⟨sender, asset, index⟩ =
      ledger.heldAt ⟨sender, asset, index⟩ -
        Parcel.totalAt index (indices.zip (amounts.zip values)) := by
    have hsame := h.receives.books.deposits ⟨sender, asset, index⟩
      (.inl (List.not_mem_cons_of_ne_of_not_mem hne List.not_mem_nil))
    rw [Ledger.heldAt, h.deposits, hsame, h.legacyAt, ← Ledger.heldAt]
    exact (h.sends.yields index).held
  refine { h with
    given := hgiven
    taken := fun index => ?_
    deposits := fun slot hslot => ?_
    legacyDeposits := fun slot hslot => ?_
    debited := ?_
    credited := ?_
    accounts := fun id hid => ?_
    rest := h.rest }
  · have hsame := h.sends.books.deposits ⟨recipient, asset, index⟩
      (.inl (List.not_mem_cons_of_ne_of_not_mem hne.symm List.not_mem_nil))
    rw [hgiven, sub_sub_cancel, h.deposits, h.receives.current, hsame]
  · rw [h.deposits]
    exact h.books.deposits slot hslot
  · rw [h.legacyDeposits]
    exact h.sends.books.legacyDeposits slot
      (hslot.imp_left fun hn => List.not_mem_cons_of_ne_of_not_mem hn List.not_mem_nil)
  · have hdebited := h.account sender
    rwa [Pi.add_apply, Pi.single_eq_same, Pi.single_eq_of_ne hne, add_zero] at hdebited
  · have hcredited := h.account recipient
    rwa [Pi.add_apply, Pi.single_eq_same, Pi.single_eq_of_ne hne.symm, zero_add] at hcredited
  · rw [h.shifts.others id hid, h.books.rest]

namespace Vault

variable {vault : Vault}

/-- A mowing that takes place is answered. -/
theorem mow_answered {mown : Outcome Amount} (hentered : vault.entered = false)
    (h : mow id asset vault.ledger = .ok mown) :
    serve (.mow id asset) vault = (⟨.ok (.amount mown.result), none, mown.events⟩,
      { vault with ledger := mown.ledger, log := vault.log ++ mown.events }) := by
  rw [serve, transact_eq hentered, h]
  rfl

/-- So are two mowings, one after the other. -/
theorem mows_answered {id' : AccountId} {mown mown' : Outcome Amount}
    (hentered : vault.entered = false) (h : mow id asset vault.ledger = .ok mown)
    (h' : mow id' asset mown.ledger = .ok mown') :
    serve (.mow id' asset) (serve (.mow id asset) vault).2 =
      (⟨.ok (.amount mown'.result), none, mown'.events⟩,
        { vault with ledger := mown'.ledger, log := vault.log ++ mown.events ++ mown'.events }) := by
  rw [mow_answered hentered h]
  exact mow_answered hentered h'

/-- A transfer that is answered has taken place. -/
theorem transfer_of_answer {sender recipient : AccountId} {indices : List Index}
    {amounts : List Amount} {answer : Answer} (hentered : vault.entered = false)
    (h : (serve (.transfer sender recipient asset indices amounts) vault).1.result = .ok answer) :
    ∃ out, Action.transfer sender recipient asset indices amounts vault.ledger = .ok out ∧
      answer = .transferred out.result ∧
        (serve (.transfer sender recipient asset indices amounts) vault).2 =
          { vault with ledger := out.ledger, log := vault.log ++ out.events } := by
  rw [serve, transact_eq hentered] at h ⊢
  cases hrun : Action.transfer sender recipient asset indices amounts vault.ledger with
  | error fault =>
    rw [hrun] at h
    cases h
  | ok out =>
    rw [hrun] at h
    exact ⟨out, rfl, (Except.ok.inj h).symm, rfl⟩

/-- **Transfers conserve everything.**  After any requests to a new vault, take a transfer between two
accounts that is answered.  Then both accounts could have been mown, and compared with that: at each
index, in both stores together, the sender has less by what the parcels from there hold, and the
recipient has as much more in the current store; stalk of the values at their indices goes from the
one to the other, with roots and the value booked; and nothing else has changed. -/
theorem transfers_conserve {charter : Charter} {start : Vault} (h : genesis charter = .ok start)
    (requests : List Request) {sender recipient : AccountId} {asset : AssetId}
    {indices : List Index} {amounts : List Amount} {answer : Answer} (hne : sender ≠ recipient)
    (hanswer : (serve (.transfer sender recipient asset indices amounts)
      (run requests start).2).1.result = .ok answer) :
    let vault := (run requests start).2
    let mown := serve (.mow sender asset) vault
    let mown' := serve (.mow recipient asset) mown.2
    ∃ grown grown' receipt values, mown.1.result = .ok (.amount grown) ∧
      mown'.1.result = .ok (.amount grown') ∧ answer = .transferred receipt ∧
        HandsOver sender recipient asset indices amounts values receipt mown'.2.ledger
          (serve (.transfer sender recipient asset indices amounts) vault).2.ledger := by
  intro vault mown mown'
  obtain ⟨-, hentered⟩ := orderly h requests
  obtain ⟨out, htransfer, hreceipt, hafter⟩ := transfer_of_answer hentered hanswer
  obtain ⟨first, second, moved, hfirst, hsecond, hmoved, rfl⟩ := transfer_stages htransfer
  obtain ⟨values, removed, received, hpasses⟩ := transferRealized_passes hmoved
  have hmown : mown.1.result = .ok (.amount first.result) :=
    congrArg (·.1.result) (mow_answered hentered hfirst)
  have hmown' := mows_answered hentered hfirst hsecond
  refine ⟨first.result, second.result, moved.result, values, hmown,
    congrArg (·.1.result) hmown', hreceipt, ?_⟩
  rw [hafter, show mown'.2.ledger = second.ledger from congrArg (·.2.ledger) hmown']
  exact hpasses.handsOver hne

/-- Account 7 hands over what it has at index 0, and most of what it has at index -8 in both stores, in
two parts and a third of nothing. -/
theorem transfers_conserve_split : genesis ⟨10, 10, 0, 9⟩ = .ok sample ∧ (7 : AccountId) ≠ 8 ∧
    ∃ answer, (serve (.transfer 7 8 1 [.ofInt (-8), 0, .ofInt (-8), .ofInt (-8)] [3, 7, 12, 0])
        (run splitRequests sample).2).1.result = .ok answer ∧
      ∃ grown grown' receipt values,
        (serve (.mow 7 1) (run splitRequests sample).2).1.result = .ok (.amount grown) ∧
        (serve (.mow 8 1) (serve (.mow 7 1) (run splitRequests sample).2).2).1.result =
          .ok (.amount grown') ∧
        answer = .transferred receipt ∧
        HandsOver 7 8 1 [.ofInt (-8), 0, .ofInt (-8), .ofInt (-8)] [3, 7, 12, 0] values receipt
          (serve (.mow 8 1) (serve (.mow 7 1) (run splitRequests sample).2).2).2.ledger
          (serve (.transfer 7 8 1 [.ofInt (-8), 0, .ofInt (-8), .ofInt (-8)] [3, 7, 12, 0])
            (run splitRequests sample).2).2.ledger := by
  have hne : (7 : AccountId) ≠ 8 := by decide
  have hok : (serve (.transfer 7 8 1 [.ofInt (-8), 0, .ofInt (-8), .ofInt (-8)] [3, 7, 12, 0])
      (run splitRequests sample).2).1.result.toOption.isSome = true := by decide +kernel
  obtain ⟨answer, hanswer⟩ := exists_ok hok
  exact ⟨genesis_sample, hne, answer, hanswer,
    transfers_conserve genesis_sample splitRequests hne hanswer⟩

end Vault

end StalkLedger
