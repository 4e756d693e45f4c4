import StalkLedger.Proofs.Transfer

/-!
# Transfers to oneself

If sender and recipient are one account, what leaves its stores comes back at the same indices.  Its
balances fall and rise by the same amounts, and what it had in the current store is there again.  Only
what came out of the legacy store does not go back there: it stays in the current store.

* At each index the legacy store is drawn on for what the current one falls short of, and the current
  store has that much more afterwards (`Ledger.Resettled`).
* **A transfer to oneself changes nothing** but that (`Vault.self_transfer_keeps`), and nothing at all
  if the current store serves every entry (`Ledger.currentServes`).
-/

namespace StalkLedger

open StalkLedger.Action
open Position (contents)

/-! ### What is asked for at an index -/

/-- The quantity that some entries ask for at an index. -/
def askedAt (index : Index) (entries : List (Index × Amount)) : ℤ :=
  valued (entries.filter fun entry => entry.1 = index)

theorem askedAt_cons (index : Index) (entry : Index × Amount) (entries : List (Index × Amount)) :
    askedAt index (entry :: entries) =
      (if entry.1 = index then (entry.2.toNat : ℤ) else 0) + askedAt index entries := by
  unfold askedAt
  by_cases h : entry.1 = index
  · rw [List.filter_cons_of_pos (by simpa using h), valued_cons, if_pos h]
  · rw [List.filter_cons_of_neg (by simpa using h), if_neg h, zero_add]

/-- What leaves at an index is what is asked for there. -/
theorem Parcel.fst_totalAt (index : Index) {indices : List Index} {amounts values : List Amount}
    (h : values.length = amounts.length) :
    (totalAt index (indices.zip (amounts.zip values))).1 = askedAt index (indices.zip amounts) := by
  induction indices generalizing amounts values with
  | nil => rfl
  | cons first indices ih =>
    cases amounts with
    | nil => rfl
    | cons amount amounts =>
      cases values with
      | nil => cases h
      | cons value values =>
        rw [List.zip_cons_cons, List.zip_cons_cons, List.zip_cons_cons, totalAt_cons, askedAt_cons,
          Prod.fst_add, ih (Nat.succ.inj h)]
        split <;> rfl

namespace Ledger

/-- Whether the current store serves some entries: each of them, in its turn, asks for no more than
is left there. -/
def currentServes (owner : AccountId) (asset : AssetId) :
    List (Index × Amount) → Ledger → Bool
  | [], _ => true
  | (index, amount) :: entries, ledger =>
    decide (amount ≤ ledger.quantityAt owner asset index) &&
      match removePosition ⟨owner, asset, index⟩ amount ledger with
      | .ok out => currentServes owner asset entries out.ledger
      | .error _ => false

/-- Then they ask for no more than is there, all together: the induction is on the entries, and each
of them leaves at its index what it has not asked for. -/
theorem askedAt_le_of_currentServes {owner : AccountId} {asset : AssetId}
    {entries : List (Index × Amount)} {ledger : Ledger}
    (h : currentServes owner asset entries ledger = true) (index : Index) :
    askedAt index entries ≤ (contents (ledger.deposits.get? ⟨owner, asset, index⟩)).1 := by
  induction entries generalizing ledger with
  | nil => exact (Position.contents_nonneg _).1
  | cons entry entries ih =>
    obtain ⟨first, amount⟩ := entry
    rw [currentServes, Bool.and_eq_true, decide_eq_true_eq, Unsigned.le_iff] at h
    obtain ⟨hserved, hrest⟩ := h
    cases hrun : removePosition ⟨owner, asset, first⟩ amount ledger with
    | error fault =>
      rw [hrun] at hrest
      cases hrest
    | ok out =>
      rw [hrun] at hrest
      have hleft := (removePosition_yields hrun index).current
      have hle := ih hrest
      rw [hleft] at hle
      have hnonneg := (Position.contents_nonneg (ledger.deposits.get? ⟨owner, asset, index⟩)).1
      rw [askedAt_cons]
      by_cases hindex : first = index
      · subst hindex
        have hquantity := ledger.quantity_contents ⟨owner, asset, first⟩
        dsimp only at hquantity hle ⊢
        rw [if_pos rfl] at hle ⊢
        simp only [Parcel.contents] at hle
        omega
      · dsimp only at hle ⊢
        rw [if_neg hindex] at hle ⊢
        simp only [Prod.fst_zero] at hle hnonneg
        omega

/-! ### What comes from the legacy store -/

/-- Something has been drawn from the legacy position at an index and is in the current one now: as
much of the quantity asked for as the current one fell short of. -/
structure Resettled (ledger ledger' : Ledger) (slot : Slot Index) (asked : ℤ) (drawn : ℤ × ℤ) :
    Prop where
  nonneg : 0 ≤ drawn
  shortfall : drawn.1 =
    max 0 (asked - (ledger.quantityAt slot.owner slot.asset slot.mark).toNat)
  current : contents (ledger'.deposits.get? slot) = contents (ledger.deposits.get? slot) + drawn
  legacy : contents (ledger'.legacyAt slot) = contents (ledger.legacyAt slot) - drawn
  /-- Where nothing was drawn, both positions are as before. -/
  same : drawn.1 = 0 → ledger'.deposits.get? slot = ledger.deposits.get? slot ∧
    ledger'.legacyAt slot = ledger.legacyAt slot

/-- That has happened at the indices of an account in an asset, for what some entries ask for there,
and nothing else has. -/
structure Resettles (owner : AccountId) (asset : AssetId) (entries : List (Index × Amount))
    (ledger ledger' : Ledger) : Prop where
  each : ∀ index, ∃ drawn,
    Resettled ledger ledger' ⟨owner, asset, index⟩ (askedAt index entries) drawn
  deposits : ∀ slot : Slot Index, slot.owner ≠ owner ∨ slot.asset ≠ asset →
    ledger'.deposits.get? slot = ledger.deposits.get? slot
  legacyDeposits : ∀ slot : Slot Epoch, slot.owner ≠ owner ∨ slot.asset ≠ asset ∨
    (∀ index, ledger.epochAt asset index ≠ some slot.mark) →
    ledger'.legacyDeposits.get? slot = ledger.legacyDeposits.get? slot
  rest : ledger' = { ledger with
    deposits := ledger'.deposits
    legacyDeposits := ledger'.legacyDeposits }

namespace Resettles

variable {owner : AccountId} {asset : AssetId} {entries : List (Index × Amount)}
  {ledger ledger' : Ledger}

/-- Where the current store falls short of nothing, nothing is drawn, and both positions at an index
are as before. -/
theorem at_index (h : Resettles owner asset entries ledger ledger')
    (hs : ledger.currentServes owner asset entries = true) (index : Index) :
    ledger'.deposits.get? ⟨owner, asset, index⟩ = ledger.deposits.get? ⟨owner, asset, index⟩ ∧
      ledger'.legacyAt ⟨owner, asset, index⟩ = ledger.legacyAt ⟨owner, asset, index⟩ := by
  obtain ⟨drawn, hdrawn⟩ := h.each index
  refine hdrawn.same ?_
  have hle := askedAt_le_of_currentServes hs index
  rw [quantity_contents] at hle
  rw [hdrawn.shortfall]
  exact max_eq_left (sub_nonpos.mpr hle)

/-- Then the ledger is as before. -/
theorem eq_of_currentServes (h : Resettles owner asset entries ledger ledger')
    (hs : ledger.currentServes owner asset entries = true) : ledger' = ledger := by
  have hterms : SameTerms ledger ledger' := by
    rw [h.rest]
    exact ⟨rfl, fun _ => rfl⟩
  have hdeposits : ledger'.deposits = ledger.deposits := SortedMap.ext_get? fun slot => by
    by_cases hslot : slot.owner ≠ owner ∨ slot.asset ≠ asset
    · exact h.deposits slot hslot
    · obtain ⟨rfl, rfl⟩ := not_or.mp hslot |>.imp not_not.mp not_not.mp
      exact (h.at_index hs slot.mark).1
  have hlegacy : ledger'.legacyDeposits = ledger.legacyDeposits := SortedMap.ext_get? fun slot => by
    by_cases hslot : slot.owner ≠ owner ∨ slot.asset ≠ asset ∨
        ∀ index, ledger.epochAt asset index ≠ some slot.mark
    · exact h.legacyDeposits slot hslot
    · -- A legacy epoch that is looked up is looked up at one of the indices.
      simp only [not_or, not_not, not_forall] at hslot
      obtain ⟨rfl, rfl, index, hepoch⟩ := hslot
      have hsame := (h.at_index hs index).2
      rw [legacyAt, legacyAt, hterms.epochAt] at hsame
      dsimp only at hsame
      rwa [hepoch] at hsame
  rw [h.rest, hdeposits, hlegacy]

end Resettles

end Ledger

variable {ledger removed received ledger' : Ledger} {owner : AccountId} {asset : AssetId}
  {indices : List Index} {amounts values : List Amount} {receipt : TransferReceipt}

namespace Passes

variable (h : Passes owner owner asset indices amounts values receipt ledger removed received ledger')
include h

/-- The account of who transfers to itself is as before. -/
theorem accounts_eq (hc : ledger.Current owner asset) (hc' : ledger'.Current owner asset) :
    ledger'.accounts = ledger.accounts := by
  refine SortedMap.ext_get? fun id => ?_
  by_cases hid : id = owner
  · subst hid
    obtain ⟨account, _, _, haccount, -, hcheckpoint, -, -⟩ := hc
    obtain ⟨account', _, _, haccount', -, hcheckpoint', -, -⟩ := hc'
    have hshifted := h.account id
    rw [Pi.add_apply, Pi.single_eq_same, Pi.single_eq_same, neg_add_cancel,
      Ledger.account_of_get? haccount, Ledger.account_of_get? haccount'] at hshifted
    rw [haccount, haccount', hshifted.eq_of_zero hcheckpoint hcheckpoint']
  · rw [h.shifts.others id (by simp [hid]), h.books.rest]

/-- What left comes back to the current store, wherever it was before. -/
theorem resettled (hl : ledger.Housed) (hl' : ledger'.Housed) (index : Index) :
    ∃ drawn, Ledger.Resettled ledger ledger' ⟨owner, asset, index⟩
      (askedAt index (indices.zip amounts)) drawn := by
  have hyields := h.sends.yields index
  have hback := h.receives.current index
  rw [← h.deposits] at hback
  rw [← Parcel.fst_totalAt index (h.lengths.2.trans h.lengths.1.symm)]
  have hlegacy := hyields.legacy
  have hspared := hyields.spared
  have hheld := hyields.held
  rw [Ledger.heldAt, Ledger.heldAt] at hheld
  rw [← h.legacyAt] at hlegacy hspared hheld
  have hcurrent : contents (ledger'.deposits.get? ⟨owner, asset, index⟩) =
      contents (ledger.deposits.get? ⟨owner, asset, index⟩) +
        (contents (ledger.legacyAt ⟨owner, asset, index⟩) -
          contents (ledger'.legacyAt ⟨owner, asset, index⟩)) := by
    rw [hback, eq_sub_of_add_eq hheld]
    abel
  refine ⟨_, sub_nonneg.mpr hlegacy, ?_, hcurrent, (sub_sub_cancel _ _).symm, fun hzero => ?_⟩
  · have hleft := hyields.current
    have hquantity := ledger.quantity_contents ⟨owner, asset, index⟩
    have hsum := congrArg Prod.fst hheld
    simp only [Prod.fst_add, Prod.fst_sub] at hsum ⊢
    dsimp only at hquantity ⊢
    omega
  · have hsame := hspared (sub_eq_zero.mp hzero).symm
    refine ⟨Position.eq_of_contents ?_ ?_ ?_, hsame⟩
    · rw [hcurrent, hsame, sub_self, add_zero]
    · exact fun position hposition => (hl.deposits _ _ hposition).1
    · exact fun position hposition => (hl'.deposits _ _ hposition).1

theorem resettles (hl : ledger.Housed) (hl' : ledger'.Housed)
    (hc : ledger.Current owner asset) (hc' : ledger'.Current owner asset) :
    ledger.Resettles owner asset (indices.zip amounts) ledger' := by
  refine ⟨h.resettled hl hl', fun slot hslot => ?_, fun slot hslot => ?_, ?_⟩
  · rw [h.deposits]
    exact h.books.deposits slot (hslot.imp_left fun hne => by simp [hne])
  · rw [h.legacyDeposits]
    exact h.sends.books.legacyDeposits slot
      (hslot.imp_left fun hne => List.not_mem_cons_of_ne_of_not_mem hne List.not_mem_nil)
  · have hrest := h.rest
    rwa [h.accounts_eq hc hc'] at hrest

end Passes

namespace Vault

/-- **A transfer to oneself changes nothing.**  After any requests to a new vault, take a transfer of
an account to itself that is answered.  Then the account could have been mown; and if the current
store serves every entry of the transfer, the vault is left as mowing would leave it, but for what is
recorded.  In any case the only difference is that what was taken out of legacy positions is in the
current store at the same indices. -/
theorem self_transfer_keeps {charter : Charter} {start : Vault} (h : genesis charter = .ok start)
    (requests : List Request) {owner : AccountId} {asset : AssetId} {indices : List Index}
    {amounts : List Amount} {answer : Answer}
    (hanswer : (serve (.transfer owner owner asset indices amounts)
      (run requests start).2).1.result = .ok answer) :
    let vault := (run requests start).2
    let mown := serve (.mow owner asset) vault
    let after := (serve (.transfer owner owner asset indices amounts) vault).2
    ∃ grown, mown.1.result = .ok (.amount grown) ∧
      (mown.2.ledger.currentServes owner asset (indices.zip amounts) = true →
        after = { mown.2 with log := after.log }) ∧
      after = { mown.2 with ledger := after.ledger, log := after.log } ∧
      mown.2.ledger.Resettles owner asset (indices.zip amounts) after.ledger := by
  intro vault mown after
  obtain ⟨horderly, hentered⟩ := orderly h requests
  obtain ⟨out, htransfer, -, hafter⟩ := transfer_of_answer hentered hanswer
  obtain ⟨first, second, moved, hfirst, hsecond, hmoved, rfl⟩ := transfer_stages htransfer
  -- The second mowing finds the account current.
  obtain ⟨-, hcurrent⟩ := mow_moves hfirst
  rw [mow_of_current hcurrent] at hsecond
  obtain rfl := Except.ok.inj hsecond
  obtain ⟨values, removed, received, hpasses⟩ := transferRealized_passes hmoved
  have hmoves := transferRealized_moves hcurrent hcurrent hmoved
  have hmown := horderly.of_mow hfirst
  have hresettles := hpasses.resettles hmown.consistent.housed
    (hmown.moves hmoves).consistent.housed hcurrent (hmoves.keeps.current hcurrent)
  have hserved := mow_answered hentered hfirst
  have hledger : mown.2.ledger = first.ledger := congrArg (·.2.ledger) hserved
  have hledger' : after.ledger = moved.ledger := congrArg (·.ledger) hafter
  rw [← hledger, ← hledger'] at hresettles
  have hvault : after = { mown.2 with ledger := after.ledger, log := after.log } := by
    rw [show after = _ from hafter, show mown.2 = _ from congrArg (·.2) hserved]
  refine ⟨first.result, congrArg (·.1.result) hserved, fun hs => ?_, hvault, hresettles⟩
  calc after = { mown.2 with ledger := after.ledger, log := after.log } := hvault
    _ = { mown.2 with ledger := mown.2.ledger, log := after.log } := by
      rw [hresettles.eq_of_currentServes hs]
    _ = { mown.2 with log := after.log } := rfl

/-- Account 7 holds 5 at index -8 in the current store, and more in the legacy store.  Handing itself
3 and 2 of it changes nothing; handing itself 18 moves what the current store falls short of. -/
theorem self_transfer_keeps_split : genesis ⟨10, 10, 0, 9⟩ = .ok sample ∧
    (∃ answer, (serve (.transfer 7 7 1 [.ofInt (-8), 0, .ofInt (-8)] [3, 7, 2])
        (run splitRequests sample).2).1.result = .ok answer ∧
      (serve (.transfer 7 7 1 [.ofInt (-8), 0, .ofInt (-8)] [3, 7, 2])
          (run splitRequests sample).2).2 =
        { (serve (.mow 7 1) (run splitRequests sample).2).2 with
          log := (serve (.transfer 7 7 1 [.ofInt (-8), 0, .ofInt (-8)] [3, 7, 2])
            (run splitRequests sample).2).2.log }) ∧
    ∃ answer, (serve (.transfer 7 7 1 [.ofInt (-8)] [18])
        (run splitRequests sample).2).1.result = .ok answer ∧
      (serve (.mow 7 1) (run splitRequests sample).2).2.ledger.currentServes 7 1
        [(.ofInt (-8), 18)] = false ∧
      (serve (.mow 7 1) (run splitRequests sample).2).2.ledger.Resettles 7 1 [(.ofInt (-8), 18)]
        (serve (.transfer 7 7 1 [.ofInt (-8)] [18]) (run splitRequests sample).2).2.ledger := by
  have hserved : (serve (.mow 7 1) (run splitRequests sample).2).2.ledger.currentServes 7 1
      [(.ofInt (-8), 3), (0, 7), (.ofInt (-8), 2)] = true := by decide +kernel
  have hok : (serve (.transfer 7 7 1 [.ofInt (-8), 0, .ofInt (-8)] [3, 7, 2])
      (run splitRequests sample).2).1.result.toOption.isSome = true := by decide +kernel
  have hok' : (serve (.transfer 7 7 1 [.ofInt (-8)] [18])
      (run splitRequests sample).2).1.result.toOption.isSome = true := by decide +kernel
  obtain ⟨answer, hanswer⟩ := exists_ok hok
  obtain ⟨_, -, hkeeps, -⟩ := self_transfer_keeps genesis_sample splitRequests hanswer
  obtain ⟨answer', hanswer'⟩ := exists_ok hok'
  obtain ⟨_, -, -, -, hresettles⟩ := self_transfer_keeps genesis_sample splitRequests hanswer'
  exact ⟨genesis_sample, ⟨answer, hanswer, hkeeps hserved⟩, answer', hanswer', by decide +kernel,
    hresettles⟩

end Vault

end StalkLedger
