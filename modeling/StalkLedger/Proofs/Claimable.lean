import StalkLedger.Proofs.Totals

/-!
# Floods can always be settled and claimed

An account settles before anything else is done with it, so an account that could not settle would be
stuck.  In a solvent ledger this does not happen: what an account is owed is covered by what was paid
in, so every amount on the way is in range, and every flood that a share names is in the book.

* Updating and settling succeed (`Ledger.Solvent.updateAccount_succeeds`,
  `Ledger.Solvent.settleFloods_succeeds`).
* After an update the claimable amount is the balance that was told before
  (`Ledger.Solvent.claimable_of_update`), and it can be added to what has been claimed.

So a claim pays out the balance, or there is none (`Vault.claim_succeeds`).
-/

namespace StalkLedger

open StalkLedger.Action
open FloodBook (scale scale_pos settle_spec)

namespace Ledger.Solvent

variable {ledger : Ledger}

/-! ### Settling -/

/-- **Updating** an account succeeds, in whatever epoch it was updated last. -/
theorem updateAccount_succeeds (h : ledger.Solvent) (id : AccountId) :
    ∃ out, updateAccount id ledger = .ok out := by
  by_cases hle : ledger.epoch ≤ (ledger.account id).lastUpdate
  · exact ⟨_, updateAccount_eq_ok.mpr (.inl ⟨hle, rfl⟩)⟩
  · obtain ⟨flood, hsettle, -⟩ := settle_spec h.book (h.account id).share (h.owing_lt id)
    exact ⟨_, updateAccount_eq_ok.mpr (.inr ⟨Nat.not_le.mp hle, flood, hsettle, rfl⟩)⟩

/-- **Settling** an account succeeds, whether or not it has been updated in this epoch. -/
theorem settleFloods_succeeds (h : ledger.Solvent) (id : AccountId) :
    ∃ out, settleFloods id ledger = .ok out := by
  obtain ⟨flood, hsettle, -⟩ := settle_spec h.book (h.account id).share (h.owing_lt id)
  exact ⟨_, ledger_bind.mpr (lift_bind.mpr ⟨flood, hsettle, setAccount_eq_ok.mpr rfl⟩)⟩

/-- What an account can claim after an update is the balance before it. -/
theorem claimable_of_update (h : ledger.Solvent) {id : AccountId} {out : Outcome Unit}
    (hu : updateAccount id ledger = .ok out) :
    ledger.floodBalance id = .ok (out.ledger.account id).flood.claimable := by
  have hrefreshed (account : Account) :
      (ledger.withAccount id account).account id = account := by
    rw [account_withAccount, if_pos rfl]
  cases hget : ledger.accounts.get? id with
  | none =>
    have hfresh : ledger.account id = .fresh := by rw [Ledger.account, hget, Option.getD_none]
    have hnone : ledger.floodBalance id = .ok 0 := by rw [floodBalance, hget]
    rw [hnone]
    rcases updateAccount_eq_ok.mp hu with ⟨-, rfl⟩ | ⟨-, flood, hsettle, rfl⟩
    · rw [hrefreshed, hfresh]
      rfl
    · -- Nothing is owed to an account that was never touched, so nothing comes of settling it.
      obtain ⟨share, hshare, hsettled⟩ := settle_spec h.book (h.account id).share (h.owing_lt id)
      obtain rfl := Except.ok.inj (hsettle.symm.trans hshare)
      have hle := hsettled.rounded.1
      rw [hfresh, owing_fresh] at hle
      have hzero : flood.claimable.toNat = 0 := by
        have := nonpos_of_mul_nonpos_right hle scale_pos
        omega
      rw [hrefreshed]
      exact congrArg Except.ok (Unsigned.ext hzero.symm)
  | some account =>
    rw [floodBalance, hget]
    dsimp only
    rcases updateAccount_eq_ok.mp hu with ⟨hle, rfl⟩ | ⟨hlt, flood, hsettle, rfl⟩
    · rw [account_of_get? hget] at hle ⊢
      rw [if_pos hle, hrefreshed]
    · rw [account_of_get? hget] at hlt hsettle ⊢
      have hidle : ¬ ledger.epoch ≤ account.lastUpdate := Nat.not_le.mpr hlt
      rw [if_neg hidle, hsettle, hrefreshed]
      rfl

/-! ### Claiming -/

/-- What an updated account can claim has not been claimed, so both together are covered. -/
theorem claimable_fits (h : ledger.Solvent) {id : AccountId} (hu : ledger.Updated id) :
    ledger.floodBook.totalClaimed.toNat + (ledger.account id).flood.claimable.toNat < 2 ^ 128 := by
  obtain ⟨htracked, hcheckpoint⟩ := (h.account id).settled hu.le
  have howing := h.owing_le_sum id
  rw [h.book.owing_of_settled htracked hcheckpoint] at howing
  have hcovered : scale * (ledger.floodBook.totalClaimed.toNat +
      (ledger.account id).flood.claimable.toNat : ℤ) ≤ scale * ledger.floodBook.totalPaid.toNat := by
    have hwaiting : 0 ≤ scale * (ledger.floodBook.unallocated.toNat : ℤ) :=
      mul_nonneg scale_pos.le (Int.natCast_nonneg _)
    linarith [h.funded]
  have hle := le_of_mul_le_mul_left hcovered scale_pos
  have hlt := ledger.floodBook.totalPaid.toNat_lt
  omega

/-- **A claim** pays out the balance; without one there is nothing to claim. -/
theorem claimFlood_spec (h : ledger.Solvent) {id : AccountId} {balance : Amount}
    (hbalance : ledger.floodBalance id = .ok balance) :
    if balance = 0 then claimFlood id ledger = .error (.nothingToClaim id)
    else ∃ out, claimFlood id ledger = .ok out ∧ out.result = balance := by
  obtain ⟨updated, hu⟩ := h.updateAccount_succeeds id
  have hclaimable := h.claimable_of_update hu
  obtain rfl := Except.ok.inj (hbalance.symm.trans hclaimable)
  have hsolvent := ((Move.update hu).drift.solvent h).1
  have hfits := hsolvent.claimable_fits (updateAccount_updated hu)
  split
  next hzero =>
    refine bind_apply_error.mpr (.inr ⟨updated, hu, ?_⟩)
    refine bind_apply_error.mpr (.inr ⟨_, rfl, ?_⟩)
    simp only [if_pos hzero]
    rfl
  next hne =>
    refine ⟨⟨_, updated.ledger.claimed id ⟨_, hfits⟩, ⟨[.floodPayoutClaimed id
      updated.ledger.charter.floodAsset (updated.ledger.account id).flood.claimable
        updated.ledger.epoch]⟩⟩, ?_, rfl⟩
    refine (updateAccount_silent id).bind.mpr ⟨updated, hu, ledger_bind.mpr ?_⟩
    dsimp only
    rw [if_neg hne]
    exact lift_bind.mpr ⟨⟨_, hfits⟩, Unsigned.add_eq_ok.mpr rfl, setAccount_bind.mpr
      (setFloodBook_bind.mpr (bind_pure_eq_ok.mpr ⟨_, emit_eq_ok.mpr rfl, rfl⟩))⟩

end Ledger.Solvent

namespace Vault

/-- What is replied to a claim whose transfer is accepted, whatever calls it makes. -/
theorem claim_result {vault : Vault} (hentered : vault.entered = false) (hs : vault.ledger.Solvent)
    {id : AccountId} {balance : Amount} (hbalance : vault.ledger.floodBalance id = .ok balance)
    (inner : List Call) : (serve (.claim id true inner) vault).1.result =
      if balance = 0 then .error (.nothingToClaim id) else .ok (.amount balance) := by
  have hclaim := hs.claimFlood_spec hbalance
  rw [serve_claim, Vault.claim, Reply.result_ofPaying]
  split
  next hzero =>
    rw [if_pos hzero] at hclaim
    rw [transactPaying_of_error hentered hclaim]
    rfl
  next hne =>
    rw [if_neg hne] at hclaim
    obtain ⟨out, hout, rfl⟩ := hclaim
    obtain ⟨report, hreply⟩ := transactPaying_accepted
      (fun amount => ⟨vault.ledger.charter.floodAsset, id, amount⟩) inner hentered hout hne
    rw [hreply]
    rfl

/-- **Settling never gets stuck.**  After any requests to a new vault, the flood balance of every
account can be told; the account can be updated, which makes that balance claimable, and it can be
settled at any time; and a claim whose transfer is accepted pays out exactly that balance, or, if the
balance is zero, replies that there is nothing to claim. -/
theorem claim_succeeds {charter : Charter} {start : Vault} (h : genesis charter = .ok start)
    (requests : List Request) (id : AccountId) :
    let vault := (run requests start).2
    ∃ balance : Amount, vault.ledger.floodBalance id = .ok balance ∧
      (∃ out, updateAccount id vault.ledger = .ok out ∧
        (out.ledger.account id).flood.claimable = balance) ∧
      (∃ out, settleFloods id vault.ledger = .ok out) ∧
      ∀ inner, (serve (.claim id true inner) vault).1.result =
        if balance = 0 then .error (.nothingToClaim id) else .ok (.amount balance) := by
  intro vault
  obtain ⟨hledger, hentered⟩ := orderly h requests
  have hsolvent : vault.ledger.Solvent := hledger.solvent
  obtain ⟨updated, hu⟩ := hsolvent.updateAccount_succeeds id
  have hbalance := hsolvent.claimable_of_update hu
  exact ⟨_, hbalance, ⟨updated, hu, rfl⟩, hsolvent.settleFloods_succeeds id,
    claim_result hentered hsolvent hbalance⟩

theorem claim_succeeds_sample : genesis ⟨10, 10, 0, 9⟩ = .ok sample ∧
    let vault := (run sampleRequests sample).2
    vault.ledger.floodBalance 7 = .ok 444 ∧ ∃ balance : Amount,
      vault.ledger.floodBalance 7 = .ok balance ∧
      (∃ out, updateAccount 7 vault.ledger = .ok out ∧
        (out.ledger.account 7).flood.claimable = balance) ∧
      (∃ out, settleFloods 7 vault.ledger = .ok out) ∧
      ∀ inner, (serve (.claim 7 true inner) vault).1.result =
        if balance = 0 then .error (.nothingToClaim 7) else .ok (.amount balance) :=
  ⟨genesis_sample, by decide +kernel, claim_succeeds genesis_sample sampleRequests 7⟩

end Vault

end StalkLedger
