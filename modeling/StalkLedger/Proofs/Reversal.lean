import StalkLedger.Proofs.Dilution

/-!
# Minting and burning back

Roots are minted at one ratio of the totals, rounded down, and burned at the ratio that the minting
has left, rounded up, but never more of them than the account has.  The two roundings fall on the
same side, that of the ledger.

* **The two ratios are as good as one** (`roots_of_burn`): what is burned with the stalk that was
  just minted is what was minted with it, or one root more.
* A holder who had no root before cannot be asked for the one more (`rootsForBurn_of_mint`).

So **minting and burning back** (`mint_burn_reverts`) puts all stalk back where it was, and costs
the account, and the totals with it, one root at most.
-/

namespace StalkLedger

open StalkLedger.Action

/-! ### The two roundings -/

/-- **Burning right after minting**: with totals `R` and `S` before, and `m` roots minted with `s`
stalk, the roots that go with `s` stalk afterwards are `m` or one more. -/
theorem roots_of_burn {R S s m : ℕ} (hS : 0 < S) (hm : m = R * s / S) :
    m ≤ ((R + m) * s + (S + s - 1)) / (S + s) ∧
      ((R + m) * s + (S + s - 1)) / (S + s) ≤ m + 1 := by
  have hpos : 0 < S + s := Nat.add_pos_left hS s
  have hfloor : m * S ≤ R * s := hm ▸ Nat.div_mul_le_self _ _
  have hceil : R * s < (m + 1) * S := by
    rw [hm, Nat.mul_comm (_ + 1)]
    exact Nat.lt_mul_div_succ _ hS
  have hmint : (R + m) * s = R * s + m * s := Nat.add_mul R m s
  constructor
  · rw [Nat.le_div_iff_mul_le hpos]
    calc m * (S + s) = m * S + m * s := Nat.mul_add m S s
      _ ≤ (R + m) * s + (S + s - 1) := by omega
  · refine Nat.le_of_lt_succ ((Nat.div_lt_iff_lt_mul hpos).mpr ?_)
    calc (R + m) * s + (S + s - 1) < (m + 1) * S + m * s + (S + s) := by omega
      _ ≤ (m + 1) * (S + s) + (S + s) := by
        rw [Nat.mul_add (m + 1) S s, Nat.add_mul m 1 s]
        omega
      _ = (m + 1 + 1) * (S + s) := (Nat.succ_mul _ _).symm

/-- On amounts: also where the account has no more than the minted roots to give. -/
theorem rootsForBurn_of_mint {R S s r m R' S' r' b : Amount} (hR : R ≠ 0) (hS : S ≠ 0)
    (hmint : rootsForMint R S s = .ok m) (hR' : R'.toNat = R.toNat + m.toNat)
    (hS' : S'.toNat = S.toNat + s.toNat) (hr' : r'.toNat = r.toNat + m.toNat)
    (hburn : rootsForBurn R' S' s r' = .ok b) :
    b.toNat = m.toNat ∨ b.toNat = m.toNat + 1 := by
  have hpos : 0 < S.toNat := Nat.pos_of_ne_zero fun h => hS (Unsigned.ext h)
  have hm : m.toNat = R.toNat * s.toNat / S.toNat := by
    rw [rootsForMint, if_neg (not_or.mpr ⟨hR, hS⟩)] at hmint
    exact (mulDiv_eq_ok.mp hmint).2
  have hne : S' ≠ 0 := fun h => by
    rw [h, Unsigned.toNat_zero] at hS'
    omega
  rw [rootsForBurn, if_neg hne, bind_eq_ok] at hburn
  obtain ⟨roots, hroots, hb⟩ := hburn
  obtain ⟨-, hceil⟩ := mulDivCeil_eq_ok.mp hroots
  rw [hR', hS'] at hceil
  obtain ⟨hle, hlt⟩ := roots_of_burn hpos hm
  rw [← hceil] at hle hlt
  rw [← StalkLedger.pure_eq_ok.mp hb, Unsigned.toNat_min, hr']
  -- The account has the minted roots; only the one more may be lacking.
  omega

/-! ### Credits, read in both directions -/

/-- The second account has so much more stalk and so many more roots than the first, and differs in
nothing else. -/
structure Account.Credited (s r : Amount) (account account' : Account) : Prop where
  stalk : account'.stalk.toNat = account.stalk.toNat + s.toNat
  roots : account'.roots.toNat = account.roots.toNat + r.toNat
  lastUpdate : account'.lastUpdate = account.lastUpdate
  checkpoints : account'.checkpoints = account.checkpoints
  flood : account'.flood = account.flood

/-- So has the second ledger, in one account and in the totals. -/
structure Ledger.Credited (id : AccountId) (s r : Amount) (ledger ledger' : Ledger) : Prop where
  account : (ledger.account id).Credited s r (ledger'.account id)
  others : ∀ other, other ≠ id → ledger'.accounts.get? other = ledger.accounts.get? other
  totalStalk : ledger'.totals.stalk.toNat = ledger.totals.stalk.toNat + s.toNat
  totalRoots : ledger'.totals.roots.toNat = ledger.totals.roots.toNat + r.toNat
  earnedPool : ledger'.totals.earnedPool = ledger.totals.earnedPool
  rest : ledger' = { ledger with accounts := ledger'.accounts, totals := ledger'.totals }

variable {ledger : Ledger} {id : AccountId} {stalk : Amount} {out : Outcome Amount}

/-- Minting something credits the account, -/
theorem mintStalk_credited (hs : stalk ≠ 0) (h : mintStalk id stalk ledger = .ok out) :
    ∃ roots, rootsForMint ledger.totals.roots ledger.totals.stalk stalk = .ok roots ∧
      ledger.Credited id stalk roots out.ledger := by
  obtain ⟨roots, totals, credited, hroots, htotals, hcredit, rfl⟩ := (mintStalk_eq_ok hs).mp h
  obtain ⟨stalk', roots', _, hstalk', hroots', rfl⟩ := creditStalk_spec hcredit
  obtain ⟨hsum, hrsum, hpool⟩ := Totals.credit_eq_ok.mp htotals
  refine ⟨roots, hroots, ?_, fun other hne => SortedMap.get?_insert_of_ne _ hne _, hsum, hrsum,
    hpool, rfl⟩
  rw [Ledger.account_withAccount, if_pos rfl]
  exact ⟨hstalk', hroots', rfl, rfl, rfl⟩

/-- and burning is a credit undone. -/
theorem burnStalk_credited (hs : stalk ≠ 0) (h : burnStalk id stalk ledger = .ok out) :
    ∃ roots, rootsForBurn ledger.totals.roots ledger.totals.stalk stalk (ledger.account id).roots =
        .ok roots ∧ out.ledger.Credited id stalk roots ledger := by
  obtain ⟨roots, totals, debited, hroots, htotals, hdebit, rfl⟩ := (burnStalk_eq_ok hs).mp h
  obtain ⟨stalk', roots', _, hstalk', hroots', rfl⟩ := debitStalk_spec hdebit
  obtain ⟨hsum, hrsum, hpool⟩ := Totals.debit_eq_ok.mp htotals
  refine ⟨roots, hroots, ?_, fun other hne => (SortedMap.get?_insert_of_ne _ hne _).symm, hsum.symm,
    hrsum.symm, hpool.symm, rfl⟩
  rw [Ledger.account_withAccount, if_pos rfl]
  exact ⟨hstalk'.symm, hroots'.symm, rfl, rfl, rfl⟩

/-! ### There and back -/

/-- Nothing is changed but the roots of one account, and the totals with them; and these are what
they were, or one less. -/
structure Ledger.Reverted (id : AccountId) (ledger ledger' : Ledger) : Prop where
  /-- The account has the stalk that it had, and all else but its roots, -/
  account : ledger'.account id =
    { ledger.account id with roots := (ledger'.account id).roots }
  /-- the other accounts are the same, -/
  others : ∀ other, other ≠ id → ledger'.accounts.get? other = ledger.accounts.get? other
  /-- and so are the total stalk and the earned pool, -/
  totals : ledger'.totals = { ledger.totals with roots := ledger'.totals.roots }
  /-- and everything beside accounts and totals. -/
  rest : ledger' = { ledger with accounts := ledger'.accounts, totals := ledger'.totals }
  /-- The account and the totals lose the same: nothing, or one root. -/
  roots :
    (ledger'.account id).roots = (ledger.account id).roots ∧
        ledger'.totals.roots = ledger.totals.roots ∨
      (ledger'.account id).roots.toNat + 1 = (ledger.account id).roots.toNat ∧
        ledger'.totals.roots.toNat + 1 = ledger.totals.roots.toNat

/-- Credits of the same stalk that lead to one account start from accounts that differ in their
roots alone. -/
theorem Account.Credited.unique {s m b : Amount} {account account' account'' : Account}
    (h : account.Credited s m account') (h' : account''.Credited s b account') :
    account'' = { account with roots := account''.roots } := by
  obtain ⟨stalk, roots, lastUpdate, checkpoints, flood⟩ := account''
  obtain rfl : stalk = account.stalk :=
    Unsigned.ext (Nat.add_right_cancel (h'.stalk.symm.trans h.stalk))
  obtain rfl : lastUpdate = account.lastUpdate := h'.lastUpdate.symm.trans h.lastUpdate
  obtain rfl : checkpoints = account.checkpoints := h'.checkpoints.symm.trans h.checkpoints
  obtain rfl : flood = account.flood := h'.flood.symm.trans h.flood
  rfl

/-- So do the ledgers, if the second credit gives the roots of the first, or one more. -/
theorem Ledger.Credited.reverted {ledger' ledger'' : Ledger} {m b : Amount}
    (h : ledger.Credited id stalk m ledger') (h' : ledger''.Credited id stalk b ledger')
    (hb : b.toNat = m.toNat ∨ b.toNat = m.toNat + 1) : ledger.Reverted id ledger'' := by
  have htotal : ledger''.totals.stalk = ledger.totals.stalk :=
    Unsigned.ext (Nat.add_right_cancel (h'.totalStalk.symm.trans h.totalStalk))
  have hpool : ledger''.totals.earnedPool = ledger.totals.earnedPool :=
    h'.earnedPool.symm.trans h.earnedPool
  have hown := h'.account.roots.symm.trans h.account.roots
  have hall := h'.totalRoots.symm.trans h.totalRoots
  refine ⟨h.account.unique h'.account,
    fun other hne => (h'.others other hne).symm.trans (h.others other hne), ?_, ?_, ?_⟩
  · dsimp only
    rw [← htotal, ← hpool]
  · exact congrArg (fun l : Ledger => { l with
      accounts := ledger''.accounts, totals := ledger''.totals }) (h'.rest.symm.trans h.rest)
  · rcases hb with hb | hb
    · exact .inl ⟨Unsigned.ext (by omega), Unsigned.ext (by omega)⟩
    · exact .inr ⟨by omega, by omega⟩

/-- **Minting and burning back.**  On any ledger whose totals count roots and stalk, an account that
is minted some stalk and then has as much burned is left with the stalk that it had, and so are the
totals; no other account is touched; and the account and the totals have the roots that they had, or
both have one less. -/
theorem mint_burn_reverts {minted burned : Outcome Amount} (hR : ledger.totals.roots ≠ 0)
    (hS : ledger.totals.stalk ≠ 0) (hmint : mintStalk id stalk ledger = .ok minted)
    (hburn : burnStalk id stalk minted.ledger = .ok burned) :
    ledger.Reverted id burned.ledger := by
  by_cases hzero : stalk = 0
  · subst hzero
    cases hmint
    cases hburn
    exact ⟨rfl, fun _ _ => rfl, rfl, rfl, .inl ⟨rfl, rfl⟩⟩
  obtain ⟨m, hm, hcredited⟩ := mintStalk_credited hzero hmint
  obtain ⟨b, hb, hcredited'⟩ := burnStalk_credited hzero hburn
  exact hcredited.reverted hcredited' (rootsForBurn_of_mint hR hS hm hcredited.totalRoots
    hcredited.totalStalk hcredited.account.roots hb)

namespace Vault

/-- Account 8 has roots, and pays one of them for going there and back. -/
theorem mint_burn_reverts_pool :
    (run poolRequests sample).2.ledger.totals.roots ≠ 0 ∧
      (run poolRequests sample).2.ledger.totals.stalk ≠ 0 ∧ ∃ minted burned,
        mintStalk 8 40 (run poolRequests sample).2.ledger = .ok minted ∧
          burnStalk 8 40 minted.ledger = .ok burned ∧
            (run poolRequests sample).2.ledger.Reverted 8 burned.ledger := by
  have hR : (run poolRequests sample).2.ledger.totals.roots ≠ 0 := by decide +kernel
  have hS : (run poolRequests sample).2.ledger.totals.stalk ≠ 0 := by decide +kernel
  have hok : ((mintStalk 8 40 >>= fun _ => burnStalk 8 40 : Action Amount)
      (run poolRequests sample).2.ledger).toOption.isSome = true := by decide +kernel
  obtain ⟨out, hout⟩ := exists_ok hok
  obtain ⟨minted, burned, hmint, hburn, -⟩ := bind_apply_ok.mp hout
  exact ⟨hR, hS, minted, burned, hmint, hburn, mint_burn_reverts hR hS hmint hburn⟩

end Vault

end StalkLedger
