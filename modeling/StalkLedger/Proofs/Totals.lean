import StalkLedger.Proofs.Solvency
import StalkLedger.Proofs.Tally

/-!
# The totals and the accounts

The totals of stalk and roots are kept beside the accounts.  Roots are in accounts only; stalk is in
accounts, and as much of it backs the earned pool as the reward in the pool is worth
(`Ledger.Totalled`).

* Moves that cancel leave both totals where the accounts are, and only ever draw on the pool
  (`Move.earnedPool_le`).
* The stalk of the pool is told by the terms of the base asset.  These are fixed once the asset is
  listed, and before that there is no pool (`Ledger.Totalled.of_assets`).

So the totals agree with the accounts after any requests (`Vault.totals_agree`).

With this, all is said that transitions preserve: `Ledger.Orderly` is what holds between requests.
-/

namespace StalkLedger

open StalkLedger.Action Ledger

/-! ### The earned pool -/

/-- Moves add nothing to the pool. -/
theorem Move.earnedPool_le {ledger ledger' : Ledger} {more : Imbalance} {events : Event.Log}
    (h : Move ledger more events ledger') :
    ledger'.totals.earnedPool ≤ ledger.totals.earnedPool := by
  have same {totals : Totals} (h : totals.earnedPool = ledger.totals.earnedPool) :
      totals.earnedPool ≤ ledger.totals.earnedPool :=
    Nat.le_of_eq (congrArg Unsigned.toNat h)
  cases h with
  | update h =>
    rcases updateAccount_eq_ok.mp h with ⟨-, rfl⟩ | ⟨-, flood, -, rfl⟩
    · exact same rfl
    · exact same rfl
  | mint hu hs h =>
    obtain ⟨_, totals, credited, -, ht, hc, rfl⟩ := (mintStalk_eq_ok hs).mp h
    obtain ⟨_, _, _, -, -, rfl⟩ := creditStalk_spec hc
    exact same (Totals.credit_eq_ok.mp ht).2.2
  | burn hu hs h =>
    obtain ⟨_, totals, debited, -, ht, hd, rfl⟩ := (burnStalk_eq_ok hs).mp h
    obtain ⟨_, _, _, -, -, rfl⟩ := debitStalk_spec hd
    exact same (Totals.debit_eq_ok.mp ht).2.2
  | handOver hu hu' hs h =>
    obtain ⟨_, debited, credited, -, hd, hc, rfl⟩ := (transferStalk_eq_ok hs).mp h
    obtain ⟨_, _, _, -, -, rfl⟩ := debitStalk_spec hd
    obtain ⟨_, _, _, -, -, rfl⟩ := creditStalk_spec hc
    exact same rfl
  | credit hu h =>
    obtain ⟨_, _, _, -, -, rfl⟩ := creditStalk_spec h
    exact same rfl
  | drawPool h => exact Nat.le.intro h
  | book hc h =>
    obtain ⟨held, -, rfl⟩ := creditValue_eq_ok.mp h
    exact same rfl
  | unbook hc h =>
    obtain ⟨held, -, rfl⟩ := debitValue_eq_ok.mp h
    exact same rfl
  | enter hi h =>
    obtain ⟨deposits, entry, entry', -, -, -, -, -, -, rfl⟩ := addPositionAt_eq_ok.mp h
    exact same rfl
  | remove ha h =>
    obtain ⟨value, taken, entry, entry', -, -, ht, -, rfl⟩ := (removePosition_eq_ok ha).mp h
    obtain ⟨deposits, legacyDeposits, rfl⟩ := (taken_of_takeAt ht).frame
    exact same rfl
  | realize | importLegacy | migrate | note => exact same rfl

/-- The pool does not rise between two reports. -/
theorem Moves.earnedPool_le {ledger ledger' : Ledger} {more : Imbalance} {events : Event.Log}
    (h : Moves ledger more events ledger') :
    ledger'.totals.earnedPool ≤ ledger.totals.earnedPool := by
  induction h with
  | refl => exact Nat.le_refl _
  | step h _ ih => exact Nat.le_trans ih h.earnedPool_le

/-! ### The totals -/

namespace Ledger

variable {ledger ledger' : Ledger}

/-- The totals are those of the accounts, and of the pool; there is no pool before the base asset is
listed. -/
structure Totalled (ledger : Ledger) : Prop where
  roots : ledger.rootsLoose = 0
  stalk : ledger.stalkUnpooled = 0
  pool : ledger.assets.get? ledger.charter.baseAsset = none → ledger.totals.earnedPool = 0

namespace Totalled

/-- Entries of assets may change as long as the base asset, once listed, gives the same stalk: where
it is not listed, there is no pool that its terms would tell the stalk of. -/
theorem of_assets (h : ledger.Totalled) (hcharter : ledger'.charter = ledger.charter)
    (haccounts : ledger'.accounts = ledger.accounts) (htotals : ledger'.totals = ledger.totals)
    (hbase : ∀ {entry}, ledger.assets.get? ledger.charter.baseAsset = some entry →
      ∃ entry', ledger'.assets.get? ledger.charter.baseAsset = some entry' ∧
        entry'.stalkPerValue = entry.stalkPerValue) : ledger'.Totalled := by
  have hpooled : (ledger.totals.earnedPool.toNat : ℤ) *
      ledger'.stalkPerValue ledger.charter.baseAsset =
      ledger.totals.earnedPool.toNat * ledger.stalkPerValue ledger.charter.baseAsset := by
    cases hget : ledger.assets.get? ledger.charter.baseAsset with
    | none => rw [h.pool hget, Unsigned.toNat_zero, Nat.cast_zero, zero_mul, zero_mul]
    | some entry =>
      obtain ⟨entry', hget', hs⟩ := hbase hget
      rw [stalkPerValue_eq (asset_eq_ok.mpr hget'), hs, stalkPerValue_eq (asset_eq_ok.mpr hget)]
  refine ⟨?_, ?_, fun hnone => ?_⟩
  · rw [rootsLoose, haccounts, htotals]
    exact h.roots
  · rw [stalkUnpooled, haccounts, htotals, hcharter, hpooled]
    exact h.stalk
  · rw [hcharter] at hnone
    rw [htotals]
    refine h.pool ?_
    cases hget : ledger.assets.get? ledger.charter.baseAsset with
    | none => rfl
    | some entry =>
      obtain ⟨entry', hget', -⟩ := hbase hget
      rw [hnone] at hget'
      cases hget'

/-- An entry is put in the place of another that gives the same stalk. -/
theorem withAsset (h : ledger.Totalled) {id : AssetId} {entry' : Asset}
    (hs : ∀ {entry}, ledger.assets.get? id = some entry →
      entry'.stalkPerValue = entry.stalkPerValue) : (ledger.withAsset id entry').Totalled := by
  refine h.of_assets rfl rfl rfl ?_
  intro entry hget
  by_cases heq : ledger.charter.baseAsset = id
  · subst heq
    exact ⟨entry', SortedMap.get?_insert_self .., hs hget⟩
  · exact ⟨entry, (SortedMap.get?_insert_of_ne _ heq _).trans hget, rfl⟩

/-- Moves that cancel leave the totals with the accounts. -/
theorem moves {events : Event.Log} (h : ledger.Totalled) (hm : Moves ledger 0 events ledger') :
    ledger'.Totalled := by
  have hunpooled : ledger'.stalkUnpooled = ledger.stalkUnpooled :=
    congrArg (fun imbalance : Imbalance => imbalance.2.2) (hm.imbalance.trans (add_zero _))
  refine ⟨hm.rootsLoose.trans h.roots, hunpooled.trans h.stalk, fun hnone => ?_⟩
  have hbefore : ledger.assets.get? ledger.charter.baseAsset = none := by
    have hterms := hm.keeps.assets ledger.charter.baseAsset
    rwa [← hm.keeps.charter, hnone, Option.map_none, eq_comm, Option.map_eq_none_iff,
      hm.keeps.charter] at hterms
  have hle := hm.earnedPool_le
  rw [h.pool hbefore] at hle
  exact Unsigned.ext (Nat.le_zero.mp hle)

/-- Reward joins the pool and the total at once. -/
theorem reward {quantity : Amount} {out : Outcome Unit} (h : ledger.Totalled)
    (hr : receiveReward quantity ledger = .ok out) : out.ledger.Totalled := by
  rcases receiveReward_stages hr with
    ⟨-, rfl⟩ | ⟨base, pool, added, stalk, hbase, hpool, hadded, hstalk, rfl⟩
  · exact h
  refine ⟨h.roots, ?_, fun hnone => ?_⟩
  · have hstalk' : stalk.toNat = ledger.totals.stalk.toNat +
        quantity.toNat * base.stalkPerValue.toNat := by
      rw [Unsigned.add_eq_ok.mp hstalk, Unsigned.mul_eq_ok.mp hadded]
    have hpooled := h.stalk
    rw [stalkUnpooled, stalkPerValue_eq hbase] at hpooled
    show (stalk.toNat : ℤ) - _ -
      pool.toNat * ledger.stalkPerValue ledger.charter.baseAsset = 0
    rw [hstalk', Unsigned.add_eq_ok.mp hpool, stalkPerValue_eq hbase]
    push_cast
    linarith
  · exact absurd ((asset_eq_ok.mp hbase).symm.trans hnone) (Option.some_ne_none _)

end Totalled

end Ledger

/-! ### Transitions -/

/-- **Transitions keep the totals with the accounts.** -/
theorem Transition.totalled {ledger ledger' : Ledger} {paid : AccountId → ℕ} {events : Event.Log}
    (h : Transition ledger paid events ledger') (ht : ledger.Totalled) : ledger'.Totalled := by
  cases h with
  | posting h => exact ht.moves h
  | @claim id _ h =>
    obtain ⟨updated, totalClaimed, hu, -, -, rfl⟩ := claimFlood_stages h
    have hupdated := ht.moves (.single (.update hu))
    refine ⟨(rootsLoose_claimed _ id totalClaimed).trans hupdated.roots, ?_, hupdated.pool⟩
    have hsame : (updated.ledger.withAccount id { updated.ledger.account id with
        flood := { (updated.ledger.account id).flood with claimable := 0 } }).imbalance =
          updated.ledger.imbalance := imbalance_withSame rfl rfl
    exact (congrArg (fun imbalance : Imbalance => imbalance.2.2) hsame).trans hupdated.stalk
  | @whitelist id terms _ h =>
    obtain ⟨-, hnew, -, rfl⟩ := whitelist_stages h
    exact ht.withAsset fun hget => absurd (hnew.symm.trans hget) nofun
  | dewhitelist h =>
    obtain ⟨entry, he, rfl⟩ := dewhitelist_stages h
    refine ht.withAsset fun hget => ?_
    obtain rfl := Option.some.inj ((asset_eq_ok.mp he).symm.trans hget)
    rfl
  | setAccrualRate h =>
    obtain ⟨-, entry, he, rfl⟩ := setAccrualRate_stages h
    refine ht.withAsset fun hget => ?_
    obtain rfl := Option.some.inj ((asset_eq_ok.mp he).symm.trans hget)
    rfl
  | reward h => exact ht.reward h
  | @advance report _ h =>
    rcases advanceEpoch_stages h with
      ⟨-, rfl⟩ | ⟨-, assets, rewarded, turned, paid, hassets, hreward, hturn, hpay, rfl⟩
    · exact ht
    -- Growing moves indices only; floods are in neither of the totals.
    have hgrown : { ledger with assets, epoch := report.epoch }.Totalled := by
      refine ht.of_assets rfl rfl rfl ?_
      intro entry hget
      rcases SortedMap.get?_of_mapEach hassets ledger.charter.baseAsset with
        ⟨hnone, -⟩ | ⟨e, entry', hentry, hg, he⟩
      · exact absurd (hnone.symm.trans hget) nofun
      · obtain rfl := Option.some.inj (hentry.symm.trans hget)
        obtain ⟨_, -, rfl⟩ := Asset.grow_spec hg
        exact ⟨_, he, rfl⟩
    obtain ⟨hroots, hstalk, hpool⟩ := hgrown.reward hreward
    have hturned : turned.ledger.Totalled := by
      rcases turnFlood_stages hturn with ⟨-, rfl⟩ | ⟨_, -, rfl⟩ | rfl
      · exact ⟨hroots, hstalk, hpool⟩
      · exact ⟨hroots, hstalk, hpool⟩
      · exact ⟨hroots, hstalk, hpool⟩
    rcases hpay with hpay | ⟨-, rfl⟩
    · obtain ⟨_, _, _, _, -, -, -, -, rfl⟩ := payFlood_stages hpay
      exact ⟨hturned.roots, hturned.stalk, hturned.pool⟩
    · exact hturned

/-! ### All invariants -/

/-- What holds of a ledger between requests. -/
structure Ledger.Orderly (ledger : Ledger) : Prop where
  consistent : ledger.Consistent
  solvent : ledger.Solvent
  totalled : ledger.Totalled

/-- The books of an orderly ledger agree in everything. -/
theorem Ledger.Orderly.imbalance {ledger : Ledger} (h : ledger.Orderly) : ledger.imbalance = 0 :=
  Prod.ext (funext h.consistent.balanced.due)
    (Prod.ext (funext fun place => h.consistent.balanced.booked place.1 place.2) h.totalled.stalk)

/-- **Transitions keep a ledger orderly.** -/
theorem Transition.orderly {ledger ledger' : Ledger} {paid : AccountId → ℕ} {events : Event.Log}
    (h : Transition ledger paid events ledger') (ho : ledger.Orderly) : ledger'.Orderly :=
  ⟨h.consistent ho.consistent, (h.solvent ho.solvent ho.totalled.roots).1, h.totalled ho.totalled⟩

/-- Moves that cancel lead from one orderly ledger to another. -/
theorem Ledger.Orderly.moves {ledger ledger' : Ledger} {events : Event.Log} (h : ledger.Orderly)
    (hm : Moves ledger 0 events ledger') : ledger'.Orderly :=
  (Transition.posting hm).orderly h

/-- So does a mowing. -/
theorem Ledger.Orderly.of_mow {ledger : Ledger} {id : AccountId} {asset : AssetId}
    {out : Outcome Amount} (h : ledger.Orderly) (hm : Action.mow id asset ledger = .ok out) :
    out.ledger.Orderly :=
  h.moves (mow_moves hm).1

/-- A ledger begins orderly: there is nothing in it. -/
theorem Ledger.orderly_of_genesis {charter : Charter} {ledger : Ledger}
    (h : Ledger.genesis charter = .ok ledger) : ledger.Orderly := by
  obtain ⟨hsolvent, hroots⟩ := solvent_of_genesis h
  refine ⟨consistent_of_genesis h, hsolvent, ?_⟩
  simp only [Ledger.genesis, bind_eq_ok, StalkLedger.pure_eq_ok] at h
  obtain ⟨_, -, rfl⟩ := h
  exact ⟨hroots, rfl, fun _ => rfl⟩

namespace Vault

/-- A ledger is orderly after any requests to a new vault. -/
theorem orderly {charter : Charter} {start : Vault} (h : genesis charter = .ok start)
    (requests : List Request) :
    (run requests start).2.ledger.Orderly ∧ (run requests start).2.entered = false := by
  obtain ⟨hledger, hentered⟩ := genesis_eq_ok h
  exact ⟨run_invariant (fun hl ht => ht.orderly hl) requests hentered (orderly_of_genesis hledger),
    run_entered requests hentered⟩

/-- **The totals agree with the accounts.**  After any requests to a new vault, the total of roots is
the sum of the roots of all accounts; and the total of stalk is the sum of the stalk of all accounts
and the stalk that the earned pool is worth on the terms of the base asset.  As long as that asset is
not listed, there is no pool, and all stalk is in accounts. -/
theorem totals_agree {charter : Charter} {start : Vault} (h : genesis charter = .ok start)
    (requests : List Request) :
    let ledger := (run requests start).2.ledger
    ledger.totals.roots.toNat = (ledger.accounts.entries.map fun e => e.2.roots.toNat).sum ∧
      (∀ base, ledger.asset ledger.charter.baseAsset = .ok base →
        ledger.totals.stalk.toNat = (ledger.accounts.entries.map fun e => e.2.stalk.toNat).sum +
          ledger.totals.earnedPool.toNat * base.stalkPerValue.toNat) ∧
        (ledger.assets.get? ledger.charter.baseAsset = none → ledger.totals.earnedPool = 0 ∧
          ledger.totals.stalk.toNat =
            (ledger.accounts.entries.map fun e => e.2.stalk.toNat).sum) := by
  intro ledger
  obtain ⟨hroots, hstalk, hpool⟩ := (orderly h requests).1.totalled
  rw [rootsLoose, ledger.accounts.sum_natCast fun _ a => a.roots.toNat, sub_eq_zero] at hroots
  rw [stalkUnpooled, ledger.accounts.sum_natCast fun _ a => a.stalk.toNat, sub_sub,
    sub_eq_zero] at hstalk
  refine ⟨by exact_mod_cast hroots, fun base hbase => ?_, fun hnone => ⟨hpool hnone, ?_⟩⟩
  · rw [stalkPerValue_eq hbase] at hstalk
    exact_mod_cast hstalk
  · rw [hpool hnone, Unsigned.toNat_zero, Nat.cast_zero, zero_mul, add_zero] at hstalk
    exact_mod_cast hstalk

theorem totals_agree_sample : genesis ⟨10, 10, 0, 9⟩ = .ok sample ∧
    let requests := sampleRequests ++
      [.whitelist 0 ⟨10000, 2, none⟩ .unit, .call (.receiveReward 60), .call (.plant 7)]
    let ledger := (run requests sample).2.ledger
    ledger.totals.earnedPool = 36 ∧
    ledger.totals.roots.toNat = (ledger.accounts.entries.map fun e => e.2.roots.toNat).sum ∧
      (∀ base, ledger.asset ledger.charter.baseAsset = .ok base →
        ledger.totals.stalk.toNat = (ledger.accounts.entries.map fun e => e.2.stalk.toNat).sum +
          ledger.totals.earnedPool.toNat * base.stalkPerValue.toNat) ∧
        (ledger.assets.get? ledger.charter.baseAsset = none → ledger.totals.earnedPool = 0 ∧
          ledger.totals.stalk.toNat =
            (ledger.accounts.entries.map fun e => e.2.stalk.toNat).sum) :=
  ⟨genesis_sample, by decide +kernel, totals_agree genesis_sample _⟩

end Vault

end StalkLedger
