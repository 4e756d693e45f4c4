import StalkLedger.Proofs.Faultless
import StalkLedger.Proofs.Frame
import StalkLedger.Proofs.Location

/-!
# Roots without reward

The first stalk is minted with a fixed number of roots to each unit.  What is minted, burned or handed
over later takes as many roots as the totals tell, rounded down or up; so whether roots stay in
proportion is for the totals to say.

* **While they are in proportion, nothing is rounded** (`rootsForMint_inProportion`,
  `rootsForBurn_inProportion`): the fixed number divides out, and no cap is reached.
* **Only stalk that comes without roots** puts an account out of proportion (`Move.inProportion`), and
  that is drawn from the pool, so that moves in balance have none of it while the pool is empty
  (`Moves.unpooled_nonpos`).
* **Only reward fills the pool** (`Request.reward`).

So roots stay in proportion until reward is received, and there is nothing to plant
(`Vault.roots_in_proportion`).
-/

namespace StalkLedger

open StalkLedger.Action Imbalance Ledger

/-! ### Proportion -/

/-- Each unit of stalk has as many roots as the very first. -/
def InProportion (roots stalk : Amount) : Prop :=
  roots.toNat = rootsPerFirstStalk.toNat * stalk.toNat

namespace InProportion

variable {roots stalk roots' stalk' moreRoots moreStalk : Amount}

/-- What is in proportion stays so when something in proportion is added to it -/
theorem add (h : InProportion roots stalk) (hmore : InProportion moreRoots moreStalk)
    (hroots : roots'.toNat = roots.toNat + moreRoots.toNat)
    (hstalk : stalk'.toNat = stalk.toNat + moreStalk.toNat) : InProportion roots' stalk' := by
  rw [InProportion, hroots, hstalk, h, hmore, Nat.mul_add]

/-- or taken off it. -/
theorem sub (h : InProportion roots stalk) (hmore : InProportion moreRoots moreStalk)
    (hroots : roots'.toNat + moreRoots.toNat = roots.toNat)
    (hstalk : stalk'.toNat + moreStalk.toNat = stalk.toNat) : InProportion roots' stalk' := by
  refine Nat.add_right_cancel (m := moreRoots.toNat) ?_
  rw [hroots, h, hmore, ← hstalk, Nat.mul_add]

/-- In proportion, more roots are more stalk. -/
theorem le_iff (h : InProportion roots stalk) (h' : InProportion roots' stalk') :
    roots ≤ roots' ↔ stalk ≤ stalk' := by
  rw [Unsigned.le_iff, Unsigned.le_iff, h, h']
  exact Nat.mul_le_mul_left_iff (by decide)

end InProportion

/-! ### Minting and burning in proportion -/

section Division

variable {rate total part : ℕ} (h : 0 < total)
include h

/-- A rate divides out of a product with it, -/
theorem scaled_mul_div : rate * total * part / total = rate * part := by
  rw [Nat.mul_right_comm, Nat.mul_div_cancel _ h]

/-- and there is nothing to round up. -/
theorem scaled_mul_divCeil : (rate * total * part + (total - 1)) / total = rate * part := by
  rw [Nat.mul_right_comm, Nat.add_comm, Nat.add_mul_div_right _ _ h,
    Nat.div_eq_of_lt (Nat.sub_one_lt h.ne'), Nat.zero_add]

end Division

/-- Minting on totals in proportion is in proportion: at the first stalk by rule, afterwards
because nothing is rounded. -/
theorem rootsForMint_inProportion {totalRoots totalStalk stalk roots : Amount}
    (htotals : InProportion totalRoots totalStalk)
    (h : rootsForMint totalRoots totalStalk stalk = .ok roots) : InProportion roots stalk := by
  unfold rootsForMint at h
  split at h
  · rw [InProportion, Unsigned.mul_eq_ok.mp h, Nat.mul_comm]
  next hsome =>
    have hpos : 0 < totalStalk.toNat :=
      Nat.pos_of_ne_zero fun h₀ => hsome (.inr (Unsigned.ext h₀))
    rw [InProportion, (mulDiv_eq_ok.mp h).2, htotals, scaled_mul_div hpos]

/-- An account in proportion that has the stalk has the roots that go with it. -/
theorem rootsForBurn_inProportion {totalRoots totalStalk stalk accountRoots accountStalk roots : Amount}
    (htotals : InProportion totalRoots totalStalk) (haccount : InProportion accountRoots accountStalk)
    (hle : stalk ≤ accountStalk) (hpos : 0 < totalStalk.toNat)
    (h : rootsForBurn totalRoots totalStalk stalk accountRoots = .ok roots) :
    InProportion roots stalk := by
  rw [rootsForBurn, if_neg fun h₀ => hpos.ne' (congrArg Unsigned.toNat h₀), bind_eq_ok] at h
  obtain ⟨exact, hexact, hroots⟩ := h
  have hceil : InProportion exact stalk := by
    rw [InProportion, (mulDivCeil_eq_ok.mp hexact).2, htotals, scaled_mul_divCeil hpos]
  rw [← StalkLedger.pure_eq_ok.mp hroots, InProportion, Unsigned.toNat_min,
    Nat.min_eq_left ((hceil.le_iff haccount).mpr hle)]
  exact hceil

/-! ### Ledgers in proportion -/

/-- Every account has its roots in proportion, and so have the totals. -/
structure Ledger.Proportional (ledger : Ledger) : Prop where
  accounts : ∀ id, InProportion (ledger.account id).roots (ledger.account id).stalk
  totals : InProportion ledger.totals.roots ledger.totals.stalk

/-- So it is on a ledger whose pool has always been empty. -/
structure Ledger.Unrewarded (ledger : Ledger) : Prop extends ledger.Proportional where
  pool : ledger.totals.earnedPool = 0
  loose : ledger.rootsLoose = 0

namespace Ledger.Proportional

variable {ledger ledger' : Ledger} {id : AccountId} {stalk roots : Amount} {out : Outcome Unit}

/-- Proportion is about accounts and totals only. -/
theorem of_same (h : ledger.Proportional) (ha : ledger'.accounts = ledger.accounts)
    (ht : ledger'.totals = ledger.totals) : ledger'.Proportional := by
  refine ⟨fun id => ?_, ht ▸ h.totals⟩
  rw [account_congr ha]
  exact h.accounts id

theorem withTotals {totals : Totals} (h : ledger.Proportional)
    (ht : InProportion totals.roots totals.stalk) :
    Proportional { ledger with totals } :=
  ⟨h.accounts, ht⟩

/-- A record in proportion may be entered for any account. -/
theorem withAccount {account : Account} (h : ledger.Proportional)
    (ha : InProportion account.roots account.stalk) :
    (ledger.withAccount id account).Proportional := by
  refine ⟨fun id' => ?_, h.totals⟩
  rw [account_withAccount]
  split
  · exact ha
  · exact h.accounts id'

/-- Crediting keeps the ledger in proportion, if what is credited is, -/
theorem creditStalk (h : ledger.Proportional) (hmore : InProportion roots stalk)
    (hc : Action.creditStalk id stalk roots ledger = .ok out) : out.ledger.Proportional := by
  obtain ⟨_, _, _, hstalk, hroots, rfl⟩ := creditStalk_spec hc
  exact h.withAccount ((h.accounts id).add hmore hroots hstalk)

/-- and so does debiting. -/
theorem debitStalk (h : ledger.Proportional) (hmore : InProportion roots stalk)
    (hd : Action.debitStalk id stalk roots ledger = .ok out) : out.ledger.Proportional := by
  obtain ⟨_, _, _, hstalk, hroots, rfl⟩ := debitStalk_spec hd
  exact h.withAccount ((h.accounts id).sub hmore hroots hstalk)

end Ledger.Proportional

namespace Ledger.Unrewarded

variable {ledger : Ledger}

/-- A ledger begins without stalk and without roots. -/
theorem of_genesis {charter : Charter} (h : Ledger.genesis charter = .ok ledger) :
    ledger.Unrewarded := by
  have hloose := (solvent_of_genesis h).2
  simp only [Ledger.genesis, bind_eq_ok, StalkLedger.pure_eq_ok] at h
  obtain ⟨_, -, rfl⟩ := h
  exact ⟨⟨fun _ => rfl, rfl⟩, rfl, hloose⟩

/-- An account has no more stalk than the total: neither has it more roots. -/
theorem stalk_le (h : ledger.Unrewarded) (id : AccountId) :
    (ledger.account id).stalk ≤ ledger.totals.stalk := by
  have hle := account_le_sum (f := fun a => a.roots.toNat) rfl
    (fun id => Int.natCast_nonneg (ledger.account id).roots.toNat) id
  rw [← sub_eq_zero.mp h.loose] at hle
  exact ((h.accounts id).le_iff h.totals).mp (Int.ofNat_le.mp hle)

/-- The roots that go with some stalk of an account are in proportion. -/
theorem burned {id : AccountId} {stalk roots : Amount} (h : ledger.Unrewarded) (hs : stalk ≠ 0)
    (hle : stalk ≤ (ledger.account id).stalk)
    (hroots : rootsForBurn ledger.totals.roots ledger.totals.stalk stalk
      (ledger.account id).roots = .ok roots) : InProportion roots stalk := by
  have hpos : 0 < stalk.toNat := Nat.pos_of_ne_zero fun h₀ => hs (Unsigned.ext h₀)
  exact rootsForBurn_inProportion h.totals (h.accounts id) hle
    (hpos.trans_le (hle.trans (h.stalk_le id))) hroots

end Ledger.Unrewarded

/-! ### Moves -/

/-- No move puts anything into the pool. -/
theorem Move.earnedPool_eq_zero {ledger ledger' : Ledger} {more : Imbalance} {events : Event.Log}
    (h : Move ledger more events ledger') (hpool : ledger.totals.earnedPool = 0) :
    ledger'.totals.earnedPool = 0 := by
  have hle := h.earnedPool_le
  rw [hpool] at hle
  exact Unsigned.ext (Nat.le_zero.mp hle)

/-- While the pool is empty a move leaves no stalk in the total that nobody has: it may only give an
account some that the total does not count. -/
theorem Move.unpooled_nonpos {ledger ledger' : Ledger} {more : Imbalance} {events : Event.Log}
    (h : Move ledger more events ledger') (hpool : ledger.totals.earnedPool = 0) :
    more.2.2 ≤ 0 := by
  cases h with
  | credit hu h => simp [due, unpooled]
  | @drawPool quantity pool h =>
    rw [hpool, Unsigned.toNat_zero, Nat.add_eq_zero_iff] at h
    simp [unpooled, h.2]
  | _ => simp [due, unbooked]

/-- While the pool is empty, moves can only leave the total short of stalk, and not with too much
of it. -/
theorem Moves.unpooled_nonpos {ledger ledger' : Ledger} {more : Imbalance} {events : Event.Log}
    (h : Moves ledger more events ledger') (hpool : ledger.totals.earnedPool = 0) :
    more.2.2 ≤ 0 := by
  induction h with
  | refl => exact le_rfl
  | step h _ ih =>
    exact add_nonpos (h.unpooled_nonpos hpool) (ih (h.earnedPool_eq_zero hpool))

/-- **A move that gives no stalk of the pool** leaves roots in proportion. -/
theorem Move.proportional {ledger ledger' : Ledger} {more : Imbalance} {events : Event.Log}
    (h : Move ledger more events ledger') (hp : ledger.Unrewarded) (hnone : more.2.2 = 0) :
    ledger'.Proportional := by
  have same {id : AccountId} {account : Account}
      (hr : account.roots = (ledger.account id).roots)
      (hs : account.stalk = (ledger.account id).stalk) :
      (ledger.withAccount id account).Proportional :=
    hp.toProportional.withAccount (hr ▸ hs ▸ hp.accounts id)
  cases h with
  | update h =>
    rcases updateAccount_eq_ok.mp h with ⟨-, rfl⟩ | ⟨-, flood, -, rfl⟩
    · exact same rfl rfl
    · exact same rfl rfl
  | realize hu he hg => exact same rfl rfl
  | mint hu hs h =>
    obtain ⟨_, totals, credited, hroots, ht, hc, rfl⟩ := (mintStalk_eq_ok hs).mp h
    obtain ⟨htotal, htotal', -⟩ := Totals.credit_eq_ok.mp ht
    have hmore := rootsForMint_inProportion hp.totals hroots
    exact (hp.withTotals (hp.totals.add hmore htotal' htotal)).creditStalk hmore hc
  | @burn id _ _ hu hs h =>
    obtain ⟨_, totals, debited, hroots, ht, hd, rfl⟩ := (burnStalk_eq_ok hs).mp h
    obtain ⟨htotal, htotal', -⟩ := Totals.debit_eq_ok.mp ht
    obtain ⟨_, _, _, hstalk, -, -⟩ := debitStalk_spec hd
    have hmore := hp.burned hs (Nat.le.intro ((Nat.add_comm _ _).trans hstalk)) hroots
    exact (hp.withTotals (hp.totals.sub hmore htotal' htotal)).debitStalk hmore hd
  | handOver hu hu' hs h =>
    obtain ⟨_, debited, credited, hroots, hd, hc, rfl⟩ := (transferStalk_eq_ok hs).mp h
    obtain ⟨_, _, _, hstalk, -, -⟩ := debitStalk_spec hd
    have hmore := hp.burned hs (Nat.le.intro ((Nat.add_comm _ _).trans hstalk)) hroots
    exact (hp.toProportional.debitStalk hmore hd).creditStalk hmore hc
  | @credit _ stalk _ hu h =>
    have hzero : stalk.toNat = 0 := by simpa [due, unpooled] using hnone
    exact hp.toProportional.creditStalk (by rw [InProportion, hzero]; rfl) h
  | drawPool h => exact hp.withTotals hp.totals
  | book hc h =>
    obtain ⟨held, -, rfl⟩ := creditValue_eq_ok.mp h
    exact same rfl rfl
  | unbook hc h =>
    obtain ⟨held, -, rfl⟩ := debitValue_eq_ok.mp h
    exact same rfl rfl
  | enter hi h =>
    obtain ⟨deposits, entry, entry', -, -, -, -, -, -, rfl⟩ := addPositionAt_eq_ok.mp h
    exact hp.of_same rfl rfl
  | remove ha h =>
    obtain ⟨value, taken, entry, entry', -, -, ht, -, rfl⟩ := (removePosition_eq_ok ha).mp h
    obtain ⟨deposits, legacyDeposits, rfl⟩ := (taken_of_takeAt ht).frame
    exact hp.of_same rfl rfl
  | importLegacy | migrate | note => exact hp.of_same rfl rfl

namespace Ledger.Unrewarded

variable {ledger ledger' : Ledger}

/-- Moves that give no stalk of the pool: the induction is on the moves, and as none of them takes any
away from the pool, none gives any. -/
theorem moves_of_unpooled {more : Imbalance} {events : Event.Log}
    (h : Moves ledger more events ledger') (hp : ledger.Unrewarded) (hnone : more.2.2 = 0) :
    ledger'.Unrewarded := by
  induction h with
  | refl => exact hp
  | @step _ _ _ more rest _ _ h t ih =>
    have hpool := h.earnedPool_eq_zero hp.pool
    have hsum : more.2.2 + rest.2.2 = 0 := hnone
    have hmore : more.2.2 = 0 := by
      have hmore := h.unpooled_nonpos hp.pool
      have hrest := t.unpooled_nonpos hpool
      omega
    rw [hmore, zero_add] at hsum
    exact ih ⟨h.proportional hp hmore, hpool, h.rootsLoose.trans hp.loose⟩ hsum

/-- Moves that cancel keep a ledger unrewarded, -/
theorem moves {events : Event.Log} (hp : ledger.Unrewarded) (h : Moves ledger 0 events ledger') :
    ledger'.Unrewarded :=
  moves_of_unpooled h hp rfl

theorem of_same (h : ledger.Unrewarded) (ha : ledger'.accounts = ledger.accounts)
    (ht : ledger'.totals = ledger.totals) : ledger'.Unrewarded := by
  refine ⟨h.toProportional.of_same ha ht, ht ▸ h.pool, ?_⟩
  rw [rootsLoose, ha, ht]
  exact h.loose

/-- and so does a claim. -/
theorem claimFlood {id : AccountId} {out : Outcome Amount} (hp : ledger.Unrewarded)
    (h : Action.claimFlood id ledger = .ok out) : out.ledger.Unrewarded := by
  obtain ⟨updated, totalClaimed, hu, -, -, rfl⟩ := claimFlood_stages h
  have hupdated := hp.moves (.single (.update hu))
  have hemptied : (updated.ledger.withAccount id { updated.ledger.account id with
      flood := { (updated.ledger.account id).flood with claimable := 0 } }).Proportional :=
    hupdated.toProportional.withAccount (hupdated.accounts id)
  exact ⟨hemptied.of_same rfl rfl, hupdated.pool,
    (rootsLoose_claimed _ id totalClaimed).trans hupdated.loose⟩

/-- A report without reward changes neither accounts nor totals. -/
theorem advanceEpoch {report : EpochReport} {out : Outcome Bool} (hp : ledger.Unrewarded)
    (hnone : report.earnedReward = 0) (h : Action.advanceEpoch report ledger = .ok out) :
    out.ledger.Unrewarded := by
  rcases advanceEpoch_stages h with
    ⟨-, rfl⟩ | ⟨-, assets, rewarded, turned, paid, hassets, hreward, hturn, hpay, rfl⟩
  · exact hp
  rw [hnone, receiveReward, if_pos rfl] at hreward
  obtain rfl := pure_eq_ok.mp hreward
  have hturned : turned.ledger.Unrewarded := by
    rcases turnFlood_stages hturn with ⟨-, rfl⟩ | ⟨_, -, rfl⟩ | rfl <;> exact hp.of_same rfl rfl
  rcases hpay with hpay | ⟨-, rfl⟩
  · obtain ⟨_, _, _, _, -, -, -, -, rfl⟩ := payFlood_stages hpay
    exact hturned.of_same rfl rfl
  · exact hturned

/-- An account has nothing to plant. -/
theorem plant {id : AccountId} {out : Outcome PlantReceipt} (hp : ledger.Unrewarded)
    (h : Action.plant id ledger = .ok out) : out.result.quantity = 0 := by
  obtain ⟨mown, quantity, entry, hmow, hearned, -, hout⟩ := plant_stages h
  have hle := earnedBalance_le hearned
  rw [(hp.moves (mow_moves hmow).1).pool] at hle
  have hzero : quantity = 0 := Unsigned.ext (Nat.le_zero.mp hle)
  rcases hout with ⟨-, rfl⟩ | ⟨_, _, _, _, _, _, _, -, -, -, -, -, -, -, rfl⟩
  · rfl
  · exact hzero

end Ledger.Unrewarded

/-! ### Requests -/

/-- The reward that a request tells the ledger of. -/
def Request.reward : Request → Amount
  | .call (.receiveReward quantity) => quantity
  | .call (.advanceEpoch report) => report.earnedReward
  | _ => 0

namespace Vault

variable {vault : Vault}

/-- A call that brings no reward leaves the ledger unrewarded, whatever it has called during its
payout. -/
theorem serve_unrewarded (hentered : vault.entered = false) (hp : vault.ledger.Unrewarded)
    {call : Call} (h : (Request.call call).reward = 0) :
    (serve call vault).2.ledger.Unrewarded := by
  cases call with
  | query | drainEvents => exact hp
  | dewhitelist =>
    refine (transact_changed hentered).holds hp fun h => ?_
    obtain ⟨_, -, rfl⟩ := dewhitelist_stages h
    exact hp.of_same rfl rfl
  | setAccrualRate =>
    refine (transact_changed hentered).holds hp fun h => ?_
    obtain ⟨-, _, -, rfl⟩ := setAccrualRate_stages h
    exact hp.of_same rfl rfl
  | advanceEpoch => exact (transact_changed hentered).holds hp fun ha => hp.advanceEpoch h ha
  | receiveReward quantity =>
    refine (transact_changed hentered).holds hp fun hr => ?_
    rw [show quantity = 0 from h, receiveReward, if_pos rfl] at hr
    obtain rfl := Action.pure_eq_ok.mp hr
    exact hp
  | deposit =>
    refine (transact_changed hentered).holds hp fun h => ?_
    obtain ⟨value, -, hdeposit⟩ := lift_bind.mp h
    exact hp.moves (deposit_moves hdeposit)
  | withdraw =>
    rw [serve_withdraw]
    exact (withdraw_changed hentered).holds hp fun h => hp.moves (withdraw_moves h)
  | convert => exact (transact_changed hentered).holds hp fun h => hp.moves (convert_moves h)
  | transfer => exact (transact_changed hentered).holds hp fun h => hp.moves (transfer_moves h)
  | importLegacy =>
    exact (transact_changed hentered).holds hp fun h => hp.moves (importLegacy_moves h)
  | migrate => exact (transact_changed hentered).holds hp fun h => hp.moves (migrate_moves h)
  | mow => exact (transact_changed hentered).holds hp fun h => hp.moves (mow_moves h).1
  | plant => exact (transact_changed hentered).holds hp fun h => hp.moves (plant_moves h)
  | claim =>
    rw [serve_claim]
    exact (claim_changed hentered).holds hp hp.claimFlood

/-- **A request without reward** leaves roots in proportion and the pool empty. -/
theorem handle_unrewarded (hentered : vault.entered = false) (hp : vault.ledger.Unrewarded)
    {request : Request} (h : request.reward = 0) :
    (handle request vault).2.ledger.Unrewarded := by
  cases request with
  | whitelist asset terms valuation =>
    refine (whitelist_changed hentered asset terms valuation).holds hp fun h => ?_
    obtain ⟨-, -, -, rfl⟩ := whitelist_stages h
    exact hp.of_same rfl rfl
  | register asset valuation =>
    have hledger : (handle (.register asset valuation) vault).2.ledger = vault.ledger :=
      register_frame asset valuation
    rw [hledger]
    exact hp
  | call call => exact serve_unrewarded hentered hp h

/-- By induction on the requests, so does a run without reward. -/
theorem run_unrewarded {requests : List Request} (hentered : vault.entered = false)
    (hp : vault.ledger.Unrewarded) (h : ∀ request ∈ requests, request.reward = 0) :
    (run requests vault).2.ledger.Unrewarded := by
  induction requests generalizing vault with
  | nil => exact hp
  | cons request requests ih =>
    obtain ⟨hfirst, hrest⟩ := List.forall_mem_cons.mp h
    exact ih (handle_transition hentered request).2 (handle_unrewarded hentered hp hfirst) hrest

/-- **Without reward roots stay in proportion.**  Make any requests to a new vault, none of which tells
it of a reward.  Then every account has a fixed number of roots for each unit of its stalk, the totals
are in the same proportion, and a planting that succeeds plants nothing. -/
theorem roots_in_proportion {charter : Charter} {start : Vault} (h : genesis charter = .ok start)
    (requests : List Request) (hnone : ∀ request ∈ requests, request.reward = 0) :
    let vault := (run requests start).2
    (∀ id, (vault.ledger.account id).roots.toNat =
        rootsPerFirstStalk.toNat * (vault.ledger.account id).stalk.toNat) ∧
      vault.ledger.totals.roots.toNat =
          rootsPerFirstStalk.toNat * vault.ledger.totals.stalk.toNat ∧
        ∀ id receipt, (serve (.plant id) vault).1.result = .ok (.planted receipt) →
          receipt.quantity = 0 := by
  intro vault
  obtain ⟨hledger, hentered⟩ := genesis_eq_ok h
  have hp : vault.ledger.Unrewarded := run_unrewarded hentered (.of_genesis hledger) hnone
  refine ⟨hp.accounts, hp.totals, fun id receipt hanswer => ?_⟩
  obtain ⟨out, hplant, -, hreceipt⟩ := plant_of_answer (run_entered requests hentered) hanswer
  obtain rfl := Answer.planted.inj hreceipt
  exact hp.plant hplant

/-- The base asset is listed late, and the first reward has yet to come. -/
def unrewardedRequests : List Request :=
  sampleRequests ++
    [.whitelist 0 ⟨10000, 2, none⟩ .unit, .call (.deposit 7 0 5), .call (.receiveReward 0)]

/-- The base asset is listed in the end, so account 7 can plant; there is nothing to plant. -/
theorem roots_in_proportion_listed : genesis ⟨10, 10, 0, 9⟩ = .ok sample ∧
    (∀ request ∈ unrewardedRequests, request.reward = 0) ∧
    let vault := (run unrewardedRequests sample).2
    (vault.ledger.account 7).roots = 390420000000000000 ∧
    (serve (.plant 7) vault).1.result = .ok (.planted ⟨0, 0, 0⟩) ∧
    (∀ id, (vault.ledger.account id).roots.toNat =
        rootsPerFirstStalk.toNat * (vault.ledger.account id).stalk.toNat) ∧
      vault.ledger.totals.roots.toNat =
          rootsPerFirstStalk.toNat * vault.ledger.totals.stalk.toNat ∧
        ∀ id receipt, (serve (.plant id) vault).1.result = .ok (.planted receipt) →
          receipt.quantity = 0 := by
  have hnone : ∀ request ∈ unrewardedRequests, request.reward = 0 := by decide +kernel
  exact ⟨genesis_sample, hnone, by decide +kernel, by decide +kernel,
    roots_in_proportion genesis_sample unrewardedRequests hnone⟩

end Vault

end StalkLedger
