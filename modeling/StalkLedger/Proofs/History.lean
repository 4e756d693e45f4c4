import StalkLedger.Proofs.Solvency

/-!
# What an account is paid over a run

Every payout of a run raises the payout per root.  An account is entitled to this raise on the roots
it had when the flood began that was paid, whatever it has done since (`History.entitlement`).

* One transition moves what an account is owed by exactly that, and rounds down three times if the
  account is settled (`Ledger.Course`, `Transition.course`).
* Over a run the two are compared by `History.Followed`, which also ties the roots on which an
  account is paid to those it had when the flood began.

So what an account has claimed, with its balance, is what it is entitled to, up to three units for
each time it has been settled and three more for its balance (`Vault.payouts_follow_roots`).
-/

namespace StalkLedger

open StalkLedger.Action Ledger FloodBook

/-! ### From one ledger to the next -/

namespace Ledger

/-- What an account is owed, paid or not, in scaled units. -/
def owed (ledger : Ledger) (id : AccountId) : ℤ :=
  ledger.floodBook.owing (ledger.account id).roots (ledger.account id).flood

/-- The roots on which an account is paid for the flood of an epoch. -/
def paidOn (ledger : Ledger) (start : Epoch) (id : AccountId) : Amount :=
  rate start (ledger.account id).roots (ledger.account id).flood

/-- By how much the payout per root has been raised. -/
def raised (ledger ledger' : Ledger) : ℤ :=
  ledger'.floodBook.payoutPerRoot.toNat - ledger.floodBook.payoutPerRoot.toNat

/-- How often an account has been settled, from one request to the next: at most once in an epoch,
which it is then marked with. -/
def settlements (ledger ledger' : Ledger) (id : AccountId) : ℕ :=
  if (ledger'.account id).lastUpdate = (ledger.account id).lastUpdate then 0 else 1

/-- What has become of all accounts in the book of floods.  What is owed has been raised on the roots
that count for the flood that is on; these are the same as before, or those the account has now, if
the flood has just begun. -/
structure Course (ledger ledger' : Ledger) (paid : AccountId → ℕ) : Prop where
  epoch : ledger.epoch ≤ ledger'.epoch
  owed : ∀ id, Rounded (3 * ledger.settlements ledger' id)
    (ledger.owed id + ledger.raised ledger' *
      ledger'.floodBook.active.elim 0 fun start => (ledger'.paidOn start id).toNat)
    (scale * paid id + ledger'.owed id)
  paidOn : ∀ {start}, ledger'.floodBook.active = some start →
    ledger.floodBook.active = some start ∧ (∀ id, ledger'.paidOn start id = ledger.paidOn start id) ∨
      ledger.epoch < start ∧ ∀ id, ledger'.paidOn start id = (ledger'.account id).roots

variable {ledger ledger' : Ledger} {id : AccountId}

theorem raised_eq_zero (h : ledger'.floodBook.payoutPerRoot = ledger.floodBook.payoutPerRoot) :
    ledger.raised ledger' = 0 := by
  rw [raised, h, sub_self]

/-- Nothing is raised or paid while every account is kept. -/
theorem Course.of_kept (he : ledger'.epoch = ledger.epoch)
    (hb : ledger'.floodBook = ledger.floodBook)
    (hk : ∀ id, ledger.floodBook.Kept ledger.epoch (ledger.account id) (ledger'.account id)) :
    Course ledger ledger' 0 := by
  refine ⟨Nat.le_of_eq (congrArg _ he.symm), fun id => ?_, fun {start} hon => .inl ?_⟩
  · have hraised : ledger.raised ledger' = 0 := raised_eq_zero (by rw [hb])
    rw [hraised, zero_mul, add_zero, Pi.zero_apply, Nat.cast_zero, mul_zero, zero_add,
      Ledger.owed, Ledger.owed, hb, settlements]
    rcases (hk id).owing with ⟨hl, ho⟩ | ⟨hlt, hl, ho⟩
    · rw [if_pos hl, ho]
      exact .refl _ _
    · rw [if_neg]
      · exact ho
      · intro hsame
        rw [hl] at hsame
        exact Nat.lt_irrefl _ (hsame ▸ hlt)
  · rw [hb] at hon
    exact ⟨hon, fun id => (hk id).rate hon⟩

theorem Course.still (ha : ledger'.accounts = ledger.accounts) (he : ledger'.epoch = ledger.epoch)
    (hb : ledger'.floodBook = ledger.floodBook) : Course ledger ledger' 0 := by
  refine .of_kept he hb fun id => ?_
  rw [account_congr ha]
  exact .refl _ _ _

/-- What a claim does not see of an account, it leaves alone. -/
theorem account_claimed {β : Type} (f : Account → β) (totalClaimed : Amount) (id' : AccountId)
    (hf : f { ledger.account id with
      flood := { (ledger.account id).flood with claimable := 0 } } = f (ledger.account id)) :
    f ((ledger.claimed id totalClaimed).account id') = f (ledger.account id') := by
  refine (congrArg f (account_withAccount ledger id id' _)).trans ?_
  split
  next heq => rw [hf, heq]
  next => rfl

/-- An account is owed less by what it has claimed, and the others are owed what they were. -/
theorem owed_claimed (ledger : Ledger) (id : AccountId) (totalClaimed : Amount) (id' : AccountId) :
    (ledger.claimed id totalClaimed).owed id' = ledger.owed id' -
      scale * (Pi.single id (ledger.account id).flood.claimable.toNat : AccountId → ℕ) id' := by
  show ledger.floodBook.owing ((ledger.withAccount id _).account id').roots
    ((ledger.withAccount id _).account id').flood = _
  rw [account_withAccount]
  split
  next heq => rw [heq, Pi.single_eq_same, owing_claimed, owed]
  next hne => rw [Pi.single_eq_of_ne hne, Nat.cast_zero, mul_zero, sub_zero, owed]

/-- What an account takes out, it is paid. -/
theorem Course.claimed (h : Course ledger ledger' 0) (id : AccountId) (totalClaimed : Amount) :
    Course ledger (ledger'.claimed id totalClaimed)
      (Pi.single id (ledger'.account id).flood.claimable.toNat) := by
  have hpaidOn (start : Epoch) (id' : AccountId) :
      (ledger'.claimed id totalClaimed).paidOn start id' = ledger'.paidOn start id' :=
    account_claimed (fun a => rate start a.roots a.flood) totalClaimed id' rfl
  refine ⟨h.epoch, fun id' => ?_, fun {start} hon => ?_⟩
  · have hsettlements : ledger.settlements (ledger'.claimed id totalClaimed) id' =
        ledger.settlements ledger' id' := by
      rw [settlements, account_claimed Account.lastUpdate totalClaimed id' rfl, settlements]
    have howed := h.owed id'
    rw [Pi.zero_apply, Nat.cast_zero, mul_zero, zero_add] at howed
    simp only [hpaidOn]
    rw [hsettlements, owed_claimed, add_sub_cancel]
    exact howed
  · simp only [hpaidOn, account_claimed Account.roots totalClaimed _ rfl]
    exact h.paidOn hon

/-- A new report before its payout owes nobody more.  If it begins a flood, every account is paid on
its roots. -/
theorem Reported.course (h : Reported ledger ledger') (hs : ledger.Solvent) :
    Course ledger ledger' 0 := by
  have hpaidOn (start : Epoch) (id : AccountId) :
      ledger'.paidOn start id = ledger.paidOn start id := by
    rw [paidOn, h.account, paidOn]
  refine ⟨Nat.le_of_lt h.epoch, fun id => ?_, fun {start} hon => ?_⟩
  · have hsettlements : ledger.settlements ledger' id = 0 := by
      rw [settlements, h.account, if_pos rfl]
    have howed : ledger'.owed id = ledger.owed id := by
      rw [owed, h.account]
      exact h.owing hs id
    have hraised := raised_eq_zero h.funds.1
    rw [hsettlements, howed, hraised, zero_mul, add_zero, Pi.zero_apply, Nat.cast_zero, mul_zero,
      mul_zero, zero_add]
    exact .refl _ _
  · rcases h.active hon with ⟨hbefore, -⟩ | ⟨rfl, -⟩
    · exact .inl ⟨hbefore, hpaidOn start⟩
    · refine .inr ⟨h.epoch, fun id => ?_⟩
      rw [hpaidOn, paidOn, hs.rate_later h.epoch, h.account]

/-- A payout is owed to every account on the roots it is paid on. -/
theorem Course.paid {turned : Ledger} {start : Epoch} {flood : Flood} {amount : Amount}
    (h : Course ledger turned 0) (hp : Paid turned ledger' start flood amount)
    (hs : turned.Solvent) : Course ledger ledger' 0 := by
  obtain ⟨current, hcurrent, hend⟩ := hs.book.active hp.active
  obtain rfl := Option.some.inj (hp.record.symm.trans hcurrent)
  obtain ⟨steps, -, hraised, -⟩ := paid_spec hp.record hend hp.paid
  have haccount (id : AccountId) : ledger'.account id = turned.account id := by
    rw [hp.ledger]
    rfl
  have hpaidOn (start : Epoch) (id : AccountId) :
      ledger'.paidOn start id = turned.paidOn start id := by
    rw [Ledger.paidOn, haccount, Ledger.paidOn]
  refine ⟨?_, fun id => ?_, fun {start'} hon => ?_⟩
  · rw [hp.ledger]
    exact h.epoch
  · have hsettlements : ledger.settlements ledger' id = ledger.settlements turned id := by
      rw [settlements, haccount, settlements]
    have howed : ledger'.owed id = turned.owed id + steps * (turned.paidOn start id).toNat := by
      rw [Ledger.owed, haccount, owing_raised (hs.account id).share hraised, Ledger.owed,
        Ledger.paidOn]
    have hindex : ledger.raised ledger' = ledger.raised turned + steps := by
      rw [raised, hraised.index, raised]
      push_cast
      ring
    -- The payout adds the same to what the account is owed and to what it is entitled to.
    have hcourse := (h.owed id).add_right (steps * (turned.paidOn start id).toNat)
    rw [hp.active, Option.elim_some] at hcourse
    rw [hsettlements, howed, hindex, hraised.active, hp.active, Option.elim_some, hpaidOn, add_mul,
      ← add_assoc, ← add_assoc]
    exact hcourse
  · simp only [hpaidOn, haccount]
    rw [hraised.active] at hon
    exact h.paidOn hon

end Ledger

/-- **What a transition does to what accounts are owed**, and to the roots they are paid on. -/
theorem Transition.course {ledger ledger' : Ledger} {paid : AccountId → ℕ} {events : Event.Log}
    (h : Transition ledger paid events ledger') (hs : ledger.Solvent)
    (hroots : ledger.rootsLoose = 0) : Course ledger ledger' paid := by
  cases h with
  | posting h =>
    obtain ⟨-, he, hb, hk⟩ := h.drift.solvent hs
    exact .of_kept he hb hk
  | claim h =>
    obtain ⟨updated, totalClaimed, hu, -, -, rfl⟩ := claimFlood_stages h
    obtain ⟨-, he, hb, hk⟩ := (Move.update hu).drift.solvent hs
    exact (Course.of_kept he hb hk).claimed _ totalClaimed
  | whitelist h =>
    obtain ⟨-, -, -, rfl⟩ := whitelist_stages h
    exact .still rfl rfl rfl
  | dewhitelist h =>
    obtain ⟨entry, -, rfl⟩ := dewhitelist_stages h
    exact .still rfl rfl rfl
  | setAccrualRate h =>
    obtain ⟨-, entry, -, rfl⟩ := setAccrualRate_stages h
    exact .still rfl rfl rfl
  | reward h =>
    rcases receiveReward_stages h with ⟨-, rfl⟩ | ⟨_, _, _, _, -, -, -, -, rfl⟩
    · exact .still rfl rfl rfl
    · exact .still rfl rfl rfl
  | advance h =>
    rcases reported_of_advanceEpoch h with heq | ⟨turned, hreported, hpaid⟩
    · rw [heq]
      exact .still rfl rfl rfl
    rcases hpaid with heq | ⟨start, flood, amount, hpaid⟩
    · rw [heq]
      exact hreported.course hs
    · exact (hreported.course hs).paid hpaid (hreported.solvent hs hroots)

/-! ### Histories -/

/-- A request of a run with its reply, between the ledger before and the ledger after it. -/
structure Episode where
  request : Request
  reply : Reply
  before : Ledger
  after : Ledger

/-- What has happened in a run, first things first. -/
abbrev History := List Episode

/-- The history of some requests to a vault. -/
def Vault.history : List Request → Vault → History
  | [], _ => []
  | request :: requests, vault =>
    let (reply, after) := handle request vault
    ⟨request, reply, vault.ledger, after.ledger⟩ :: history requests after

namespace History

/-- The roots of an account when the flood of an epoch began: none, if it was never touched. -/
def startRoots (past : History) (id : AccountId) (start : Epoch) : Amount :=
  (past.find? fun episode => episode.after.floodBook.active = some start).elim 0 fun episode =>
    (episode.after.account id).roots

/-- The roots an account had at the start of the flood that is on after an episode. -/
def activeRoots (past : History) (id : AccountId) (episode : Episode) : ℤ :=
  episode.after.floodBook.active.elim 0 fun start => (past.startRoots id start).toNat

/-- What an account is to be paid of all payouts, in scaled units: the raise of the payout per root
by each of them, on the roots it had when the flood began that was paid. -/
def entitlement (past : History) (id : AccountId) : ℤ :=
  (past.map fun episode =>
    episode.before.raised episode.after * past.activeRoots id episode).sum

/-- What an account has claimed. -/
def claimed (past : History) (id : AccountId) : ℕ :=
  (past.map fun episode => episode.request.claimed episode.reply id).sum

/-- How often an account has been settled. -/
def settlements (past : History) (id : AccountId) : ℕ :=
  (past.map fun episode => episode.before.settlements episode.after id).sum

variable {past : History} {episode : Episode} {ledger : Ledger} {id : AccountId} {start : Epoch}

/-- When a flood began is known once it has been on. -/
theorem startRoots_append_of_mem (hmem : episode ∈ past)
    (hon : episode.after.floodBook.active = some start) (next : Episode) (id : AccountId) :
    startRoots (past ++ [next]) id start = past.startRoots id start := by
  unfold startRoots
  rw [List.find?_append]
  cases hfind : past.find? fun episode => episode.after.floodBook.active = some start with
  | none => exact absurd (decide_eq_true hon) (List.find?_eq_none.mp hfind episode hmem)
  | some _ => rfl

theorem startRoots_append_of_new
    (hnew : ∀ episode ∈ past, episode.after.floodBook.active ≠ some start)
    {next : Episode} (hon : next.after.floodBook.active = some start) (id : AccountId) :
    startRoots (past ++ [next]) id start = (next.after.account id).roots := by
  have hfind : past.find? (fun episode => episode.after.floodBook.active = some start) = none :=
    List.find?_eq_none.mpr fun episode hmem => by
      rw [decide_eq_true_eq]
      exact hnew episode hmem
  rw [startRoots, List.find?_append, hfind, Option.none_or, List.find?_singleton,
    if_pos (decide_eq_true hon)]
  rfl

theorem activeRoots_append (hmem : episode ∈ past) (next : Episode) (id : AccountId) :
    activeRoots (past ++ [next]) id episode = past.activeRoots id episode := by
  unfold activeRoots
  cases hon : episode.after.floodBook.active with
  | none => rfl
  | some start =>
    rw [Option.elim_some, Option.elim_some, startRoots_append_of_mem hmem hon]

theorem entitlement_append (past : History) (next : Episode) (id : AccountId) :
    entitlement (past ++ [next]) id = past.entitlement id +
      next.before.raised next.after * activeRoots (past ++ [next]) id next := by
  rw [entitlement, List.map_append, List.sum_append, List.map_singleton, List.sum_singleton,
    entitlement]
  congr 2
  refine List.map_congr_left fun episode hmem => ?_
  rw [activeRoots_append hmem]

/-! ### Followed histories -/

/-- A ledger and the history that has led to it: floods began in no epoch later than the ledger's;
accounts are paid for the flood that is on, on the roots they had when it began; and what an account
has claimed and is owed is what it is entitled to, rounded down at each settlement. -/
structure Followed (past : History) (ledger : Ledger) : Prop where
  solvent : ledger.Solvent
  roots : ledger.rootsLoose = 0
  begun : ∀ episode ∈ past, ∀ {start}, episode.after.floodBook.active = some start →
    start ≤ ledger.epoch
  started : ∀ {start}, ledger.floodBook.active = some start →
    (∃ episode ∈ past, episode.after.floodBook.active = some start) ∧
      ∀ id, ledger.paidOn start id = past.startRoots id start
  owed : ∀ id, Rounded (3 * past.settlements id) (past.entitlement id)
    (scale * past.claimed id + ledger.owed id)

/-- A new ledger has no history: no flood is on, and nothing is owed. -/
theorem followed_of_genesis {charter : Charter} (h : Ledger.genesis charter = .ok ledger) :
    Followed [] ledger := by
  obtain ⟨hs, hroots⟩ := solvent_of_genesis h
  simp only [Ledger.genesis, bind_eq_ok, StalkLedger.pure_eq_ok] at h
  obtain ⟨_, -, rfl⟩ := h
  refine ⟨hs, hroots, fun _ hmem => absurd hmem List.not_mem_nil,
    fun hstart => absurd hstart.symm (Option.some_ne_none _), fun id => ?_⟩
  have hnothing : scale * (claimed [] id : ℤ) + FloodBook.fresh.owing Account.fresh.roots
      Account.fresh.flood = 0 := by
    rw [owing_fresh, add_zero]
    exact mul_zero scale
  show Rounded 0 0 (_ + FloodBook.fresh.owing Account.fresh.roots Account.fresh.flood)
  rw [hnothing]
  exact .refl 0 0

/-- **The next episode**: a transition of the ledger is followed by the history with it. -/
theorem Followed.append {next : Episode} {events : Event.Log} (h : Followed past next.before)
    (ht : Transition next.before (next.request.claimed next.reply) events next.after) :
    Followed (past ++ [next]) next.after := by
  have hcourse := ht.course h.solvent h.roots
  obtain ⟨hsolvent, hroots⟩ := ht.solvent h.solvent h.roots
  have hstarted {start : Epoch} (hon : next.after.floodBook.active = some start) :
      (∃ episode ∈ past ++ [next], episode.after.floodBook.active = some start) ∧
        ∀ id, next.after.paidOn start id = startRoots (past ++ [next]) id start := by
    refine ⟨⟨next, List.mem_append_right past (List.mem_singleton_self next), hon⟩, fun id => ?_⟩
    rcases hcourse.paidOn hon with ⟨hbefore, hsame⟩ | ⟨hlt, hnew⟩
    · obtain ⟨⟨episode, hmem, hfirst⟩, hstart⟩ := h.started hbefore
      rw [hsame, hstart, startRoots_append_of_mem hmem hfirst]
    · -- A flood that has just begun is younger than the ledger before, so it was never on.
      rw [hnew, startRoots_append_of_new (fun episode hmem hfirst => ?_) hon]
      exact Nat.not_le.mpr hlt (h.begun episode hmem hfirst)
  refine ⟨hsolvent, hroots, ?_, hstarted, fun id => ?_⟩
  · intro episode hmem start hon
    rcases List.mem_append.mp hmem with hmem | hmem
    · exact Nat.le_trans (h.begun episode hmem hon) hcourse.epoch
    · obtain rfl := List.mem_singleton.mp hmem
      obtain ⟨flood, hf, -⟩ := hsolvent.book.active hon
      exact (hsolvent.book.record hf).1
  · have hactive : activeRoots (past ++ [next]) id next =
        next.after.floodBook.active.elim 0 fun start => (next.after.paidOn start id).toNat := by
      unfold activeRoots
      cases hon : next.after.floodBook.active with
      | none => rfl
      | some start => rw [Option.elim_some, Option.elim_some, (hstarted hon).2]
    have hclaimed : claimed (past ++ [next]) id =
        past.claimed id + next.request.claimed next.reply id := by
      rw [claimed, List.map_append, List.sum_append, List.map_singleton, List.sum_singleton,
        claimed]
    have hsettlements : settlements (past ++ [next]) id =
        past.settlements id + next.before.settlements next.after id := by
      rw [settlements, List.map_append, List.sum_append, List.map_singleton, List.sum_singleton,
        settlements]
    have hbefore := (h.owed id).add_right
      (next.before.raised next.after * activeRoots (past ++ [next]) id next)
    have hnext := (hcourse.owed id).add_left (scale * past.claimed id)
    rw [← hactive, ← add_assoc] at hnext
    rw [hsettlements, Nat.mul_add, entitlement_append, hclaimed, Nat.cast_add, mul_add, add_assoc]
    exact hbefore.trans hnext

end History

namespace Vault

/-- A history goes on with each request; the induction is on the requests, for whatever has happened
before. -/
theorem followed_run {past : History} {vault : Vault} (hentered : vault.entered = false)
    (h : past.Followed vault.ledger) (requests : List Request) :
    History.Followed (past ++ history requests vault) (run requests vault).2.ledger := by
  induction requests generalizing past vault with
  | nil =>
    rw [history, List.append_nil]
    exact h
  | cons request requests ih =>
    obtain ⟨htransition, hentered'⟩ := handle_transition hentered request
    have hnext : History.Followed (past ++ [⟨request, (handle request vault).1, vault.ledger,
        (handle request vault).2.ledger⟩]) (handle request vault).2.ledger :=
      h.append htransition
    rw [history, List.append_cons]
    exact ih hentered' hnext

theorem followed {charter : Charter} {start : Vault} (h : genesis charter = .ok start)
    (requests : List Request) :
    (history requests start).Followed (run requests start).2.ledger := by
  obtain ⟨hledger, hentered⟩ := genesis_eq_ok h
  exact followed_run hentered (History.followed_of_genesis hledger) requests

/-- **Payouts follow the roots at the start of each flood.**  Whatever requests a new vault gets, an
account is due the raise of the payout per root by every payout, on the roots it had when the flood
began, divided by the precision.  What it has received, claimed or in its balance, is no more than
that, and falls short of it by less than three units for each time the account was settled, and three
more.  Nothing it did while a flood was on, and no choice of when to be settled, is in what it is
due. -/
theorem payouts_follow_roots {charter : Charter} {start : Vault} (h : genesis charter = .ok start)
    (requests : List Request) (id : AccountId) :
    let past := history requests start
    ∃ balance : Amount, (run requests start).2.ledger.floodBalance id = .ok balance ∧
      let due : ℚ := past.entitlement id / FloodBook.precision.toNat
      let received : ℚ := past.claimed id + balance.toNat
      received ≤ due ∧ due - 3 * (past.settlements id + 1) < received := by
  intro past
  have hfollowed : past.Followed (run requests start).2.ledger := followed h requests
  obtain ⟨balance, hbalance, hrounded, -⟩ := hfollowed.solvent.balance id
  refine ⟨balance, hbalance, ?_⟩
  intro due received
  have hscale : (0 : ℚ) < FloodBook.precision.toNat := by exact_mod_cast precision_pos
  -- What is owed at the end is rounded once more, to the balance.
  obtain ⟨hle, hlt⟩ := (hfollowed.owed id).trans (hrounded.add_left _)
  rw [scale] at hle hlt
  have hle : (FloodBook.precision.toNat : ℚ) * received ≤ past.entitlement id := by
    rw [mul_add]
    exact_mod_cast hle
  have hlt : (past.entitlement id : ℚ) <
      FloodBook.precision.toNat * (received + 3 * (past.settlements id + 1)) := by
    have hlost : (past.entitlement id : ℚ) ≤ FloodBook.precision.toNat * received +
        (3 * past.settlements id + 3) * (FloodBook.precision.toNat - 1) := by
      rw [mul_add]
      exact_mod_cast hlt
    have hn : (0 : ℚ) ≤ past.settlements id := Nat.cast_nonneg _
    linarith
  refine ⟨?_, ?_⟩
  · rw [le_div_iff₀' hscale]
    exact hle
  · rw [sub_lt_iff_lt_add, div_lt_iff₀' hscale]
    exact hlt

/-- Account 8 gives roots away while the flood of epoch 12 is on, and is paid on those it had. -/
theorem payouts_follow_roots_sample : genesis ⟨10, 10, 0, 9⟩ = .ok sample ∧
    let past := history sampleRequests sample
    let ledger := (run sampleRequests sample).2.ledger
    past.startRoots 8 12 = 500000000000000000 ∧
      (ledger.account 8).roots = 480258000000000000 ∧
        past.claimed 8 = 555 ∧ past.settlements 8 = 3 ∧
          ∃ balance : Amount, ledger.floodBalance 8 = .ok balance ∧
            let due : ℚ := past.entitlement 8 / FloodBook.precision.toNat
            let received : ℚ := past.claimed 8 + balance.toNat
            received ≤ due ∧ due - 3 * (past.settlements 8 + 1) < received :=
  ⟨genesis_sample, by decide +kernel, by decide +kernel, by decide +kernel, by decide +kernel,
    payouts_follow_roots genesis_sample sampleRequests 8⟩

end Vault

end StalkLedger
