import StalkLedger.Proofs.Flow
import StalkLedger.Vault.Call

/-!
# What a request does to the ledger

The ledger of a vault changes in a few ways only: by moves that keep the books in balance, by a claim,
by a change of the registry, by a reward, or by a report of the clock (`Transition`).  A request to a
vault either changes nothing, or it is one transition, with the events that the request gained
(`Vault.handle_transition`): while a payout is carried out the vault is entered, and whoever carries
it out can change nothing (`Vault.serve_of_entered`).

**Invariants** (`Vault.run_invariant`).  What every transition preserves holds after any requests.
-/

namespace StalkLedger

open StalkLedger.Action

/-! ### Transitions -/

/-- What one accepted request does to a ledger, with what it has paid out of floods to each account,
and the events it has recorded. -/
inductive Transition : Ledger → (AccountId → ℕ) → Event.Log → Ledger → Prop
  /-- The books move and stay in balance. -/
  | posting {ledger ledger' events} (h : Moves ledger 0 events ledger') :
      Transition ledger 0 events ledger'
  /-- An account claims what it has been paid. -/
  | claim {ledger id out} (h : claimFlood id ledger = .ok out) :
      Transition ledger (Pi.single id out.result.toNat) out.events out.ledger
  | whitelist {ledger id terms out} (h : Action.whitelist id terms ledger = .ok out) :
      Transition ledger 0 out.events out.ledger
  | dewhitelist {ledger id out} (h : Action.dewhitelist id ledger = .ok out) :
      Transition ledger 0 out.events out.ledger
  | setAccrualRate {ledger id rate out} (h : Action.setAccrualRate id rate ledger = .ok out) :
      Transition ledger 0 out.events out.ledger
  | reward {ledger quantity out} (h : receiveReward quantity ledger = .ok out) :
      Transition ledger 0 out.events out.ledger
  | advance {ledger report out} (h : advanceEpoch report ledger = .ok out) :
      Transition ledger 0 out.events out.ledger

/-- A request that changes nothing. -/
theorem Transition.rest {ledger : Ledger} : Transition ledger 0 ∅ ledger := .posting .refl

/-- What a request has paid out of floods to an account, by its reply. -/
def Request.claimed (request : Request) (reply : Reply) : AccountId → ℕ :=
  match request, reply.result with
  | .call (.claim id _ _), .ok (.amount amount) => Pi.single id amount.toNat
  | _, _ => 0

namespace Reply

variable {α : Type}

theorem result_ofPaying (answer : α → Answer)
    (change : (Completion α × Option (Payout Transcript)) × Vault) :
    (ofPaying answer change).1.result = change.1.1.result.map answer := rfl

theorem payout_ofPaying (answer : α → Answer)
    (change : (Completion α × Option (Payout Transcript)) × Vault) :
    (ofPaying answer change).1.payout = change.1.2 := rfl

end Reply

namespace Vault

variable {α ρ : Type} {vault : Vault}

/-! ### Changes -/

/-- What a vault that was not entered has made of a change: nothing, or all of it. -/
inductive Changed (action : Action α) (vault : Vault) (completion : Completion α)
    (after : Vault) : Prop
  | refused (fault : Fault) (hc : completion = ⟨.error fault, ∅⟩)
      (hl : after.ledger = vault.ledger) (he : after.entered = false)
  | made (out : Outcome α) (h : action vault.ledger = .ok out)
      (hc : completion = ⟨.ok out.result, out.events⟩) (hl : after.ledger = out.ledger)
      (he : after.entered = false)

/-- What follows from a change leaves the ledger to the vault. -/
theorem transactThen_changed {action : Action α} {follow : α → Vault → Option (Payout ρ) × Vault}
    (hentered : vault.entered = false)
    (hfollow : ∀ a after, after.entered = true → (follow a after).2.ledger = after.ledger) :
    Changed action vault (vault.transactThen action follow).1.1
      (vault.transactThen action follow).2 := by
  unfold transactThen
  rw [if_neg (by rw [hentered]; exact Bool.false_ne_true)]
  cases haction : action vault.ledger with
  | error fault => exact .refused fault rfl rfl hentered
  | ok out =>
    have hledger := hfollow out.result { vault with ledger := out.ledger, entered := true } rfl
    dsimp only
    revert hledger
    rcases follow out.result { vault with ledger := out.ledger, entered := true } with
      ⟨_ | payout, after⟩
    · exact fun hledger => .made out haction rfl hledger rfl
    · intro hledger
      dsimp only
      split
      · exact .made out haction rfl hledger rfl
      · exact .refused _ rfl rfl rfl

/-- An action that is carried out is kept if it succeeds, and undone if it is refused, -/
theorem transact_changed {action : Action α} (hentered : vault.entered = false) :
    Changed action vault (vault.transact action).1 (vault.transact action).2 := by
  have hchanged : Changed action vault
      (vault.transactThen action fun _ vault => ((none : Option (Payout Unit)), vault)).1.1 _ :=
    transactThen_changed hentered fun _ _ _ => rfl
  exact hchanged

/-- also if it has a payment carried out, as long as the carrier leaves the ledger alone. -/
theorem transactPaying_changed {action : Action α} {due : α → Payment} {carrier : Carrier ρ}
    (hentered : vault.entered = false)
    (hcarrier : ∀ payment after, after.entered = true →
      (carrier payment after).2.ledger = after.ledger) :
    Changed action vault (vault.transactPaying action due carrier).1.1
      (vault.transactPaying action due carrier).2 := by
  refine transactThen_changed hentered fun a after he => ?_
  unfold pay
  split
  · rfl
  · exact hcarrier (due a) after he

/-- A change whose action fails has that fault. -/
theorem transactPaying_of_error {action : Action α} {due : α → Payment} {carrier : Carrier ρ}
    {fault : Fault} (hentered : vault.entered = false) (h : action vault.ledger = .error fault) :
    (vault.transactPaying action due carrier).1 = (⟨.error fault, ∅⟩, none) := by
  rw [transactPaying, transactThen, if_neg (by rw [hentered]; exact Bool.false_ne_true), h]

theorem transactThen_of_entered {action : Action α}
    {follow : α → Vault → Option (Payout ρ) × Vault} (hentered : vault.entered = true) :
    vault.transactThen action follow = ((⟨.error .reentrancy, ∅⟩, none), vault) := by
  rw [transactThen, if_pos hentered]

/-- While a change is in progress every other one is refused. -/
theorem transact_of_entered {action : Action α} (hentered : vault.entered = true) :
    vault.transact action = (⟨.error .reentrancy, ∅⟩, vault) := by
  rw [transact, transactThen_of_entered hentered]

/-! ### Calls while a payout is carried out -/

/-- A call on an entered vault changes at most the log. -/
theorem serve_of_entered (hentered : vault.entered = true) (call : Call) :
    (serve call vault).2.ledger = vault.ledger ∧ (serve call vault).2.entered = true := by
  have unchanged {after : Vault} (h : after = vault) :
      after.ledger = vault.ledger ∧ after.entered = true := by
    rw [h]
    exact ⟨rfl, hentered⟩
  have transacted {α : Type} (action : Action α) (answer : α → Answer) :
      (Reply.ofCompletion answer (vault.transact action)).2 = vault := by
    rw [transact_of_entered hentered]
    rfl
  have paid {α : Type} (action : Action α) (answer : α → Answer) (due : α → Payment)
      (carrier : Carrier Transcript) :
      (Reply.ofPaying answer (vault.transactPaying action due carrier)).2 = vault := by
    rw [transactPaying, transactThen_of_entered hentered]
    rfl
  cases call with
  | query | drainEvents => exact ⟨rfl, hentered⟩
  | dewhitelist | setAccrualRate | advanceEpoch | receiveReward | deposit | convert | transfer
  | importLegacy | migrate | mow | plant =>
    exact unchanged (by rw [serve]; exact transacted _ _)
  | withdraw | claim => exact unchanged (by rw [serve]; exact paid _ _ _ _)

/-- Calls that a payout makes while it is carried out leave the ledger alone, however many they
are. -/
theorem serveAll_of_entered (hentered : vault.entered = true) (calls : List Call) :
    (serveAll calls vault).2.ledger = vault.ledger := by
  induction calls generalizing vault with
  | nil => rfl
  | cons call calls ih =>
    obtain ⟨hledger, hentered'⟩ := serve_of_entered hentered call
    exact (ih hentered').trans hledger

/-- Whoever carries out a payout, makes some calls and accepts or refuses. -/
def carrying (accepts : Bool) (inner : List Call) : Carrier Transcript := fun _ vault =>
  let (replies, vault) := serveAll inner vault
  ((accepts, replies.map (·.result)), vault)

/-- So does the payout as a whole. -/
theorem carrying_of_entered {accepts : Bool} {inner : List Call} (payment : Payment)
    (hentered : vault.entered = true) :
    (carrying accepts inner payment vault).2.ledger = vault.ledger :=
  serveAll_of_entered hentered inner

/-- A change whose payout is accepted gives what its action gives, and what is due has been paid. -/
theorem transactPaying_accepted {action : Action α} (due : α → Payment) (inner : List Call)
    {out : Outcome α} (hentered : vault.entered = false) (h : action vault.ledger = .ok out)
    (hdue : (due out.result).quantity ≠ 0) : ∃ report,
      (vault.transactPaying action due (carrying true inner)).1 =
        (⟨.ok out.result, out.events⟩, some ⟨due out.result, true, report⟩) := by
  rw [transactPaying, transactThen, if_neg (by rw [hentered]; exact Bool.false_ne_true), h]
  simp only [pay, if_neg hdue, carrying, if_true]
  exact ⟨_, rfl⟩

theorem serve_withdraw (owner : AccountId) (asset : AssetId) (indices : List Index)
    (amounts : List Amount) (accepts : Bool) (inner : List Call) (vault : Vault) :
    serve (.withdraw owner asset indices amounts accepts inner) vault = Reply.ofPaying .withdrawn
      (vault.withdraw owner asset indices amounts (carrying accepts inner)) := by
  rw [serve]
  rfl

theorem serve_claim (id : AccountId) (accepts : Bool) (inner : List Call) (vault : Vault) :
    serve (.claim id accepts inner) vault =
      Reply.ofPaying .amount (vault.claim id (carrying accepts inner)) := by
  rw [serve]
  rfl

/-- So a withdrawal changes the ledger as its action does, whatever is called during its payout, -/
theorem withdraw_changed {owner : AccountId} {asset : AssetId} {indices : List Index}
    {amounts : List Amount} {accepts : Bool} {inner : List Call}
    (hentered : vault.entered = false) :
    Changed (Action.withdraw owner asset indices amounts) vault
      (vault.withdraw owner asset indices amounts (carrying accepts inner)).1.1
      (vault.withdraw owner asset indices amounts (carrying accepts inner)).2 :=
  transactPaying_changed hentered fun payment _ he => carrying_of_entered payment he

/-- and so does a claim. -/
theorem claim_changed {id : AccountId} {accepts : Bool} {inner : List Call}
    (hentered : vault.entered = false) :
    Changed (claimFlood id) vault (vault.claim id (carrying accepts inner)).1.1
      (vault.claim id (carrying accepts inner)).2 :=
  transactPaying_changed hentered fun payment _ he => carrying_of_entered payment he

/-! ### Requests -/

/-- A change is a transition if the action that makes it is one. -/
theorem Changed.transition {action : Action α} {completion : Completion α} {after : Vault}
    (h : Changed action vault completion after)
    (made : ∀ {out}, action vault.ledger = .ok out →
      Transition vault.ledger 0 out.events out.ledger) :
    Transition vault.ledger 0 completion.gained after.ledger ∧ after.entered = false := by
  cases h with
  | refused fault hc hl he =>
    rw [hc, hl]
    exact ⟨.rest, he⟩
  | made out h hc hl he =>
    rw [hc, hl]
    exact ⟨made h, he⟩

/-- Each request to a vault where no change is in progress makes one transition, and none is in
progress afterwards. -/
theorem whitelist_transition {asset : AssetId} {terms : AssetTerms} {valuation : Valuation}
    (hentered : vault.entered = false) :
    Transition vault.ledger 0 (vault.whitelist asset terms valuation).1.gained
        (vault.whitelist asset terms valuation).2.ledger ∧
      (vault.whitelist asset terms valuation).2.entered = false := by
  have hchanged : Changed (Action.whitelist asset terms) vault _ _ := transact_changed hentered
  have htransition := hchanged.transition .whitelist
  unfold Vault.whitelist
  revert htransition
  rcases vault.transact (Action.whitelist asset terms) with ⟨⟨_ | _, gained⟩, after⟩ <;> exact id

/-- A valuation is not part of the ledger. -/
theorem register_transition {asset : AssetId} {valuation : Valuation}
    (hentered : vault.entered = false) :
    (vault.register asset valuation).2.ledger = vault.ledger ∧
      (vault.register asset valuation).2.entered = false := by
  unfold register
  split <;> exact ⟨rfl, hentered⟩

/-- A deposit is made at the worth that its valuation gives. -/
theorem deposit_transition {owner : AccountId} {asset : AssetId} {quantity : Amount}
    (hentered : vault.entered = false) :
    Transition vault.ledger 0 (vault.deposit owner asset quantity).1.gained
        (vault.deposit owner asset quantity).2.ledger ∧
      (vault.deposit owner asset quantity).2.entered = false := by
  refine (transact_changed hentered).transition fun h => ?_
  obtain ⟨value, -, hdeposit⟩ := lift_bind.mp h
  exact .posting (deposit_moves hdeposit)

/-- A withdrawal pays out, but nothing of the floods. -/
theorem withdraw_transition {owner : AccountId} {asset : AssetId} {indices : List Index}
    {amounts : List Amount} {accepts : Bool} {inner : List Call}
    (hentered : vault.entered = false) :
    Transition vault.ledger 0
        (serve (.withdraw owner asset indices amounts accepts inner) vault).1.gained
        (serve (.withdraw owner asset indices amounts accepts inner) vault).2.ledger ∧
      (serve (.withdraw owner asset indices amounts accepts inner) vault).2.entered = false := by
  rw [serve_withdraw]
  exact (withdraw_changed hentered).transition fun h => .posting (withdraw_moves h)

/-- What a claim replies is what it has paid out. -/
theorem claim_transition {id : AccountId} {accepts : Bool} {inner : List Call}
    (hentered : vault.entered = false) :
    Transition vault.ledger
        (Request.claimed (.call (.claim id accepts inner))
          (serve (.claim id accepts inner) vault).1)
        (serve (.claim id accepts inner) vault).1.gained
        (serve (.claim id accepts inner) vault).2.ledger ∧
      (serve (.claim id accepts inner) vault).2.entered = false := by
  have hchanged := @claim_changed vault id accepts inner hentered
  rw [serve_claim]
  revert hchanged
  rcases vault.claim id (carrying accepts inner) with ⟨⟨completion, payout⟩, after⟩
  rintro (⟨fault, rfl, hl, he⟩ | ⟨out, h, rfl, hl, he⟩)
  · have hrest : Transition vault.ledger 0 ∅ after.ledger := by
      rw [hl]
      exact .rest
    exact ⟨hrest, he⟩
  · have hclaim : Transition vault.ledger (Pi.single id out.result.toNat) out.events
        after.ledger := by
      rw [hl]
      exact .claim h
    exact ⟨hclaim, he⟩

/-- **A request** to a vault that is not entered is a transition of its ledger, and leaves the vault
so. -/
theorem handle_transition (hentered : vault.entered = false) (request : Request) :
    Transition vault.ledger (request.claimed (handle request vault).1)
        (handle request vault).1.gained (handle request vault).2.ledger ∧
      (handle request vault).2.entered = false := by
  cases request with
  | whitelist => exact whitelist_transition hentered
  | register asset valuation =>
    obtain ⟨hledger, hentered'⟩ := register_transition hentered
    have hrest : Transition vault.ledger 0 ∅ (vault.register asset valuation).2.ledger := by
      rw [hledger]
      exact .rest
    exact ⟨hrest, hentered'⟩
  | call call =>
    cases call with
    | query => exact ⟨.rest, hentered⟩
    | drainEvents => exact ⟨.rest, hentered⟩
    | dewhitelist => exact (transact_changed hentered).transition .dewhitelist
    | setAccrualRate => exact (transact_changed hentered).transition .setAccrualRate
    | advanceEpoch => exact (transact_changed hentered).transition .advance
    | receiveReward => exact (transact_changed hentered).transition .reward
    | deposit => exact deposit_transition hentered
    | withdraw => exact withdraw_transition hentered
    | convert => exact (transact_changed hentered).transition fun h => .posting (convert_moves h)
    | transfer => exact (transact_changed hentered).transition fun h => .posting (transfer_moves h)
    | importLegacy =>
      exact (transact_changed hentered).transition fun h => .posting (importLegacy_moves h)
    | migrate => exact (transact_changed hentered).transition fun h => .posting (migrate_moves h)
    | mow => exact (transact_changed hentered).transition fun h => .posting (mow_moves h).1
    | plant => exact (transact_changed hentered).transition fun h => .posting (plant_moves h)
    | claim => exact claim_transition hentered

/-! ### Runs -/

/-- What every transition preserves, every run preserves: the induction is on the requests, and the
vault is not entered between them. -/
theorem run_invariant {P : Ledger → Prop}
    (step : ∀ {ledger paid events ledger'}, P ledger → Transition ledger paid events ledger' →
      P ledger') (requests : List Request) (hentered : vault.entered = false)
    (h : P vault.ledger) : P (run requests vault).2.ledger := by
  induction requests generalizing vault with
  | nil => exact h
  | cons request requests ih =>
    obtain ⟨htransition, hentered'⟩ := handle_transition hentered request
    exact ih hentered' (step h htransition)

/-- Between requests no change is in progress. -/
theorem run_entered (requests : List Request) (hentered : vault.entered = false) :
    (run requests vault).2.entered = false := by
  induction requests generalizing vault with
  | nil => exact hentered
  | cons request requests ih => exact ih (handle_transition hentered request).2

/-- A vault begins with the first ledger of its charter, and with no change in progress. -/
theorem genesis_eq_ok {charter : Charter} {start : Vault} (h : genesis charter = .ok start) :
    Ledger.genesis charter = .ok start.ledger ∧ start.entered = false := by
  simp only [genesis, bind_eq_ok, StalkLedger.pure_eq_ok] at h
  obtain ⟨ledger, hledger, rfl⟩ := h
  exact ⟨hledger, rfl⟩

/-! ### A vault to try things on -/

/-- A new vault in epoch 10, with ten legacy epochs before it. -/
def sample : Vault :=
  around ⟨⟨10, 10, 0, 9⟩, 10, ∅, ∅, ∅, ∅, ⟨0, 0, 0⟩, .fresh⟩

theorem genesis_sample : genesis ⟨10, 10, 0, 9⟩ = .ok sample := rfl

/-- Accounts 7 and 8 come to hold asset 1 in both stores; in epoch 12 a flood begins, and while it is
on they deposit, withdraw and transfer; in epoch 13 it is over, and account 8 claims. -/
def sampleRequests : List Request :=
  [.whitelist 1 ⟨10000, 3, some ⟨2, true⟩⟩ .unit,
    .call (.importLegacy 7 1 6 30 40),
    .call (.deposit 8 1 50),
    .call (.advanceEpoch ⟨12, true, 1000, 0⟩),
    .call (.deposit 8 1 5),
    .call (.withdraw 7 1 [.ofInt (-8)] [10] true []),
    .call (.transfer 8 7 1 [0] [7]),
    .call (.advanceEpoch ⟨13, false, 0, 0⟩),
    .call (.claim 8 true [])]

end Vault

end StalkLedger
