import StalkLedger.Proofs.Transition

/-!
# A change is made alone

A change is made as a whole or not at all, and nothing comes between.  While its payout is carried
out the vault is entered, and whoever carries it out may ask questions; a change that is asked for in
the meantime is refused (`Vault.serve_of_mutates`) and leaves the vault as it is, so the calls are all
answered by the same vault (`Vault.serveAll_of_kept`).

**Isolation** (`Vault.changes_isolated`).  Whatever is called while a payout is carried out, the change
has the result, the ledger and the events it has when nothing is called; if it fails, the vault is the
one before; and it is no longer entered.  Only taking the log out is not in the claim: that is a change
of the log that an entered vault allows.
-/

namespace StalkLedger

/-! ### Calls and the calls they lead to -/

namespace Call

/-- Whether a call asks for a change of the ledger. -/
def mutates : Call → Bool
  | .query _ | .drainEvents => false
  | _ => true

/-- The calls made while the payout is carried out. -/
def inner : Call → List Call
  | .withdraw _ _ _ _ _ inner | .claim _ _ inner => inner
  | _ => []

/-- The same call, with no calls made while the payout is carried out. -/
def alone : Call → Call
  | .withdraw owner asset indices amounts accepts _ =>
    .withdraw owner asset indices amounts accepts []
  | .claim account accepts _ => .claim account accepts []
  | call => call

end Call

namespace Request

/-- Whether a request asks for a change. -/
def mutates : Request → Bool
  | .call asked => asked.mutates
  | _ => true

/-- The calls made while the payout is carried out. -/
def inner : Request → List Call
  | .call asked => asked.inner
  | _ => []

/-- The same request, with no calls made while the payout is carried out. -/
def alone : Request → Request
  | .call asked => .call asked.alone
  | request => request

end Request

namespace Vault

variable {α : Type} {vault : Vault}

/-! ### Calls on an entered vault -/

/-- The vault while a change is in progress that has led to a ledger. -/
def during (vault : Vault) (ledger : Ledger) : Vault := { vault with ledger, entered := true }

/-- **A change is refused** while another one is in progress: nothing is given out for transfer, and
the vault stays as it is. -/
theorem serve_of_mutates (hentered : vault.entered = true) {call : Call}
    (h : call.mutates = true) : serve call vault = (⟨.error .reentrancy, none, ∅⟩, vault) := by
  have transacted {α : Type} (action : Action α) (answer : α → Answer) :
      Reply.ofCompletion answer (vault.transact action) =
        (⟨.error .reentrancy, none, ∅⟩, vault) := by
    rw [transact_of_entered hentered]
    rfl
  have paid {α : Type} (action : Action α) (answer : α → Answer) (due : α → Payment)
      (carrier : Carrier Transcript) :
      Reply.ofPaying answer (vault.transactPaying action due carrier) =
        (⟨.error .reentrancy, none, ∅⟩, vault) := by
    rw [transactPaying, transactThen_of_entered hentered]
    rfl
  cases call with
  | query | drainEvents => cases h
  | dewhitelist | setAccrualRate | advanceEpoch | receiveReward | deposit | convert | transfer
  | importLegacy | migrate | mow | plant =>
    rw [serve]
    exact transacted _ _
  | withdraw | claim =>
    rw [serve]
    exact paid _ _ _ _

/-- Whatever is called on an entered vault, unless the log is taken out, leaves it as it is. -/
theorem serve_of_kept (hentered : vault.entered = true) {call : Call} (h : call ≠ .drainEvents) :
    (serve call vault).2 = vault := by
  cases hm : call.mutates with
  | true => rw [serve_of_mutates hentered hm]
  | false =>
    cases call with
    | query => rfl
    | drainEvents => exact absurd rfl h
    | _ => cases hm

/-- So the calls are all answered by the same vault. -/
theorem serveAll_of_kept (hentered : vault.entered = true) {calls : List Call}
    (h : ∀ call ∈ calls, call ≠ .drainEvents) :
    serveAll calls vault = (calls.map fun call => (serve call vault).1, vault) := by
  induction calls with
  | nil => rfl
  | cons call calls ih =>
    obtain ⟨hcall, hcalls⟩ := List.forall_mem_cons.mp h
    have hanswer : serve call vault = ((serve call vault).1, vault) :=
      Prod.ext rfl (serve_of_kept hentered hcall)
    rw [serveAll, hanswer]
    dsimp only
    rw [ih hcalls, List.map_cons]

/-! ### Changes -/

/-- A change that a vault was asked for, and the same change when nothing is called while its payout
is carried out. -/
structure Isolated (vault : Vault) (inner : List Call) (change alone : Reply × Vault) : Prop where
  /-- What is called in the meantime finds the vault entered.  Every change asked for then is refused
  for that reason, gives nothing out for transfer and leaves the vault as it is; and the transfer
  reports what the calls were answered. -/
  refused : ∀ payout, change.1.payout = some payout → ∃ ledger,
    serveAll inner (vault.during ledger) =
        (inner.map fun call => (serve call (vault.during ledger)).1, vault.during ledger) ∧
      payout.report = (inner.map fun call => (serve call (vault.during ledger)).1.result) ∧
      (∀ call ∈ inner, call.mutates = true →
        serve call (vault.during ledger) = (⟨.error .reentrancy, none, ∅⟩, vault.during ledger)) ∧
      (payout.accepted = true → change.2.ledger = ledger)
  /-- A change that fails has not happened, and is not recorded. -/
  undone : ∀ fault, change.1.result = .error fault → change.2 = vault ∧ change.1.gained = ∅
  /-- The events of the change are put behind those that there were. -/
  recorded : change.2.log = vault.log ++ change.1.gained
  result : change.1.result = alone.1.result
  gained : change.1.gained = alone.1.gained
  payment : (change.1.payout.map fun payout => (payout.payment, payout.accepted)) =
    alone.1.payout.map fun payout => (payout.payment, payout.accepted)
  vault : change.2 = alone.2
  /-- The vault is free for the next change, -/
  released : change.2.entered = false
  /-- which is then tried on its ledger. -/
  next : ∀ (β : Type) (action : Action β),
    (change.2.transact action).1.result = (action change.2.ledger).map (·.result)

theorem transact_eq (hentered : vault.entered = false) (action : Action α) :
    vault.transact action = match action vault.ledger with
      | .error fault => (⟨.error fault, ∅⟩, vault)
      | .ok out => (⟨.ok out.result, out.events⟩,
          { vault with ledger := out.ledger, log := vault.log ++ out.events }) := by
  obtain ⟨ledger, valuations, log, entered⟩ := vault
  obtain rfl : entered = false := hentered
  rw [transact, transactThen, if_neg Bool.false_ne_true]
  dsimp only
  cases action ledger <;> rfl

/-- A vault that is not entered tries what it is asked for. -/
theorem transact_result (hentered : vault.entered = false) (action : Action α) :
    (vault.transact action).1.result = (action vault.ledger).map (·.result) := by
  rw [transact_eq hentered]
  cases action vault.ledger with
  | error fault => rfl
  | ok out => rfl

/-- What becomes of a change with a payout, if the log is not taken out while that is carried out. -/
theorem transactPaying_eq (hentered : vault.entered = false) (action : Action α)
    (due : α → Payment) (accepts : Bool) {inner : List Call}
    (hkept : ∀ call ∈ inner, call ≠ .drainEvents) :
    vault.transactPaying action due (carrying accepts inner) = match action vault.ledger with
      | .error fault => ((⟨.error fault, ∅⟩, none), vault)
      | .ok out =>
        let payment := due out.result
        let report := inner.map fun call => (serve call (vault.during out.ledger)).1.result
        let made : Vault := { vault with ledger := out.ledger, log := vault.log ++ out.events }
        if payment.quantity = 0 then
          ((⟨.ok out.result, out.events⟩, none), made)
        else if accepts then
          ((⟨.ok out.result, out.events⟩, some ⟨payment, true, report⟩), made)
        else
          ((⟨.error (.transferFailed payment.asset payment.recipient payment.quantity), ∅⟩,
            some ⟨payment, false, report⟩), vault) := by
  obtain ⟨ledger, valuations, log, entered⟩ := vault
  obtain rfl : entered = false := hentered
  rw [transactPaying, transactThen, if_neg Bool.false_ne_true]
  dsimp only
  cases action ledger with
  | error fault => rfl
  | ok out =>
    have hserved := @serveAll_of_kept (during ⟨ledger, valuations, log, false⟩ out.ledger) rfl _ hkept
    simp only [during] at hserved
    simp only [pay, carrying, during, hserved, List.map_map]
    by_cases hdue : (due out.result).quantity = 0
    · simp only [if_pos hdue]
    · simp only [if_neg hdue]
      cases accepts <;> rfl

namespace Isolated

variable {inner : List Call} {change : Reply × Vault}

/-- A change without a payout leaves no room for anything to be called. -/
theorem of_unpaid (hpayout : change.1.payout = none)
    (undone : ∀ fault, change.1.result = .error fault → change.2 = vault ∧ change.1.gained = ∅)
    (recorded : change.2.log = vault.log ++ change.1.gained)
    (released : change.2.entered = false) : Isolated vault inner change change where
  refused := by
    intro payout hsome
    rw [hpayout] at hsome
    cases hsome
  undone := undone
  recorded := recorded
  result := rfl
  gained := rfl
  payment := rfl
  vault := rfl
  released := released
  next := fun _ => transact_result released

/-- Nor does a change that succeeds without one, -/
theorem of_answer {answer : Answer} {gained : Event.Log} {after : Vault}
    (recorded : after.log = vault.log ++ gained) (released : after.entered = false) :
    Isolated vault inner (⟨.ok answer, none, gained⟩, after) (⟨.ok answer, none, gained⟩, after) :=
  of_unpaid rfl (fun _ h => by cases h) recorded released

/-- or one that fails before that. -/
theorem of_fault (hentered : vault.entered = false) (fault : Fault) :
    Isolated vault inner (⟨.error fault, none, ∅⟩, vault) (⟨.error fault, none, ∅⟩, vault) :=
  of_unpaid rfl (fun _ _ => ⟨rfl, rfl⟩) vault.log.append_empty.symm hentered

theorem of_transact (hentered : vault.entered = false) (action : Action α) (answer : α → Answer) :
    Isolated vault inner (Reply.ofCompletion answer (vault.transact action))
      (Reply.ofCompletion answer (vault.transact action)) := by
  rw [transact_eq hentered]
  cases action vault.ledger with
  | error fault => exact of_fault hentered fault
  | ok out => exact of_answer rfl hentered

/-- **A change with a payout** has the same outcome whatever is called in the meantime. -/
theorem of_transactPaying (hentered : vault.entered = false) (action : Action α)
    (answer : α → Answer) (due : α → Payment) (accepts : Bool)
    (hkept : ∀ call ∈ inner, call ≠ .drainEvents) :
    Isolated vault inner
      (Reply.ofPaying answer (vault.transactPaying action due (carrying accepts inner)))
      (Reply.ofPaying answer (vault.transactPaying action due (carrying accepts []))) := by
  have refused (ledger : Ledger) (call : Call) (_ : call ∈ inner) (hm : call.mutates = true) :
      serve call (vault.during ledger) = (⟨.error .reentrancy, none, ∅⟩, vault.during ledger) :=
    serve_of_mutates rfl hm
  have served (ledger : Ledger) := @serveAll_of_kept (vault.during ledger) rfl inner hkept
  rw [transactPaying_eq hentered action due accepts hkept,
    transactPaying_eq hentered action due accepts (List.forall_mem_nil _)]
  cases action vault.ledger with
  | error fault => exact of_fault hentered fault
  | ok out =>
    dsimp only
    by_cases hdue : (due out.result).quantity = 0
    · rw [if_pos hdue, if_pos hdue]
      exact of_answer rfl hentered
    rw [if_neg hdue, if_neg hdue]
    cases accepts with
    | true =>
      refine ⟨?_, ?_, rfl, rfl, rfl, rfl, rfl, hentered, fun _ => transact_result hentered⟩
      · rintro payout ⟨⟩
        exact ⟨out.ledger, served out.ledger, rfl, refused out.ledger, fun _ => rfl⟩
      · intro fault hfault
        cases hfault
    | false =>
      refine ⟨?_, fun _ _ => ⟨rfl, rfl⟩, vault.log.append_empty.symm, rfl, rfl, rfl, rfl,
        hentered, fun _ => transact_result hentered⟩
      rintro payout ⟨⟩
      exact ⟨out.ledger, served out.ledger, rfl, refused out.ledger, nofun⟩

end Isolated

/-! ### Requests -/

theorem whitelist_isolated (hentered : vault.entered = false) (asset : AssetId) (terms : AssetTerms)
    (valuation : Valuation) :
    Isolated vault [] (handle (.whitelist asset terms valuation) vault)
      (handle (.whitelist asset terms valuation) vault) := by
  rw [handle, whitelist, transact_eq hentered]
  cases Action.whitelist asset terms vault.ledger with
  | error fault => exact .of_fault hentered fault
  | ok out => exact .of_answer rfl hentered

theorem register_isolated (hentered : vault.entered = false) (asset : AssetId)
    (valuation : Valuation) :
    Isolated vault [] (handle (.register asset valuation) vault)
      (handle (.register asset valuation) vault) := by
  rw [handle, register]
  cases vault.ledger.asset asset with
  | error fault => exact .of_fault hentered fault
  | ok out => exact .of_answer vault.log.append_empty.symm hentered

/-- **Changes are isolated.**  Let a vault that is not entered be asked for a change, whose payout, if
there is one, is carried out by someone who makes any calls in the meantime, only not to take the log
out.  Every change asked for in these calls is refused, and changes nothing.  If the change fails,
whether by itself or because the payout is refused, the vault is the one before and has recorded
nothing.  In any case result, ledger and events are those of the same change when nothing is called,
and the vault is free for the next one. -/
theorem changes_isolated (hentered : vault.entered = false) (request : Request)
    (hmutates : request.mutates = true) (hkept : ∀ call ∈ request.inner, call ≠ .drainEvents) :
    Isolated vault request.inner (handle request vault) (handle request.alone vault) := by
  cases request with
  | whitelist asset terms valuation => exact whitelist_isolated hentered asset terms valuation
  | register asset valuation => exact register_isolated hentered asset valuation
  | call call =>
    cases call with
    | query | drainEvents => cases hmutates
    | dewhitelist | setAccrualRate | advanceEpoch | receiveReward | deposit | convert | transfer
    | importLegacy | migrate | mow | plant =>
      exact .of_transact hentered _ _
    | withdraw owner asset indices amounts accepts inner =>
      rw [Request.alone, Call.alone, handle, handle, serve_withdraw, serve_withdraw]
      exact .of_transactPaying hentered _ _ _ _ hkept
    | claim id accepts inner =>
      rw [Request.alone, Call.alone, handle, handle, serve_claim, serve_claim]
      exact .of_transactPaying hentered _ _ _ _ hkept

/-- Account 7 withdraws, and whoever carries the payout out looks at the totals, tries to mow and to
withdraw for account 8, and then refuses. -/
def sampleWithdrawal : Request :=
  .call (.withdraw 7 1 [.ofInt (-8)] [10] false
    [.query .totals, .mow 8 1, .withdraw 8 1 [0] [5] true [.query .epoch]])

theorem changes_isolated_sample :
    let vault := (run (sampleRequests.take 5) sample).2
    vault.entered = false ∧ sampleWithdrawal.mutates = true ∧
      (∀ call ∈ sampleWithdrawal.inner, call ≠ .drainEvents) ∧
      (handle sampleWithdrawal vault).1.result = .error (.transferFailed 1 7 10) ∧
      ((handle sampleWithdrawal vault).1.payout.elim [] (·.report)).drop 1 =
        [.error .reentrancy, .error .reentrancy] ∧
      Isolated vault sampleWithdrawal.inner (handle sampleWithdrawal vault)
        (handle sampleWithdrawal.alone vault) := by
  have hentered : (run (sampleRequests.take 5) sample).2.entered = false :=
    run_entered _ rfl
  have hkept : ∀ call ∈ sampleWithdrawal.inner, call ≠ .drainEvents := by
    simp [sampleWithdrawal, Request.inner, Call.inner]
  exact ⟨hentered, rfl, hkept, by decide +kernel, by decide +kernel,
    changes_isolated hentered sampleWithdrawal rfl hkept⟩

end Vault

end StalkLedger
