import StalkLedger.Proofs.Faultless

/-!
# Internal faults are unreachable

A vault answers a change with the fault of its action, or with one of its own: that a change is in
progress, or that a transfer was refused.  Neither is an internal fault, and in an orderly ledger no
action ends in one (`Faultless`), nor does a query.  The vaults that are reached by requests have
orderly ledgers; so has an entered vault, which is what is called while a payout is carried out.
Founding a vault ends in no internal fault either, whatever it is founded on.

So no answer is an internal fault, unless it was a valuation that answered with it
(`Vault.internal_faults_unreachable`).
-/

namespace StalkLedger

open StalkLedger.Action Ledger

variable {fault : Fault}

/-- What was answered to a call, and to the calls that were made while its payout was carried out. -/
def Reply.results (reply : Reply) : List (Except Fault Answer) :=
  reply.result :: reply.payout.elim [] (·.report)

/-- A charter that does not make sense is refused as such. -/
theorem Charter.validate_avoids (charter : Charter) : Avoids fault charter.validate := by
  unfold validate
  split
  · exact .error rfl
  · exact .ok _

namespace Vault

variable {α : Type} {vault : Vault}

/-! ### Founding a vault -/

/-- **Founding a vault** ends in no internal fault: neither on a charter, -/
theorem genesis_avoids (charter : Charter) : Avoids fault (genesis charter) :=
  .bind (.bind charter.validate_avoids fun _ _ => .ok _) fun _ _ => .ok _

/-- nor on a ledger, in whatever state it is, -/
theorem resume_avoids (ledger : Ledger) : Avoids fault (resume ledger) :=
  .bind ledger.charter.validate_avoids fun _ _ => .ok _

/-- nor on bytes. -/
theorem restore_avoids (bytes : List UInt8) : Avoids fault (restore bytes) := by
  refine .bind ?_ fun ledger _ => resume_avoids ledger
  unfold Ledger.ofBytes
  split
  · exact .ok _
  · exact .error rfl

/-! ### Queries -/

/-- A query of an orderly ledger ends in no internal fault: what it computes is what a flow would.
-/
theorem ask_avoids (h : vault.ledger.Orderly) (query : Query) :
    Avoids fault (vault.ask query) := by
  cases query with
  | epoch | positions | legacyPosition | account | stalk | roots | floodStatus | totals | events
  | countEvents | snapshot => exact .ok _
  | accrualIndex asset => exact .map (vault.ledger.accrualIndex_avoids asset)
  | asset asset | totalQuantity asset | totalValue asset =>
    exact .map (vault.ledger.asset_avoids asset)
  | position owner asset index =>
    refine .map ?_
    unfold Ledger.resolvedPosition
    split
    · exact .ok _
    · exact .bind (vault.ledger.asset_avoids asset) fun _ _ => .ok _
  | earned account => exact .map (vault.ledger.earnedBalance_avoids account)
  | grown account asset =>
    refine .map (.bind (vault.ledger.accrualIndex_avoids asset) fun tip htip => ?_)
    split
    next checkpoint hget =>
      refine grownReward_avoids _ ?_
      rw [accrualIndex_eq_ok htip]
      exact h.consistent.housed.reached_le_tip ⟨checkpoint, hget, le_rfl⟩
    next => exact .ok _
  | floodPayout account =>
    obtain ⟨balance, hbalance, -⟩ := h.solvent.balance account
    exact .map (.of_ok hbalance)
  | written =>
    refine .map ?_
    unfold Ledger.toBytes
    split
    · exact .ok _
    · exact .error rfl

/-! ### Changes -/

variable {ρ : Type} {action : Action α}

/-- A change is refused by its action, or because another one is in progress, -/
theorem transactThen_avoids {follow : α → Vault → Option (Payout ρ) × Vault}
    (h : vault.entered = false → Avoids fault (action vault.ledger)) :
    Avoids fault (vault.transactThen action follow).1.1.result := by
  unfold transactThen
  split
  · exact .error rfl
  next hentered =>
    cases haction : action vault.ledger with
    | error other =>
      exact (haction ▸ h (Bool.eq_false_of_not_eq_true hentered)).retype
    | ok out =>
      dsimp only
      split
      · exact .ok _
      · split
        · exact .ok _
        · exact .error rfl

/-- also if nothing follows it; -/
theorem transact_avoids (h : vault.entered = false → Avoids fault (action vault.ledger)) :
    Avoids fault (vault.transact action).1.result := by
  have hthen : Avoids fault
      (vault.transactThen action fun _ vault => ((none : Option (Payout Unit)), vault)).1.1.result :=
    transactThen_avoids h
  exact hthen

/-- a payout that is refused is a fault of its own. -/
theorem transactPaying_avoids {due : α → Payment} {carrier : Carrier ρ}
    (h : Avoids fault (action vault.ledger)) :
    Avoids fault (vault.transactPaying action due carrier).1.1.result :=
  transactThen_avoids fun _ => h

/-- The valuation that a request is to be carried out at answers with a fault. -/
inductive ValuationFails (vault : Vault) (fault : Fault) : Request → Prop
  | deposit {owner asset quantity valuation} (hv : vault.valuations.get? asset = some valuation)
      (hf : valuation.valueOf quantity = .error fault) :
      ValuationFails vault fault (.call (.deposit owner asset quantity))
  | convert {order valuation} (hv : vault.valuations.get? order.toAsset = some valuation)
      (hf : valuation.valueOf order.toQuantity = .error fault) :
      ValuationFails vault fault (.call (.convert order))

/-- Without a valuation there is another fault. -/
theorem valueOf_avoids {asset : AssetId} {quantity : Amount}
    (h : ∀ valuation, vault.valuations.get? asset = some valuation →
      valuation.valueOf quantity ≠ .error fault) : Avoids fault (vault.valueOf asset quantity) := by
  unfold valueOf
  split
  next valuation hget => exact fun _ => h valuation hget
  next => exact .error rfl

/-- **A call** is not answered with an internal fault, if its valuation does not fail with it; and on
an entered vault no valuation is asked for. -/
theorem serve_avoids (h : vault.ledger.Orderly) {call : Call}
    (hvalue : vault.entered = false → ¬ vault.ValuationFails fault (.call call)) :
    Avoids fault (serve call vault).1.result := by
  have transacted {α : Type} {action : Action α} (answer : α → Answer)
      (h : vault.entered = false → Avoids fault (action vault.ledger)) :
      Avoids fault (Reply.ofCompletion answer (vault.transact action)).1.result :=
    .map (transact_avoids h)
  cases call with
  | query query =>
    rw [serve]
    exact ask_avoids h query
  | drainEvents => exact .ok _
  | dewhitelist => rw [serve]; exact transacted _ fun _ => dewhitelist_avoids
  | setAccrualRate => rw [serve]; exact transacted _ fun _ => setAccrualRate_avoids _
  | advanceEpoch => rw [serve]; exact transacted _ fun _ => h.solvent.advanceEpoch_avoids _
  | receiveReward => rw [serve]; exact transacted _ fun _ => receiveReward_avoids _
  | deposit =>
    rw [serve]
    refine transacted _ fun hentered => .lift (valueOf_avoids fun valuation hv hf => ?_)
      fun _ _ => h.deposit_avoids _ _ _ _
    exact hvalue hentered (.deposit hv hf)
  | withdraw =>
    rw [serve_withdraw, Reply.result_ofPaying]
    exact .map (transactPaying_avoids (h.withdraw_avoids _ _ _ _))
  | convert order =>
    rw [serve]
    refine transacted _ fun hentered => h.convert_avoids order (valueOf_avoids fun _ hv hf => ?_)
    exact hvalue hentered (.convert hv hf)
  | transfer => rw [serve]; exact transacted _ fun _ => h.transfer_avoids _ _ _ _ _
  | importLegacy => rw [serve]; exact transacted _ fun _ => h.importLegacy_avoids _ _ _ _ _
  | migrate => rw [serve]; exact transacted _ fun _ => h.migrate_avoids _ _ _
  | mow => rw [serve]; exact transacted _ fun _ => h.mow_avoids _ _
  | plant => rw [serve]; exact transacted _ fun _ => h.plant_avoids _
  | claim =>
    rw [serve_claim, Reply.result_ofPaying]
    exact .map (transactPaying_avoids (h.solvent.claimFlood_avoids _))

/-! ### Calls while a payout is carried out -/

/-- Calls on an entered vault leave it so, and its ledger as it is. -/
theorem serveAll_avoids (h : vault.ledger.Orderly) (hentered : vault.entered = true)
    (calls : List Call) : ∀ reply ∈ (serveAll calls vault).1, Avoids fault reply.result := by
  induction calls generalizing vault with
  | nil =>
    rw [serveAll]
    exact List.forall_mem_nil _
  | cons call calls ih =>
    obtain ⟨hledger, hentered'⟩ := serve_of_entered hentered call
    rw [serveAll]
    refine List.forall_mem_cons.mpr ⟨serve_avoids h fun hfree => ?_, ih (hledger ▸ h) hentered'⟩
    exact absurd (hentered.symm.trans hfree) nofun

/-- A payout is carried out on the ledger that the action has left. -/
theorem transactPaying_report {due : α → Payment} {accepts : Bool} {inner : List Call}
    {payout : Payout Transcript}
    (h : (vault.transactPaying action due (carrying accepts inner)).1.2 = some payout) :
    ∃ out, action vault.ledger = .ok out ∧ payout.report =
      (serveAll inner { vault with ledger := out.ledger, entered := true }).1.map (·.result) := by
  unfold transactPaying transactThen at h
  split at h
  · cases h
  cases hout : action vault.ledger with
  | error => rw [hout] at h; cases h
  | ok out =>
    refine ⟨out, rfl, ?_⟩
    rw [hout] at h
    dsimp only [pay, carrying] at h
    by_cases hdue : (due out.result).quantity = 0
    · rw [if_pos hdue] at h
      cases h
    · rw [if_neg hdue] at h
      dsimp only at h
      split at h <;> cases h <;> rfl

/-- What is answered while a payout is carried out. -/
theorem transactPaying_report_avoids {due : α → Payment} {accepts : Bool} {inner : List Call}
    {payout : Payout Transcript}
    (horderly : ∀ {out}, action vault.ledger = .ok out → out.ledger.Orderly)
    (h : (vault.transactPaying action due (carrying accepts inner)).1.2 = some payout) :
    ∀ result ∈ payout.report, Avoids fault result := by
  obtain ⟨out, hout, hreport⟩ := transactPaying_report h
  rw [hreport, List.forall_mem_map]
  have hledger : ({ vault with ledger := out.ledger, entered := true } : Vault).ledger.Orderly :=
    horderly hout
  exact serveAll_avoids hledger rfl inner

/-- Only withdrawals and claims pay out. -/
theorem serve_report_avoids (h : vault.ledger.Orderly) {call : Call} {payout : Payout Transcript}
    (hp : (serve call vault).1.payout = some payout) :
    ∀ result ∈ payout.report, Avoids fault result := by
  cases call with
  | query | drainEvents | dewhitelist | setAccrualRate | advanceEpoch | receiveReward | deposit
  | convert | transfer | importLegacy | migrate | mow | plant => rw [serve] at hp; cases hp
  | withdraw =>
    rw [serve_withdraw, Reply.payout_ofPaying] at hp
    exact transactPaying_report_avoids (fun hout => h.moves (withdraw_moves hout)) hp
  | claim =>
    rw [serve_claim, Reply.payout_ofPaying] at hp
    exact transactPaying_report_avoids (fun hout => (Transition.claim hout).orderly h) hp

/-! ### Requests -/

/-- A request of an orderly vault is answered with an internal fault only by its valuation. -/
theorem handle_result_avoids (h : vault.ledger.Orderly) {request : Request}
    (hvalue : ¬ vault.ValuationFails fault request) :
    Avoids fault (handle request vault).1.result := by
  cases request with
  | whitelist asset terms valuation =>
    refine .map ?_
    have hlisted : Avoids fault (vault.transact (Action.whitelist asset terms)).1.result :=
      transact_avoids fun _ => whitelist_avoids terms
    revert hlisted
    rcases vault.transact (Action.whitelist asset terms) with ⟨⟨_ | _, gained⟩, after⟩ <;> exact id
  | register asset valuation =>
    refine .map ?_
    have hlisted : Avoids fault (vault.ledger.asset asset) := vault.ledger.asset_avoids asset
    split
    · exact .ok _
    next other hother => exact (hother ▸ hlisted).retype
  | call call => exact serve_avoids h fun _ => hvalue

/-- What a request pays out, its call pays out. -/
theorem handle_report_avoids (h : vault.ledger.Orderly) {request : Request}
    {payout : Payout Transcript} (hp : (handle request vault).1.payout = some payout) :
    ∀ result ∈ payout.report, Avoids fault result := by
  cases request with
  | whitelist | register => cases hp
  | call call => exact serve_report_avoids h hp

/-- **Internal faults are unreachable.**  After any requests to a new vault, no request is answered
with an internal fault, and neither is a call that is made while its payout is carried out; unless it
is the fault with which the valuation answers that the request is carried out at. -/
theorem internal_faults_unreachable {charter : Charter} {start : Vault}
    (h : genesis charter = .ok start) (requests : List Request) {request : Request} {fault : Fault}
    (hf : fault.internal = true)
    (hanswer : .error fault ∈ (handle request (run requests start).2).1.results) :
    (run requests start).2.ValuationFails fault request := by
  have horderly := (orderly h requests).1
  by_contra hvalue
  rcases List.mem_cons.mp hanswer with hresult | hreport
  · exact handle_result_avoids horderly hvalue hf hresult.symm
  · cases hp : (handle request (run requests start).2).1.payout with
    | none =>
      rw [hp] at hreport
      cases hreport
    | some payout =>
      rw [hp] at hreport
      exact handle_report_avoids horderly hp _ hreport hf rfl

/-- Asset 1 is valued by somebody who fails as the books never do. -/
def brokenRequests : List Request :=
  [.whitelist 1 ⟨10000, 3, none⟩ (.failing .underflow)]

/-- An asset whose valuation fails by an underflow. -/
theorem internal_faults_unreachable_sample : genesis ⟨10, 10, 0, 9⟩ = .ok sample ∧
    Fault.internal .underflow = true ∧
    .error .underflow ∈
      (handle (.call (.deposit 7 1 5)) (run brokenRequests sample).2).1.results ∧
    (run brokenRequests sample).2.ValuationFails .underflow (.call (.deposit 7 1 5)) := by
  have hanswer : .error .underflow ∈
      (handle (.call (.deposit 7 1 5)) (run brokenRequests sample).2).1.results := by
    decide +kernel
  exact ⟨genesis_sample, rfl, hanswer,
    internal_faults_unreachable genesis_sample brokenRequests rfl hanswer⟩

end Vault

end StalkLedger
