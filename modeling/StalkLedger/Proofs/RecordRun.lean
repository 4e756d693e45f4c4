import StalkLedger.Proofs.History
import StalkLedger.Proofs.Isolation
import StalkLedger.Proofs.RecordFlow
import StalkLedger.Proofs.Tally

/-!
# Following a vault by its events

The events of a run are those that were taken out of the log on the way, also by whoever carried out a
payout, and those that are still in it (`Vault.record`).  They are the events that the requests have
gained, in the same order: nothing is lost and nothing is told twice (`Vault.record_eq`).

**What is held** (`Vault.events_tell_holdings`).  So whoever adds up the events knows every position,
whichever store it is in, every balance, and the earned pool.

**Floods** (`Vault.events_tell_floods`).  The book of floods is known as well, up to what was paid in
while a flood had no roots.
-/

namespace StalkLedger

open StalkLedger.Action Ledger

/-! ### Positions by their indices -/

/-- A weight that counts in one slot only. -/
theorem SortedMap.weighed_eq {μ : Type} [Key μ] [DecidableEq μ]
    {store : SortedMap (Slot μ) Position} {weight : Slot μ → ℤ × ℤ} (slot : Slot μ)
    (h : ∀ slot' position, store.get? slot' = some position → slot' ≠ slot → weight slot' = 0) :
    store.weighed weight = ((store.get? slot).getD .nothing).weigh (weight slot) := by
  have hzero : Position.nothing.weigh (weight slot) = 0 := Position.weigh_nothing _
  have helse (slot' : Slot μ) (position : Position) (hget : store.get? slot' = some position)
      (hne : slot' ≠ slot) : position.weigh (weight slot') = 0 := by
    rw [h slot' position hget hne, Position.weigh_zero]
  rw [weighed, sum_eq_measureAt helse]
  exact measureAt_eq_getD hzero

namespace Ledger

variable {ledger : Ledger}

/-- A legacy epoch of an asset stands for an index. -/
def StandsFor (ledger : Ledger) (asset : AssetId) (epoch : Epoch) (index : Index) : Prop :=
  ∃ terms, ledger.legacyTerms asset = .ok terms ∧ terms.indexOf ledger.charter epoch = .ok index

/-- Consecutive epochs have different indices. -/
theorem Housed.standsFor_unique (h : ledger.Housed) {asset : AssetId} {epoch epoch' : Epoch}
    {index : Index} (he : ledger.StandsFor asset epoch index)
    (he' : ledger.StandsFor asset epoch' index) : epoch = epoch' := by
  obtain ⟨terms, hterms, hindex⟩ := he
  obtain ⟨terms', hterms', hindex'⟩ := he'
  have hsame := (legacyIndex_eq hterms hindex).trans (legacyIndex_eq hterms' hindex').symm
  obtain ⟨entry, hentry, hlegacy⟩ := legacyTerms_eq_ok.mp hterms
  have hrate := (h.asset (asset_eq_ok.mp hentry)).legacyRate hlegacy
  rw [legacyIndex, legacyIndex, legacyRate_eq hentry hlegacy] at hsame
  have hepochs := mul_right_cancel₀ hrate.ne' hsame
  exact Unsigned.ext (by omega)

/-- So an index is that of one epoch, or of none. -/
theorem Housed.exists_standsFor (h : ledger.Housed) (asset : AssetId) (index : Index) :
    ∃ epoch? : Option Epoch, ∀ epoch, epoch? = some epoch ↔ ledger.StandsFor asset epoch index := by
  by_cases hsome : ∃ epoch, ledger.StandsFor asset epoch index
  · obtain ⟨epoch, he⟩ := hsome
    refine ⟨some epoch, fun epoch' => ⟨?_, fun he' => congrArg some (h.standsFor_unique he he')⟩⟩
    rintro ⟨⟩
    exact he
  · exact ⟨none, fun epoch => ⟨nofun, fun he => absurd ⟨epoch, he⟩ hsome⟩⟩

/-- **What counts at one place** is the current position there and the legacy position under the epoch
that stands for the index. -/
theorem Housed.holdings_onlyAt (h : ledger.Housed) {place : Slot Index} {epoch? : Option Epoch}
    (hepoch : ∀ epoch, epoch? = some epoch ↔ ledger.StandsFor place.asset epoch place.mark)
    (weight : ℤ × ℤ) :
    ledger.holdings (onlyAt place weight) =
      ((ledger.positionAt place.owner place.asset place.mark).getD .nothing).weigh weight +
        ((epoch?.bind (ledger.legacyPosition place.owner place.asset)).getD .nothing).weigh
          weight := by
  refine congrArg₂ HAdd.hAdd ?_ ?_
  · have hplace : onlyAt place weight place.owner place.asset place.mark.toInt = weight := by
      rw [onlyAt_slot, if_pos rfl]
    rw [SortedMap.weighed_eq place, hplace]
    · rfl
    · intro slot position _ hne
      rw [onlyAt_slot, if_neg hne.symm]
  · -- Every legacy position that counts here is under an epoch that stands for the index.
    have elsewhere {slot : Slot Epoch} {position : Position}
        (hget : ledger.legacyDeposits.get? slot = some position)
        (hne : ∀ epoch, epoch? = some epoch → slot ≠ ⟨place.owner, place.asset, epoch⟩) :
        onlyAt place weight slot.owner slot.asset (ledger.legacyIndex slot.asset slot.mark) = 0 := by
      obtain ⟨owner, asset, epoch⟩ := slot
      refine if_neg ?_
      rintro ⟨rfl, rfl, hi⟩
      obtain ⟨-, -, -, -, terms, index, hterms, hindex⟩ := h.legacyDeposits _ position hget
      rw [legacyIndex_eq hterms hindex] at hi
      obtain rfl := Signed.ext hi
      exact hne epoch ((hepoch epoch).mpr ⟨terms, hterms, hindex⟩) rfl
    cases hcase : epoch? with
    | none =>
      refine Eq.trans (SortedMap.sum_eq_zero fun slot position hget => ?_)
        (Position.weigh_nothing weight).symm
      dsimp only
      rw [elsewhere hget (by rw [hcase]; exact nofun), Position.weigh_zero]
    | some epoch =>
      obtain ⟨terms, hterms, hindex⟩ := (hepoch epoch).mp hcase
      have hplace : onlyAt place weight place.owner place.asset
          (ledger.legacyIndex place.asset epoch) = weight := by
        rw [legacyIndex_eq hterms hindex, onlyAt_slot, if_pos rfl]
      rw [SortedMap.weighed_eq ⟨place.owner, place.asset, epoch⟩, hplace]
      · rfl
      · intro slot position hget hne
        refine elsewhere hget fun epoch' he => ?_
        rw [hcase] at he
        cases he
        exact hne

end Ledger

/-! ### Events that are handed out -/

/-- The events that an answer hands out: those of a log that was taken out. -/
def Call.handedOut : Call → Except Fault Answer → List Event
  | .drainEvents, .ok (.events events) => events
  | _, _ => []

/-- The events that calls were handed out, one after the other. -/
def Transcript.handedOut (calls : List Call) (report : Transcript) : List Event :=
  (List.zipWith Call.handedOut calls report).flatten

/-- The events that a request was handed out, or the calls that were made while its payout was carried
out. -/
def Request.handedOut (request : Request) (reply : Reply) : List Event :=
  match request with
  | .call asked =>
    asked.handedOut reply.result ++
      reply.payout.elim [] fun payout => Transcript.handedOut asked.inner payout.report
  | _ => []

/-- What a request has paid in for floods without an event. -/
def Request.unrecorded (request : Request) (reply : Reply) (after : Ledger) : ℕ :=
  match request, reply.result with
  | .call (.advanceEpoch report), .ok (.flag followed) => report.unrecorded followed after
  | _, _ => 0

namespace History

/-- The events that were handed out. -/
def handedOut (past : History) : List Event :=
  past.flatMap fun episode => episode.request.handedOut episode.reply

/-- The events that the requests gained. -/
def gained (past : History) : List Event := past.flatMap fun episode => episode.reply.gained.events

/-- What has been paid in for floods without an event. -/
def unrecorded (past : History) : ℕ :=
  (past.map fun episode => episode.request.unrecorded episode.reply episode.after).sum

end History

theorem Call.handedOut_of_kept {call : Call} (h : call ≠ .drainEvents)
    (result : Except Fault Answer) : call.handedOut result = [] := by
  cases call with
  | drainEvents => exact absurd rfl h
  | _ => rfl

namespace Vault

variable {α : Type} {vault : Vault}

/-- All events that have been recorded in a run: those that were handed out, and those that are still
in the log. -/
def record (requests : List Request) (start : Vault) : Event.Log :=
  ⟨(history requests start).handedOut ++ (run requests start).2.log.events⟩

/-- Calls on an entered vault hand out what was in its log, and add nothing. -/
theorem serveAll_handedOut (hentered : vault.entered = true) (calls : List Call) :
    Transcript.handedOut calls ((serveAll calls vault).1.map (·.result)) ++
      (serveAll calls vault).2.log.events = vault.log.events := by
  induction calls generalizing vault with
  | nil => rfl
  | cons call calls ih =>
    have hrest := ih (serve_of_entered hentered call).2
    have hcall : call.handedOut (serve call vault).1.result ++ (serve call vault).2.log.events =
        vault.log.events := by
      by_cases hkept : call = .drainEvents
      · subst hkept
        exact List.append_nil _
      · rw [serve_of_kept hentered hkept, Call.handedOut_of_kept hkept, List.nil_append]
    rw [serveAll]
    simp only [Transcript.handedOut, List.map_cons, List.zipWith_cons_cons, List.flatten_cons,
      List.append_assoc] at hrest ⊢
    rw [hrest, hcall]

/-- What a change with a payout gains is put behind what is still in the log. -/
theorem transactPaying_handedOut (hentered : vault.entered = false) (action : Action α)
    (due : α → Payment) (accepts : Bool) (inner : List Call) :
    let change := vault.transactPaying action due (carrying accepts inner)
    (change.1.2.elim [] fun payout => Transcript.handedOut inner payout.report) ++
      change.2.log.events = vault.log.events ++ change.1.1.gained.events := by
  obtain ⟨ledger, valuations, log, entered⟩ := vault
  obtain rfl : entered = false := hentered
  simp only [transactPaying, transactThen, if_neg Bool.false_ne_true]
  cases action ledger with
  | error fault => exact (List.append_nil _).symm
  | ok out =>
    have hserved := @serveAll_handedOut ⟨out.ledger, valuations, log, true⟩ rfl inner
    simp only [pay, carrying]
    by_cases hdue : (due out.result).quantity = 0
    · simp only [if_pos hdue]
      rfl
    · simp only [if_neg hdue]
      cases accepts with
      | true =>
        -- The calls may have taken the log out, before the events are put behind it.
        simp only [if_true, Option.elim_some, Event.Log.events_append]
        rw [← List.append_assoc, hserved]
      | false =>
        simp only [Bool.false_eq_true, if_false, Option.elim_some, Event.Log.events_empty,
          List.append_nil]
        exact hserved

/-- **The events of a request** come behind those that there were: what is handed out and what is then
in the log is what was in it, and what the request gained. -/
theorem handle_handedOut (hentered : vault.entered = false) (request : Request) :
    request.handedOut (handle request vault).1 ++ (handle request vault).2.log.events =
      vault.log.events ++ (handle request vault).1.gained.events := by
  -- Changes without a payout hand nothing out.
  have recorded {change : Reply × Vault} (h : change.2.log = vault.log ++ change.1.gained) :
      [] ++ change.2.log.events = vault.log.events ++ change.1.gained.events := by
    rw [List.nil_append, h, Event.Log.events_append]
  have transacted {α : Type} (action : Action α) (answer : α → Answer) :
      [] ++ (Reply.ofCompletion answer (vault.transact action)).2.log.events =
        vault.log.events ++ (Reply.ofCompletion answer (vault.transact action)).1.gained.events := by
    have hisolated : Isolated vault [] (Reply.ofCompletion answer (vault.transact action)) _ :=
      .of_transact hentered action answer
    exact recorded hisolated.recorded
  cases request with
  | whitelist => exact recorded (whitelist_isolated hentered _ _ _).recorded
  | register => exact recorded (register_isolated hentered _ _).recorded
  | call call =>
    cases call with
    | query query => exact (List.append_nil _).symm
    | drainEvents => exact List.append_nil (vault.log.events ++ [])
    | dewhitelist | setAccrualRate | advanceEpoch | receiveReward | deposit | convert | transfer
    | importLegacy | migrate | mow | plant =>
      exact transacted _ _
    | withdraw owner asset indices amounts accepts inner =>
      rw [handle, serve_withdraw]
      exact transactPaying_handedOut hentered (Action.withdraw owner asset indices amounts)
        (fun receipt => ⟨asset, owner, receipt.quantity⟩) accepts inner
    | claim id accepts inner =>
      rw [handle, serve_claim]
      exact transactPaying_handedOut hentered _ _ accepts inner

/-- What was in the log and what the requests gained has been handed out or is in the log. -/
theorem run_handedOut (hentered : vault.entered = false) (requests : List Request) :
    (history requests vault).handedOut ++ (run requests vault).2.log.events =
      vault.log.events ++ (history requests vault).gained := by
  induction requests generalizing vault with
  | nil => exact (List.append_nil _).symm
  | cons request requests ih =>
    have hrest := ih (handle_transition hentered request).2
    have hfirst := handle_handedOut hentered request
    simp only [History.handedOut, History.gained, history, run, List.flatMap_cons,
      List.append_assoc] at hrest ⊢
    rw [hrest, ← List.append_assoc, hfirst, List.append_assoc]

/-- **Nothing is lost, and nothing is told twice.**  The events of a run of a new vault, drained or
not, are the events that the requests gained, in the same order. -/
theorem record_eq {charter : Charter} {start : Vault} (h : genesis charter = .ok start)
    (requests : List Request) : record requests start = ⟨(history requests start).gained⟩ := by
  simp only [genesis, bind_eq_ok, StalkLedger.pure_eq_ok] at h
  obtain ⟨ledger, -, rfl⟩ := h
  exact Event.Log.ext (run_handedOut rfl requests)

/-! ### What requests leave unsaid -/

/-- A change leaves nothing unsaid if the action that makes it does not. -/
theorem Changed.told {action : Action α} {completion : Completion α} {after : Vault}
    (h : Changed action vault completion after)
    (made : ∀ {out}, action vault.ledger = .ok out → Told vault.ledger 0 out.events out.ledger) :
    Told vault.ledger 0 completion.gained after.ledger := by
  cases h with
  | refused fault hc hl he =>
    rw [hc, hl]
    exact .refl _
  | made out h hc hl he =>
    rw [hc, hl]
    exact made h

theorem whitelist_told {asset : AssetId} {terms : AssetTerms} {valuation : Valuation}
    (hentered : vault.entered = false) (hl : vault.ledger.Housed) :
    Told vault.ledger 0 (vault.whitelist asset terms valuation).1.gained
      (vault.whitelist asset terms valuation).2.ledger := by
  have hchanged : Changed (Action.whitelist asset terms) vault _ _ := transact_changed hentered
  have htold := hchanged.told (StalkLedger.whitelist_told hl)
  unfold Vault.whitelist
  revert htold
  rcases vault.transact (Action.whitelist asset terms) with ⟨⟨_ | _, gained⟩, after⟩ <;> exact id

theorem advanceEpoch_told {report : EpochReport} (hentered : vault.entered = false)
    (hl : vault.ledger.Housed) :
    let change := serve (.advanceEpoch report) vault
    Told vault.ledger
      (.floods (Request.unrecorded (.call (.advanceEpoch report)) change.1 change.2.ledger) 0)
      change.1.gained change.2.ledger := by
  intro change
  have hchange : change =
      Reply.ofCompletion .flag (vault.transact (Action.advanceEpoch report)) := by
    rw [← serve]
  rw [transact_eq hentered] at hchange
  cases haction : Action.advanceEpoch report vault.ledger with
  | error fault =>
    rw [haction] at hchange
    rw [hchange]
    exact (Told.refl _).of_eq Books.floods_zero.symm
  | ok out =>
    rw [haction] at hchange
    rw [hchange]
    exact StalkLedger.advanceEpoch_told hl haction

/-- **A request** leaves nothing unsaid but a payout that finds no roots. -/
theorem handle_told (hentered : vault.entered = false) (hl : vault.ledger.Housed)
    (request : Request) :
    Told vault.ledger
      (.floods (request.unrecorded (handle request vault).1 (handle request vault).2.ledger) 0)
      (handle request vault).1.gained (handle request vault).2.ledger := by
  have nothing {events : Event.Log} {ledger' : Ledger} (h : Told vault.ledger 0 events ledger') :
      Told vault.ledger (.floods (0 : ℕ) 0) events ledger' := h.of_eq Books.floods_zero.symm
  cases request with
  | whitelist => exact nothing (whitelist_told hentered hl)
  | register asset valuation =>
    have hledger := (@register_transition _ asset valuation hentered).1
    have hsame : Told vault.ledger 0 ∅ (vault.register asset valuation).2.ledger := by
      rw [hledger]
      exact .refl _
    exact nothing hsame
  | call call =>
    cases call with
    | query | drainEvents => exact nothing (.refl _)
    | dewhitelist => exact nothing ((transact_changed hentered).told (dewhitelist_told hl))
    | setAccrualRate => exact nothing ((transact_changed hentered).told (setAccrualRate_told hl))
    | advanceEpoch => exact advanceEpoch_told hentered hl
    | receiveReward => exact nothing ((transact_changed hentered).told receiveReward_told)
    | deposit =>
      refine nothing ((transact_changed hentered).told fun h => ?_)
      obtain ⟨value, -, hdeposit⟩ := lift_bind.mp h
      exact deposit_told hdeposit
    | withdraw owner asset indices amounts accepts inner =>
      rw [handle, serve_withdraw]
      exact nothing ((withdraw_changed hentered).told withdraw_told)
    | convert => exact nothing ((transact_changed hentered).told convert_told)
    | transfer => exact nothing ((transact_changed hentered).told transfer_told)
    | importLegacy => exact nothing ((transact_changed hentered).told importLegacy_told)
    | migrate => exact nothing ((transact_changed hentered).told migrate_told)
    | mow => exact nothing ((transact_changed hentered).told mow_told)
    | plant => exact nothing ((transact_changed hentered).told plant_told)
    | claim id accepts inner =>
      rw [handle, serve_claim]
      exact nothing ((claim_changed hentered).told claimFlood_told)

/-- **A run** leaves nothing unsaid but the payouts that find no roots; the induction is on the
requests, and every ledger on the way has its positions in their places. -/
theorem run_told (hentered : vault.entered = false) (hl : vault.ledger.Housed)
    (requests : List Request) :
    Told vault.ledger (.floods (history requests vault).unrecorded 0)
      ⟨(history requests vault).gained⟩ (run requests vault).2.ledger := by
  induction requests generalizing vault with
  | nil => exact (Told.refl _).of_eq Books.floods_zero.symm
  | cons request requests ih =>
    obtain ⟨htransition, hentered'⟩ := handle_transition hentered request
    have hfirst := handle_told hentered hl request
    have hrest := ih hentered' (htransition.housed hl)
    have hsum : (history (request :: requests) vault).unrecorded =
        request.unrecorded (handle request vault).1 (handle request vault).2.ledger +
          (history requests (handle request vault).2).unrecorded := List.sum_cons
    refine (hfirst.trans hrest).of_eq ?_
    rw [Books.floods_add, add_zero, hsum, Nat.cast_add]

/-- **The events tell the ledger**, up to the payouts that find no roots. -/
theorem told {charter : Charter} {start : Vault} (h : genesis charter = .ok start)
    (requests : List Request) :
    let ledger := (run requests start).2.ledger
    ledger.books = (record requests start).books +
        .floods (history requests start).unrecorded 0 ∧
      ∀ reading, ledger.read reading = (record requests start).latest reading reading.initial := by
  obtain ⟨hledger, hentered⟩ := genesis_eq_ok h
  obtain ⟨hbooks, hlatest⟩ :=
    run_told hentered (consistent_of_genesis hledger).housed requests
  rw [← record_eq h] at hbooks hlatest
  simp only [Ledger.genesis, bind_eq_ok, StalkLedger.pure_eq_ok] at hledger
  obtain ⟨_, -, hnew⟩ := hledger
  have hempty : start.ledger.books = 0 := by
    rw [← hnew]
    funext book
    cases book <;> rfl
  have hinitial (reading : Reading) : start.ledger.read reading = reading.initial := by
    rw [← hnew]
    cases reading <;> rfl
  refine ⟨?_, fun reading => ?_⟩
  · rw [hbooks, hempty, zero_add]
  · rw [hlatest, hinitial]

/-- **The events tell what is held.**  Add up all events of a run of a new vault, those that were taken
out of the log included.  At every index of every account and asset, the quantities and the values of
the positions that were added or imported, less those that were removed, are those of the position in
the current store and of the one in the legacy store under the epoch that stands for the index, if
there is one.  For every account, the changes of stalk and of roots add up to its balances, and its
latest change tells them outright.  And the reward received, less what was planted, is the earned
pool. -/
theorem events_tell_holdings {charter : Charter} {start : Vault} (h : genesis charter = .ok start)
    (requests : List Request) :
    let ledger := (run requests start).2.ledger
    let record := record requests start
    (∀ place : Slot Index, ∃ epoch? : Option Epoch,
      (∀ epoch, epoch? = some epoch ↔ ledger.StandsFor place.asset epoch place.mark) ∧
        let current := (ledger.positionAt place.owner place.asset place.mark).getD .nothing
        let older := (epoch?.bind (ledger.legacyPosition place.owner place.asset)).getD .nothing
        record.books (.quantity place) = current.quantity.toNat + older.quantity.toNat ∧
          record.books (.value place) = current.value.toNat + older.value.toNat) ∧
      (∀ id, record.books (.stalk id) = (ledger.account id).stalk.toNat ∧
        record.books (.roots id) = (ledger.account id).roots.toNat ∧
          record.latest (.balances id) (0, 0) =
            ((ledger.account id).stalk, (ledger.account id).roots)) ∧
        record.books .earnedPool = ledger.totals.earnedPool.toNat := by
  intro ledger record
  obtain ⟨hbooks, hlatest⟩ := told h requests
  have hhoused : ledger.Housed := (consistent h requests).housed
  have hbook (book : Book) (hpaid : book ≠ .floodPaid) (hclaimed : book ≠ .floodClaimed) :
      record.books book = ledger.books book := by
    have hsum := congrFun hbooks book
    rw [Pi.add_apply, Books.floods_of_ne _ _ hpaid hclaimed, add_zero] at hsum
    exact hsum.symm
  refine ⟨fun place => ?_, fun id => ⟨hbook (.stalk id) nofun nofun, hbook (.roots id) nofun nofun,
    ?_⟩, hbook .earnedPool nofun nofun⟩
  · obtain ⟨epoch?, hepoch⟩ := hhoused.exists_standsFor place.asset place.mark
    refine ⟨epoch?, hepoch, (hbook (.quantity place) nofun nofun).trans ?_,
      (hbook (.value place) nofun nofun).trans ?_⟩
    · rw [books, hhoused.holdings_onlyAt hepoch, Position.weigh_quantity, Position.weigh_quantity]
    · rw [books, hhoused.holdings_onlyAt hepoch, Position.weigh_value, Position.weigh_value]
  · exact (hlatest (.balances id)).symm

/-- The log is taken out before account 7 withdraws, and again by whoever pays it out.  What account 7
still holds at index -8 is told all the same; it is in the legacy store, under epoch 6. -/
theorem events_tell_holdings_sample : genesis ⟨10, 10, 0, 9⟩ = .ok sample ∧
    let requests := sampleRequests ++
      [.call .drainEvents, .call (.withdraw 7 1 [.ofInt (-8)] [5] true [.drainEvents])]
    let vault := (run requests sample).2
    let record := record requests sample
    vault.log.events.length = 3 ∧ vault.ledger.positionAt 7 1 (.ofInt (-8)) = none ∧
      vault.ledger.legacyPosition 7 1 6 = some ⟨15, 21⟩ ∧
        record.books (.quantity ⟨7, 1, .ofInt (-8)⟩) = 15 ∧
          record.books (.value ⟨7, 1, .ofInt (-8)⟩) = 21 := by
  refine ⟨genesis_sample, ?_⟩
  intro requests vault record
  have hcurrent : vault.ledger.positionAt 7 1 (.ofInt (-8)) = none := by decide +kernel
  have hlegacy : vault.ledger.legacyPosition 7 1 6 = some ⟨15, 21⟩ := by decide +kernel
  have hstands : vault.ledger.StandsFor 1 6 (.ofInt (-8)) :=
    ⟨⟨2, true⟩, by decide +kernel, by decide +kernel⟩
  obtain ⟨epoch?, hepoch, hquantity, hvalue⟩ :=
    (events_tell_holdings genesis_sample requests).1 ⟨7, 1, .ofInt (-8)⟩
  obtain rfl := (hepoch 6).mpr hstands
  refine ⟨by decide +kernel, hcurrent, hlegacy, hquantity.trans ?_, hvalue.trans ?_⟩
  · rw [hcurrent, Option.bind_some, hlegacy]
    rfl
  · rw [hcurrent, Option.bind_some, hlegacy]
    rfl

/-- **The events tell the book of floods**, up to the payouts that find no roots.  Add up all events of
a run of a new vault, those that were taken out of the log included.  What was told to be paid in,
and what was paid in by followed reports while the flood had no roots, is the total paid; what was
told to be claimed is the total claimed; the latest payout told tells the payout per root; and the
flood that is on is the one that began last, unless one has ended since.

The payouts that find no roots are in no event: if there are any, the total paid cannot be told. -/
theorem events_tell_floods {charter : Charter} {start : Vault} (h : genesis charter = .ok start)
    (requests : List Request) :
    let book := (run requests start).2.ledger.floodBook
    let record := record requests start
    (book.totalPaid.toNat : ℤ) =
        record.books .floodPaid + (history requests start).unrecorded ∧
      (book.totalClaimed.toNat : ℤ) = record.books .floodClaimed ∧
        book.payoutPerRoot = record.latest .payoutPerRoot 0 ∧
          book.active = record.latest .flood none := by
  intro book record
  obtain ⟨hbooks, hlatest⟩ := told h requests
  refine ⟨?_, ?_, hlatest .payoutPerRoot, hlatest .flood⟩
  · have hpaid := congrFun hbooks .floodPaid
    rw [Pi.add_apply, Books.floods_floodPaid] at hpaid
    exact hpaid
  · have hclaimed := congrFun hbooks .floodClaimed
    rw [Pi.add_apply, Books.floods_floodClaimed, add_zero] at hclaimed
    exact hclaimed

/-- **A payout that finds no roots is not told**: the first report of a new vault begins a flood and
pays 7 for it, and the events add up to nothing. -/
theorem payout_without_roots_untold :
    ¬∀ charter start, genesis charter = .ok start → ∀ requests,
      ((run requests start).2.ledger.floodBook.totalPaid.toNat : ℤ) =
        (record requests start).books .floodPaid := by
  intro h
  have hequal := h _ _ genesis_sample [.call (.advanceEpoch ⟨11, true, 7, 0⟩)]
  exact absurd hequal (by decide +kernel)

/-- The 7 of a flood without roots are in no event of their own; the next flood, which has roots, pays
them out. -/
theorem events_tell_floods_sample : genesis ⟨10, 10, 0, 9⟩ = .ok sample ∧
    let requests : List Request :=
      [.call (.advanceEpoch ⟨11, true, 7, 0⟩),
        .call (.advanceEpoch ⟨12, false, 0, 0⟩),
        .whitelist 1 ⟨10000, 3, none⟩ .unit,
        .call (.deposit 8 1 50),
        .call (.advanceEpoch ⟨13, true, 1000, 0⟩),
        .call (.claim 8 true [.drainEvents])]
    let book := (run requests sample).2.ledger.floodBook
    let record := record requests sample
    book.totalPaid = 1007 ∧ record.books .floodPaid = 1000 ∧
      (history requests sample).unrecorded = 7 ∧
        (book.totalPaid.toNat : ℤ) =
          record.books .floodPaid + (history requests sample).unrecorded := by
  refine ⟨genesis_sample, by decide +kernel, by decide +kernel, by decide +kernel, ?_⟩
  exact (events_tell_floods genesis_sample _).1

end Vault

end StalkLedger
