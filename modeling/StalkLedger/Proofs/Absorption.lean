import StalkLedger.Proofs.Conversion
import StalkLedger.Proofs.Isolation
import StalkLedger.Proofs.Transfer

/-!
# Mowing is absorbed

Whatever touches the positions of an account in an asset mows it there first.  So it does not matter
whether the account was mown just before.

* **Mowing once an epoch is enough** (`Ledger.Onward`).  An account that has been mown is current,
  and stays so until the epoch is over, whatever else happens (`Transition.onward`); and mowing what
  is current does nothing.
* **The mowing of a flow absorbs the one before it** (`Absorbs`).  What a flow checks before it mows
  is not changed by mowing, which moves accounts and totals alone; and when it comes to mow, it
  finds the same ledger, with or without anything left to do.

On a vault (`Vault.mowing_absorbed`) the two ways differ in nothing that is answered, and lead to
the same ledger with the same events.
-/

namespace StalkLedger

open StalkLedger.Action

variable {ledger ledger' ledger'' : Ledger}

/-! ### Current until the epoch is over -/

namespace Ledger

/-- The epoch has not gone back; and if it has not gone on, accounts that are current have stayed
so. -/
structure Onward (ledger ledger' : Ledger) : Prop where
  epoch : ledger.epoch ≤ ledger'.epoch
  current : ∀ {id asset}, ledger'.epoch = ledger.epoch → ledger.Current id asset →
    ledger'.Current id asset

namespace Onward

theorem refl (ledger : Ledger) : Onward ledger ledger := ⟨Nat.le_refl _, fun _ => id⟩

theorem trans (h : Onward ledger ledger') (h' : Onward ledger' ledger'') :
    Onward ledger ledger'' where
  epoch := Nat.le_trans h.epoch h'.epoch
  current he hcurrent := by
    -- Between two epochs that are the same there is no other.
    have hsame : ledger'.epoch = ledger.epoch :=
      Unsigned.ext (Nat.le_antisymm (he ▸ h'.epoch) h.epoch)
    exact h'.current (he.trans hsame.symm) (h.current hsame hcurrent)

theorem of_keeps (h : Keeps ledger ledger') : Onward ledger ledger' :=
  ⟨Nat.le_of_eq (congrArg _ h.epoch.symm), fun _ => h.current⟩

/-- A change of the registry that moves no index. -/
theorem of_assets (haccounts : ledger'.accounts = ledger.accounts)
    (hepoch : ledger'.epoch = ledger.epoch)
    (hassets : ∀ {id entry}, ledger.assets.get? id = some entry →
      ∃ entry', ledger'.assets.get? id = some entry' ∧
        entry'.accrualIndex = entry.accrualIndex) : Onward ledger ledger' := by
  refine ⟨Nat.le_of_eq (congrArg _ hepoch.symm), fun _ hcurrent => ?_⟩
  obtain ⟨account, checkpoint, entry, haccount, hle, hcheckpoint, hentry, hindex⟩ := hcurrent
  obtain ⟨entry', hentry', hsame⟩ := hassets hentry
  exact ⟨account, checkpoint, entry', haccounts ▸ haccount, hepoch ▸ hle, hcheckpoint, hentry',
    hindex.trans hsame.symm⟩

/-- An entry that is replaced by one at the same index. -/
theorem withAsset {id : AssetId} {entry entry' : Asset} (hentry : ledger.asset id = .ok entry)
    (hindex : entry'.accrualIndex = entry.accrualIndex) :
    Onward ledger (ledger.withAsset id entry') := by
  refine .of_assets rfl rfl fun {id' listed} hlisted => ?_
  by_cases hid : id' = id
  · subst hid
    obtain rfl := Option.some.inj (hlisted.symm.trans (asset_eq_ok.mp hentry))
    exact ⟨entry', SortedMap.get?_insert_self .., hindex⟩
  · exact ⟨listed, (SortedMap.get?_insert_of_ne _ hid _).trans hlisted, rfl⟩

end Onward

end Ledger

open Ledger (Onward Keeps)

/-- **Only the clock makes an account stale.** -/
theorem Transition.onward {paid : AccountId → ℕ} {events : Event.Log}
    (h : Transition ledger paid events ledger') : Onward ledger ledger' := by
  cases h with
  | posting h => exact .of_keeps h.keeps
  | @claim id _ h =>
    obtain ⟨updated, totalClaimed, hupdate, -, -, rfl⟩ := claimFlood_stages h
    have hupdated : Keeps ledger updated.ledger := (Move.update hupdate).keeps
    have hclaimed : Keeps updated.ledger (updated.ledger.withAccount id
        { updated.ledger.account id with
          flood := { (updated.ledger.account id).flood with claimable := 0 } }) :=
      .withBalances (Nat.le_refl _) rfl
    exact .of_keeps ((hupdated.trans hclaimed).trans
      (.of_accounts_eq ⟨rfl, fun _ => rfl⟩ rfl rfl))
  | @whitelist id _ _ h =>
    obtain ⟨-, hnew, -, rfl⟩ := whitelist_stages h
    refine .of_assets rfl rfl fun {id' entry} hentry => ?_
    have hne : id' ≠ id := by
      rintro rfl
      exact absurd (hnew.symm.trans hentry) nofun
    exact ⟨entry, (SortedMap.get?_insert_of_ne _ hne _).trans hentry, rfl⟩
  | dewhitelist h =>
    obtain ⟨entry, hentry, rfl⟩ := dewhitelist_stages h
    exact .withAsset hentry rfl
  | setAccrualRate h =>
    obtain ⟨-, entry, hentry, rfl⟩ := setAccrualRate_stages h
    exact .withAsset hentry rfl
  | reward h =>
    rcases receiveReward_stages h with ⟨-, rfl⟩ | ⟨_, _, _, _, -, -, -, -, rfl⟩
    · exact .refl _
    · exact .of_keeps (.withTotals _ _)
  | advance h =>
    rcases advanceEpoch_stages h with ⟨-, rfl⟩ | ⟨hlt, -⟩
    · exact .refl _
    rcases advanceEpoch_frame h with heq | ⟨_, _, _, _, -, -, heq⟩
    · rw [heq]
      exact .refl _
    · rw [heq]
      exact ⟨Nat.le_of_lt hlt, fun he => absurd (congrArg _ he.symm) (Nat.ne_of_lt hlt)⟩

/-! ### Actions that mow first -/

/-- The same outcome, with some events recorded before it. -/
def Outcome.after {α : Type} (events : Event.Log) (out : Outcome α) : Outcome α :=
  { out with events := events ++ out.events }

/-- An action does not notice a mowing that has taken place just before it: from either ledger it
fails with the same fault, or comes to the same result, the same ledger and all in all the same
events. -/
def Absorbs {α : Type} (action : Action α) (mown : Outcome Amount) (ledger : Ledger) : Prop :=
  action ledger = (action mown.ledger).map (Outcome.after mown.events)

namespace Action

variable {α β : Type} {id : AccountId} {asset : AssetId} {mown : Outcome Amount}

/-- How an action goes on from its first step. -/
theorem bind_of_ok {action : Action α} {next : α → Action β} {first : Outcome α}
    (h : action ledger = .ok first) : (action >>= next) ledger =
      (next first.result first.ledger).map (Outcome.after first.events) := by
  show bind action next ledger = _
  unfold bind
  rw [h]
  dsimp only
  cases next first.result first.ledger <;> rfl

/-- **A mowing absorbs the same mowing before it**, whatever follows. -/
theorem mow_bind_absorbs (h : mow id asset ledger = .ok mown) (next : Action β) :
    Absorbs (mow id asset >>= fun _ => next) mown ledger := by
  have hagain := mow_of_current (mow_moves h).2
  rw [Absorbs, bind_of_ok h, bind_of_unrecorded hagain]

/-- A check that does not look at the ledger is the same in both. -/
theorem lift_bind_absorbs {x : Except Fault α} {next : α → Action β}
    (h : ∀ a, Absorbs (next a) mown ledger) : Absorbs (liftM x >>= next) mown ledger := by
  cases x with
  | error fault => rfl
  | ok a =>
    have hpure (ledger : Ledger) : ((liftM (.ok a : Except Fault α) : Action α) >>= next) ledger =
        next a ledger := bind_of_unrecorded rfl
    rw [Absorbs, hpure, hpure]
    exact h a

/-- Nor does it matter that the ledger is looked at, if the action goes on in the same way. -/
theorem ledger_bind_absorbs {next : Ledger → Action β} (hsame : next mown.ledger = next ledger)
    (h : Absorbs (next ledger) mown ledger) : Absorbs (Action.ledger >>= next) mown ledger := by
  have hlook (ledger : Ledger) : (Action.ledger >>= next) ledger = next ledger ledger :=
    bind_of_unrecorded rfl
  rw [Absorbs, hlook, hlook, hsame]
  exact h

/-! ### The flows -/

/-- A deposit finds the asset as open as before. -/
theorem deposit_absorbs (h : mow id asset ledger = .ok mown) (quantity value : Amount) :
    Absorbs (deposit id asset quantity value) mown ledger := by
  obtain ⟨accounts, totals, hframe⟩ := mow_frame h
  exact ledger_bind_absorbs (by rw [hframe]; rfl)
    (lift_bind_absorbs fun _ => mow_bind_absorbs h _)

theorem withdraw_absorbs (h : mow id asset ledger = .ok mown) (indices : List Index)
    (amounts : List Amount) : Absorbs (withdraw id asset indices amounts) mown ledger :=
  mow_bind_absorbs h _

theorem transfer_absorbs (h : mow id asset ledger = .ok mown) (recipient : AccountId)
    (indices : List Index) (amounts : List Amount) :
    Absorbs (transfer id recipient asset indices amounts) mown ledger :=
  mow_bind_absorbs h _

/-- An import reads the legacy terms and the charter, and makes up its position, before it mows. -/
theorem importLegacy_absorbs (h : mow id asset ledger = .ok mown) (epoch : Epoch)
    (quantity value : Amount) :
    Absorbs (importLegacy id asset epoch quantity value) mown ledger := by
  obtain ⟨accounts, totals, hframe⟩ := mow_frame h
  exact ledger_bind_absorbs (by rw [hframe]; rfl)
    (lift_bind_absorbs fun _ => lift_bind_absorbs fun _ => lift_bind_absorbs fun _ =>
      lift_bind_absorbs fun _ => mow_bind_absorbs h _)

theorem migrate_absorbs (h : mow id asset ledger = .ok mown) (epochs : List Epoch) :
    Absorbs (migrate id asset epochs) mown ledger := by
  obtain ⟨accounts, totals, hframe⟩ := mow_frame h
  exact ledger_bind_absorbs (by rw [hframe]; rfl)
    (lift_bind_absorbs fun _ => mow_bind_absorbs h _)

/-- A conversion compares lengths, and finds the other asset as open as before. -/
theorem convert_absorbs {order : ConversionOrder}
    (h : mow order.owner order.fromAsset ledger = .ok mown)
    (valueOf : Amount → Except Fault Amount) : Absorbs (convert order valueOf) mown ledger := by
  unfold convert
  split
  · rfl
  · obtain ⟨accounts, totals, hframe⟩ := mow_frame h
    exact ledger_bind_absorbs (by rw [hframe]; rfl)
      (lift_bind_absorbs fun _ => mow_bind_absorbs h _)

theorem plant_absorbs (h : mow id ledger.charter.baseAsset ledger = .ok mown) :
    Absorbs (plant id) mown ledger := by
  obtain ⟨accounts, totals, hframe⟩ := mow_frame h
  exact ledger_bind_absorbs (by rw [hframe]) (mow_bind_absorbs h _)

end Action

/-! ### On a vault -/

/-- The account that a call mows before it goes on, and in what asset. -/
def Call.mowsFirst (base : AssetId) : Call → Option (AccountId × AssetId)
  | .deposit owner asset _ | .withdraw owner asset _ _ _ _ | .importLegacy owner asset _ _ _
  | .migrate owner asset _ => some (owner, asset)
  | .transfer sender _ asset _ _ => some (sender, asset)
  | .convert order => some (order.owner, order.fromAsset)
  | .plant account => some (account, base)
  | _ => none

namespace Vault

variable {α : Type} {vault : Vault} {id : AccountId} {asset : AssetId} {mown : Outcome Amount}

/-- The vault once an action has been committed. -/
def committed (vault : Vault) (out : Outcome α) : Vault :=
  { vault with ledger := out.ledger, log := vault.log ++ out.events }

theorem committed_committed {β : Type} (vault : Vault) (first : Outcome β) (out : Outcome α) :
    (vault.committed first).committed out = vault.committed (out.after first.events) := by
  rw [committed, committed, committed, Outcome.after, Event.Log.append_assoc]

/-- A call that comes later, after something else has gained some events, and the same call made
directly: they are answered alike, and have led to the same. -/
structure Absorbed (before : Event.Log) (inner : List Call) (later direct : Reply × Vault) :
    Prop where
  /-- The answer is the same, and so is the fault. -/
  result : later.1.result = direct.1.result
  ledger : ∀ answer, direct.1.result = .ok answer → later.2.ledger = direct.2.ledger
  /-- The direct call has gained the events that the other one finds, and those that it gains. -/
  gained : ∀ answer, direct.1.result = .ok answer → direct.1.gained = before ++ later.1.gained
  /-- Unless the log is taken out while a payout is carried out, all of the vault is the same. -/
  vault : ∀ answer, direct.1.result = .ok answer → (∀ call ∈ inner, call ≠ .drainEvents) →
    later.2 = direct.2

/-- There is nothing to compare where both have failed. -/
theorem Absorbed.of_fault {before : Event.Log} {inner : List Call} {later direct : Reply × Vault}
    (fault : Fault) (hlater : later.1.result = .error fault)
    (hdirect : direct.1.result = .error fault) : Absorbed before inner later direct := by
  have failed {P : Prop} {answer : Answer} (h : direct.1.result = .ok answer) : P := by
    rw [hdirect] at h
    cases h
  exact ⟨hlater.trans hdirect.symm, fun _ => failed, fun _ => failed, fun _ => failed⟩

/-- An action that succeeds is committed, -/
theorem transact_of_ok {action : Action α} {out : Outcome α} (hentered : vault.entered = false)
    (h : action vault.ledger = .ok out) :
    vault.transact action = (⟨.ok out.result, out.events⟩, vault.committed out) := by
  rw [transact_eq hentered, h]
  rfl

/-- and one that fails is not. -/
theorem transact_of_error {action : Action α} {fault : Fault} (hentered : vault.entered = false)
    (h : action vault.ledger = .error fault) :
    vault.transact action = (⟨.error fault, ∅⟩, vault) := by
  rw [transact_eq hentered, h]

/-- A change that nothing is paid out for. -/
theorem transact_absorbed {action : Action α} (hentered : vault.entered = false)
    (h : Absorbs action mown vault.ledger) (answer : α → Answer) (inner : List Call) :
    Absorbed mown.events inner
      (Reply.ofCompletion answer ((vault.committed mown).transact action))
      (Reply.ofCompletion answer (vault.transact action)) := by
  cases haction : action mown.ledger with
  | error fault =>
    have hdirect : action vault.ledger = .error fault := h.trans (by rw [haction]; rfl)
    rw [@transact_of_error _ (vault.committed mown) _ _ hentered haction,
      transact_of_error hentered hdirect]
    exact .of_fault fault rfl rfl
  | ok out =>
    have hdirect : action vault.ledger = .ok (out.after mown.events) :=
      h.trans (by rw [haction]; rfl)
    rw [@transact_of_ok _ (vault.committed mown) _ _ hentered haction,
      transact_of_ok hentered hdirect, committed_committed]
    exact ⟨rfl, fun _ _ => rfl, fun _ _ => rfl, fun _ _ _ => rfl⟩

section Paying

variable {action : Action α} {due : α → Payment} {accepts : Bool} {inner : List Call}
  {out : Outcome α}

/-- A change whose payout is owed to nobody, or accepted, is made, whatever is called meanwhile. -/
theorem transactPaying_made (hentered : vault.entered = false) (h : action vault.ledger = .ok out)
    (hpaid : (due out.result).quantity = 0 ∨ accepts = true) :
    (vault.transactPaying action due (carrying accepts inner)).1.1 = ⟨.ok out.result, out.events⟩ ∧
    (vault.transactPaying action due (carrying accepts inner)).2.ledger = out.ledger ∧
    ((∀ call ∈ inner, call ≠ .drainEvents) →
      (vault.transactPaying action due (carrying accepts inner)).2 = vault.committed out) := by
  have hcompletion : (vault.transactPaying action due (carrying accepts inner)).1.1 =
      ⟨.ok out.result, out.events⟩ := by
    rw [transactPaying, transactThen, if_neg (by rw [hentered]; exact Bool.false_ne_true), h]
    by_cases hdue : (due out.result).quantity = 0
    · simp only [pay, if_pos hdue]
    · obtain rfl := hpaid.resolve_left hdue
      simp only [pay, if_neg hdue, carrying, if_true]
  refine ⟨hcompletion, ?_, fun hkept => ?_⟩
  · have hchanged := @transactPaying_changed _ _ vault action due (carrying accepts inner) hentered
      fun payment _ he => carrying_of_entered payment he
    rcases hchanged with ⟨fault, hc, -, -⟩ | ⟨out', hrun, -, hledger, -⟩
    · cases hc.symm.trans hcompletion
    · obtain rfl := Except.ok.inj (h.symm.trans hrun)
      exact hledger
  · rw [transactPaying_eq hentered action due accepts hkept, h]
    dsimp only
    by_cases hdue : (due out.result).quantity = 0
    · rw [if_pos hdue, committed]
    · rw [if_neg hdue, if_pos (hpaid.resolve_left hdue), committed]

/-- A change whose payout is refused fails for that reason. -/
theorem transactPaying_refused (hentered : vault.entered = false)
    (h : action vault.ledger = .ok out)
    (hpaid : ¬((due out.result).quantity = 0 ∨ accepts = true)) :
    (vault.transactPaying action due (carrying accepts inner)).1.1.result = .error (.transferFailed
      (due out.result).asset (due out.result).recipient (due out.result).quantity) := by
  obtain ⟨hdue, haccepts⟩ := not_or.mp hpaid
  obtain rfl := Bool.eq_false_iff.mpr haccepts
  rw [transactPaying, transactThen, if_neg (by rw [hentered]; exact Bool.false_ne_true), h]
  simp only [pay, if_neg hdue, carrying, Bool.false_eq_true, if_false]

/-- A change that is paid for. -/
theorem transactPaying_absorbed (hentered : vault.entered = false)
    (h : Absorbs action mown vault.ledger) (answer : α → Answer) :
    Absorbed mown.events inner
      (Reply.ofPaying answer ((vault.committed mown).transactPaying action due
        (carrying accepts inner)))
      (Reply.ofPaying answer (vault.transactPaying action due (carrying accepts inner))) := by
  have result (vault : Vault) : (Reply.ofPaying answer
      (vault.transactPaying action due (carrying accepts inner))).1.result =
        (vault.transactPaying action due (carrying accepts inner)).1.1.result.map answer := rfl
  cases haction : action mown.ledger with
  | error fault =>
    have hdirect : action vault.ledger = .error fault := h.trans (by rw [haction]; rfl)
    refine .of_fault fault ?_ ?_
    · rw [result, @transactPaying_of_error _ _ (vault.committed mown) _ _ _ _ hentered haction]
      rfl
    · rw [result, transactPaying_of_error hentered hdirect]
      rfl
  | ok out =>
    have hdirect : action vault.ledger = .ok (out.after mown.events) :=
      h.trans (by rw [haction]; rfl)
    by_cases hpaid : (due out.result).quantity = 0 ∨ accepts = true
    · obtain ⟨hcompletion, hledger, hvault⟩ :=
        @transactPaying_made _ (vault.committed mown) _ _ _ inner _ hentered haction hpaid
      obtain ⟨hcompletion', hledger', hvault'⟩ :=
        @transactPaying_made _ vault _ _ _ inner _ hentered hdirect hpaid
      refine ⟨?_, fun _ _ => hledger.trans hledger'.symm, fun _ _ => ?_, fun _ _ hkept => ?_⟩
      · rw [result, result, hcompletion, hcompletion']
        rfl
      · exact (congrArg (·.gained) hcompletion').trans
          (congrArg (fun completion : Completion α => mown.events ++ completion.gained)
            hcompletion).symm
      · exact (hvault hkept).trans ((committed_committed vault mown out).trans (hvault' hkept).symm)
    · exact .of_fault _
        ((result _).trans (congrArg (·.map answer)
          (@transactPaying_refused _ (vault.committed mown) _ _ _ _ _ hentered haction hpaid)))
        ((result _).trans (congrArg (·.map answer)
          (transactPaying_refused hentered hdirect hpaid)))

end Paying

/-- **Every flow absorbs the mowing before it.** -/
theorem serve_absorbed (hentered : vault.entered = false) {call : Call}
    (hmow : mow id asset vault.ledger = .ok mown)
    (hcall : call.mowsFirst vault.ledger.charter.baseAsset = some (id, asset)) :
    Absorbed mown.events call.inner (serve call (vault.committed mown)) (serve call vault) := by
  cases call with
  | deposit owner asset' quantity =>
    obtain ⟨rfl, rfl⟩ := Prod.mk.inj (Option.some.inj hcall)
    have habsorbs (value : Amount) := deposit_absorbs hmow quantity value
    rw [serve, serve]
    exact transact_absorbed hentered (lift_bind_absorbs habsorbs) _ _
  | withdraw owner asset' indices amounts accepts inner =>
    obtain ⟨rfl, rfl⟩ := Prod.mk.inj (Option.some.inj hcall)
    rw [serve_withdraw, serve_withdraw]
    exact transactPaying_absorbed hentered (withdraw_absorbs hmow indices amounts) _
  | convert order =>
    obtain ⟨rfl, rfl⟩ := Prod.mk.inj (Option.some.inj hcall)
    rw [serve, serve]
    exact transact_absorbed hentered (convert_absorbs hmow _) _ _
  | transfer sender recipient asset' indices amounts =>
    obtain ⟨rfl, rfl⟩ := Prod.mk.inj (Option.some.inj hcall)
    rw [serve, serve]
    exact transact_absorbed hentered (transfer_absorbs hmow recipient indices amounts) _ _
  | importLegacy owner asset' epoch quantity value =>
    obtain ⟨rfl, rfl⟩ := Prod.mk.inj (Option.some.inj hcall)
    rw [serve, serve]
    exact transact_absorbed hentered (importLegacy_absorbs hmow epoch quantity value) _ _
  | migrate owner asset' epochs =>
    obtain ⟨rfl, rfl⟩ := Prod.mk.inj (Option.some.inj hcall)
    rw [serve, serve]
    exact transact_absorbed hentered (migrate_absorbs hmow epochs) _ _
  | plant account =>
    obtain ⟨rfl, rfl⟩ := Prod.mk.inj (Option.some.inj hcall)
    rw [serve, serve]
    exact transact_absorbed hentered (plant_absorbs hmow) _ _
  | _ => cases hcall

/-- A change that changes and records nothing leaves all of the vault as it is. -/
theorem transact_of_idle {action : Action α} {a : α} (hentered : vault.entered = false)
    (h : action vault.ledger = .ok ⟨a, vault.ledger, ∅⟩) :
    vault.transact action = (⟨.ok a, ∅⟩, vault) := by
  rw [transact_of_ok hentered h, committed, Event.Log.append_empty]

/-- A mowing that is answered has been committed. -/
theorem mow_committed (hentered : vault.entered = false) {answer : Answer}
    (h : (serve (.mow id asset) vault).1.result = .ok answer) :
    ∃ mown, mow id asset vault.ledger = .ok mown ∧
      serve (.mow id asset) vault =
        (⟨.ok (.amount mown.result), none, mown.events⟩, vault.committed mown) := by
  obtain ⟨mown, hmow, -⟩ := mow_of_answer hentered h
  exact ⟨mown, hmow, mow_answered hentered hmow⟩

/-- An account that is current is mown for nothing, and without a trace. -/
theorem serve_mow_of_current (hentered : vault.entered = false)
    (h : vault.ledger.Current id asset) :
    serve (.mow id asset) vault = (⟨.ok (.amount 0), none, ∅⟩, vault) := by
  rw [serve, transact_of_idle hentered (mow_of_current h)]
  rfl

theorem run_onward (hentered : vault.entered = false) (requests : List Request) :
    Onward vault.ledger (run requests vault).2.ledger :=
  run_invariant (fun h htransition => h.trans htransition.onward) requests hentered (.refl _)

/-- **Mowing is idempotent and absorbed.**  After any requests to a new vault, let a mowing be
answered.  Whatever is asked for afterwards, as long as the epoch lasts the same mowing gives
nothing, records nothing and leaves the vault as it is.  And any call that mows the account in that
asset before it goes on is answered, right after the mowing, as it is without it; if it succeeds it
leads to the same ledger, and the events of both are those of the one. -/
theorem mowing_absorbed {charter : Charter} {start : Vault} (h : genesis charter = .ok start)
    (requests : List Request) {id : AccountId} {asset : AssetId} {answer : Answer}
    (hanswer : (serve (.mow id asset) (run requests start).2).1.result = .ok answer) :
    let vault := (run requests start).2
    let mown := serve (.mow id asset) vault
    (∀ later : List Request, (run later mown.2).2.ledger.epoch = vault.ledger.epoch →
      serve (.mow id asset) (run later mown.2).2 =
        (⟨.ok (.amount 0), none, ∅⟩, (run later mown.2).2)) ∧
    ∀ call : Call, call.mowsFirst vault.ledger.charter.baseAsset = some (id, asset) →
      Absorbed mown.1.gained call.inner (serve call mown.2) (serve call vault) := by
  intro vault mown
  have hentered : vault.entered = false := run_entered requests (genesis_eq_ok h).2
  obtain ⟨out, hmow, hserved⟩ := mow_committed hentered hanswer
  obtain ⟨hmoves, hcurrent⟩ := mow_moves hmow
  have hmown : mown = (⟨.ok (.amount out.result), none, out.events⟩, vault.committed out) := hserved
  rw [hmown]
  refine ⟨fun later hepoch => ?_, fun call hcall => serve_absorbed hentered hmow hcall⟩
  have hentered' : (vault.committed out).entered = false := hentered
  refine serve_mow_of_current (run_entered later hentered')
    ((run_onward hentered' later).current ?_ hcurrent)
  exact hepoch.trans hmoves.keeps.epoch.symm

/-- Account 7 is mown after a flood has ended.  Having deposited in the same epoch it has nothing to
mow; and a withdrawal, while whose payout is carried out the log is taken out, absorbs the
mowing. -/
theorem mowing_absorbed_sample : genesis ⟨10, 10, 0, 9⟩ = .ok sample ∧
    let vault := (run sampleRequests sample).2
    let mown := serve (.mow 7 1) vault
    let later : List Request := [.call (.deposit 7 1 5)]
    let call : Call := .withdraw 7 1 [.ofInt (-8)] [5] true [.drainEvents]
    (∃ answer, mown.1.result = .ok answer) ∧
      (run later mown.2).2.ledger.epoch = vault.ledger.epoch ∧
      serve (.mow 7 1) (run later mown.2).2 =
        (⟨.ok (.amount 0), none, ∅⟩, (run later mown.2).2) ∧
      call.mowsFirst vault.ledger.charter.baseAsset = some (7, 1) ∧
      Absorbed mown.1.gained [.drainEvents] (serve call mown.2) (serve call vault) := by
  have hok : (serve (.mow 7 1) (run sampleRequests sample).2).1.result.toOption.isSome = true := by
    decide +kernel
  have hepoch : (run [.call (.deposit 7 1 5)] (serve (.mow 7 1)
      (run sampleRequests sample).2).2).2.ledger.epoch =
        (run sampleRequests sample).2.ledger.epoch := by decide +kernel
  obtain ⟨answer, hanswer⟩ := exists_ok hok
  obtain ⟨hidle, habsorbed⟩ := mowing_absorbed genesis_sample sampleRequests hanswer
  exact ⟨genesis_sample, ⟨answer, hanswer⟩, hepoch, hidle _ hepoch, rfl,
    habsorbed (.withdraw 7 1 [.ofInt (-8)] [5] true [.drainEvents]) rfl⟩

end Vault

end StalkLedger
