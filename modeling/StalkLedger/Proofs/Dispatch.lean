import StalkLedger.Proofs.Exit
import StalkLedger.Proofs.Frame

/-!
# Removals are dispatched exactly

A removal at an index is paid by the current store, by the legacy store, or by both, or it is refused.
Here all of that is told: which of these happens, what each entry loses, and that a refusal leaves
every book as it was.

* **Nothing is changed before the decision** (`InPlace.removePosition_of_draw_error`).  A failed action
  has no ledger to look at.  So the same removal is written as a program that changes the books as it
  goes (`InPlace.removePosition`); it comes to the same (`InPlace.outcome_removePosition`), and what
  it refuses leaves the ledger as it was.
* **The stores pay what was decided** (`Ledger.storesPay_of_takeAt`).  An entry loses a quantity with
  the value that goes with it, and an entry that loses all is gone (`Position.Loses`).
* **The removal succeeds if and only if the stores can pay** (`Ledger.Tallied.dispatches`), after any
  requests (`Vault.removals_dispatched`).
-/

namespace StalkLedger

namespace Ledger

variable {ledger ledger' : Ledger} {slot : Slot Index} {entry : Asset} {amount value : Amount}

/-! ### What can be paid -/

/-- Whether the stores can pay a quantity at an index. -/
def Pays (ledger : Ledger) (entry : Asset) (slot : Slot Index) (amount : Amount) : Prop :=
  let held := ledger.quantityAt slot.owner slot.asset slot.mark
  amount ≤ held ∨
    ∃ index epoch, entry.locate ledger.charter slot.mark = .legacy index epoch ∧
      let heldLegacy := ledger.legacyQuantity slot.owner slot.asset epoch
      (held = 0 ∧ amount ≤ heldLegacy ∨
        held ≠ 0 ∧ entry.grandfathered = true ∧ amount.toNat ≤ held.toNat + heldLegacy.toNat)

/-- The stores can pay what is available. -/
theorem pays_iff_le_available :
    ledger.Pays entry slot amount ↔ amount.toNat ≤ ledger.available entry slot := by
  constructor
  · rintro (hle | ⟨index, epoch, hl, ⟨hzero, hle⟩ | ⟨hheld, hg, hle⟩⟩)
    · exact hle.trans (ledger.quantityAt_le_available entry slot)
    · simp only [available, hl, if_pos hzero]
      exact hle
    · simp only [available, hl, if_neg hheld, if_pos hg]
      exact hle
  · intro hle
    unfold available at hle
    cases hl : entry.locate ledger.charter slot.mark with
    | current =>
      simp only [hl] at hle
      exact .inl hle
    | legacy index epoch =>
      simp only [hl] at hle
      split at hle
      next hzero => exact .inr ⟨index, epoch, hl, .inl ⟨hzero, hle⟩⟩
      next hheld =>
        split at hle
        next hg => exact .inr ⟨index, epoch, hl, .inr ⟨hheld, hg, hle⟩⟩
        next => exact .inl hle

end Ledger

/-! ### In place -/

/-- A program that changes the ledger as it goes: what it has changed before a fault stays changed. -/
abbrev InPlace (α : Type) := EStateM Fault Ledger α

namespace InPlace

variable {α : Type} {ledger ledger' : Ledger} {slot : Slot Index} {amount : Amount}

/-- A step that only reads. -/
def read (f : Ledger → Except Fault α) : InPlace α := fun ledger =>
  match f ledger with
  | .ok a => .ok a ledger
  | .error fault => .error fault ledger

/-- A step that changes the ledger, or fails before it does. -/
def step (f : Ledger → Except Fault (α × Ledger)) : InPlace α := fun ledger =>
  match f ledger with
  | .ok (a, ledger) => .ok a ledger
  | .error fault => .error fault ledger

/-- What is left of a run when the ledger of a failed one is dropped. -/
def outcome : EStateM.Result Fault Ledger α → Except Fault (α × Ledger)
  | .ok a ledger => .ok (a, ledger)
  | .error fault _ => .error fault

@[simp] theorem outcome_read {f : Ledger → Except Fault α} :
    outcome (read f ledger) = f ledger >>= fun a => .ok (a, ledger) := by
  unfold read
  cases f ledger <;> rfl

@[simp] theorem outcome_step {f : Ledger → Except Fault (α × Ledger)} :
    outcome (step f ledger) = f ledger := by
  unfold step
  cases f ledger <;> rfl

@[simp] theorem outcome_pure {a : α} : outcome ((pure a : InPlace α) ledger) = .ok (a, ledger) := rfl

@[simp] theorem outcome_modify {f : Ledger → Ledger} :
    outcome ((modify f : InPlace PUnit) ledger) = .ok ((), f ledger) := rfl

/-- Steps in place, one after the other, come to what their outcomes come to one after the other.
-/
@[simp] theorem outcome_bind {β : Type} {x : InPlace α} {f : α → InPlace β} :
    outcome ((x >>= f) ledger) = outcome (x ledger) >>= fun made => outcome (f made.1 made.2) := by
  show outcome (EStateM.bind x f ledger) = _
  unfold EStateM.bind
  cases x ledger <;> rfl

/-- Have the stores pay, one after the other. -/
def pay (slot : Slot Index) (amount : Amount) : Ledger.Draw → InPlace Amount
  | .current => step (·.takeCurrent slot amount)
  | .legacy epoch => step (·.takeLegacy ⟨slot.owner, slot.asset, epoch⟩ amount)
  | .both epoch => do
    let held ← read fun ledger => .ok (ledger.quantityAt slot.owner slot.asset slot.mark)
    let fromCurrent ← step (·.takeCurrent slot held)
    let fromLegacy ← step (·.takeLegacy ⟨slot.owner, slot.asset, epoch⟩ (amount.monus held))
    read fun _ => fromCurrent.add fromLegacy

/-- Having the stores pay in place comes to the payment of the draw. -/
theorem outcome_pay (draw : Ledger.Draw) :
    outcome (pay slot amount draw ledger) = ledger.pay slot amount draw := by
  cases draw with
  | current => simp only [pay, outcome_step, Ledger.pay]
  | legacy epoch => simp only [pay, outcome_step, Ledger.pay]
  | both epoch =>
    simp only [pay, outcome_bind, outcome_read, outcome_step]
    rfl

/-- Remove a quantity at an index, each book in its turn. -/
def removePosition (slot : Slot Index) (amount : Amount) : InPlace Amount := do
  read (·.requireCurrent slot.owner slot.asset)
  if amount = 0 then
    return 0
  else
    let entry ← read (·.asset slot.asset)
    let draw ← read (·.draw entry slot amount)
    let value ← pay slot amount draw
    let totalQuantity ← read fun _ => entry.totalQuantity.sub amount
    modify (·.withAsset slot.asset { entry with totalQuantity })
    let totalValue ← read fun _ => entry.totalValue.sub value
    modify (·.withAsset slot.asset { entry with totalQuantity, totalValue })
    return value

end InPlace

/-- Of two values put in under one key, the later stays. -/
theorem SortedMap.insert_insert {κ α : Type} [Key κ] [DecidableEq κ] (m : SortedMap κ α) (k : κ)
    (a b : α) : (m.insert k a).insert k b = m.insert k b := SortedMap.ext_get? fun other => by
  simp only [get?_insert]
  split <;> rfl

/-- Of two entries for one asset, the later stays. -/
theorem Ledger.withAsset_withAsset (ledger : Ledger) (id : AssetId) (entry entry' : Asset) :
    (ledger.withAsset id entry).withAsset id entry' = ledger.withAsset id entry' := by
  rw [withAsset, withAsset, withAsset, SortedMap.insert_insert]

namespace Action

variable {α β : Type} {ledger : Ledger}

/-- An action without the events it records. -/
def bare (action : Action α) (ledger : Ledger) : Except Fault (α × Ledger) :=
  (action ledger).map fun out => (out.result, out.ledger)

@[simp] theorem bare_pure {a : α} : (pure a : Action α).bare ledger = .ok (a, ledger) := rfl

@[simp] theorem bare_ledger : Action.ledger.bare ledger = .ok (ledger, ledger) := rfl

@[simp] theorem bare_update {f : Ledger → Ledger} : (update f).bare ledger = .ok ((), f ledger) := rfl

@[simp] theorem bare_setAsset {id : AssetId} {entry : Asset} :
    (setAsset id entry).bare ledger = .ok ((), ledger.withAsset id entry) := rfl

@[simp] theorem bare_emit {event : Epoch → Event} : (emit event).bare ledger = .ok ((), ledger) := rfl

@[simp] theorem bare_lift {x : Except Fault α} :
    (liftM x : Action α).bare ledger = x >>= fun a => .ok (a, ledger) := by
  cases x <;> rfl

/-- Without the events, actions follow each other on the ledger alone. -/
@[simp] theorem bare_bind {x : Action α} {f : α → Action β} :
    (x >>= f).bare ledger = x.bare ledger >>= fun made => (f made.1).bare made.2 := by
  show (bind x f ledger).map _ = (x ledger).map _ >>= _
  unfold bind
  cases x ledger with
  | error fault => rfl
  | ok first =>
    dsimp only
    show _ = bare (f first.result) first.ledger
    unfold bare
    cases f first.result first.ledger <;> rfl

end Action

namespace InPlace

variable {ledger : Ledger} {slot : Slot Index} {amount : Amount}

/-- **Both ways of removing come to the same**, but for the ledger of a removal that fails. -/
theorem outcome_removePosition (ledger : Ledger) (slot : Slot Index) (amount : Amount) :
    outcome (removePosition slot amount ledger) =
      (Action.removePosition slot amount).bare ledger := by
  unfold removePosition Action.removePosition Action.ensureCurrent
  simp only [outcome_bind, outcome_read, Action.bare_bind, Action.bare_ledger, Action.bare_lift,
    bind_assoc, ok_bind]
  congr 1
  funext _
  by_cases hzero : amount = 0
  · simp only [if_pos hzero, outcome_pure, Action.bare_pure]
  · simp only [if_neg hzero, outcome_bind, outcome_read, outcome_pay, outcome_modify, outcome_pure,
      Action.bare_bind, Action.bare_ledger, Action.bare_lift, Action.bare_update,
      Action.bare_setAsset, Action.bare_emit, Action.bare_pure, Ledger.takeAt_eq, Asset.release,
      bind_assoc, ok_bind, Ledger.withAsset_withAsset]
    rfl

/-- A removal that succeeds does so in place, with the same value and the same ledger, -/
theorem removePosition_of_ok {out : Outcome Amount}
    (h : Action.removePosition slot amount ledger = .ok out) :
    removePosition slot amount ledger = .ok out.result out.ledger := by
  have houtcome := outcome_removePosition ledger slot amount
  rw [Action.bare, h] at houtcome
  cases hrun : removePosition slot amount ledger with
  | ok value ledger' =>
    rw [hrun] at houtcome
    cases houtcome
    rfl
  | error fault ledger' =>
    rw [hrun] at houtcome
    cases houtcome

/-- and one that is refused in place is refused with the same fault. -/
theorem error_of_removePosition {fault : Fault} {ledger' : Ledger}
    (h : removePosition slot amount ledger = .error fault ledger') :
    Action.removePosition slot amount ledger = .error fault := by
  have houtcome := outcome_removePosition ledger slot amount
  rw [Action.bare, h] at houtcome
  cases hrun : Action.removePosition slot amount ledger with
  | ok out =>
    rw [hrun] at houtcome
    cases houtcome
  | error fault' =>
    rw [hrun] at houtcome
    cases houtcome
    rfl

/-- **Nothing is changed before the decision**: a removal that is refused leaves the ledger as it
was. -/
theorem removePosition_of_draw_error {entry : Asset} {fault : Fault}
    (hc : ledger.requireCurrent slot.owner slot.asset = .ok ()) (hne : amount ≠ 0)
    (he : ledger.asset slot.asset = .ok entry) (hd : ledger.draw entry slot amount = .error fault) :
    removePosition slot amount ledger = .error fault ledger := by
  simp only [removePosition, bind, EStateM.bind, read, hc, if_neg hne, he, hd]

end InPlace

/-! ### What an entry loses -/

/-- The entry in a slot before and after a quantity was taken out of it, with the value that went with
the quantity. -/
inductive Position.Loses : Option Position → Option Position → ℕ → ℕ → Prop
  /-- Nothing was asked for. -/
  | nothing (entry : Option Position) : Loses entry entry 0 0
  /-- An entry that loses all it has is gone. -/
  | all (position : Position) :
      Loses (some position) none position.quantity.toNat position.value.toNat
  /-- A part carries its share of the value, rounded down. -/
  | part {position rest : Position} {quantity value : ℕ} (hpos : 0 < quantity)
      (hrest : 0 < rest.quantity.toNat)
      (hquantity : rest.quantity.toNat + quantity = position.quantity.toNat)
      (hvalue : rest.value.toNat + value = position.value.toNat)
      (hshare : value = position.value.toNat * quantity / position.quantity.toNat) :
      Loses (some position) (some rest) quantity value

namespace SortedMap

variable {μ : Type} [Key μ] {store store' : SortedMap (Slot μ) Position} {slot : Slot μ}
  {amount value : Amount}

/-- What is taken out of a slot is what its entry loses. -/
theorem loses_of_take (hne : amount ≠ 0) (h : store.take slot amount = .ok (value, store')) :
    Position.Loses (store.get? slot) (store'.get? slot) amount.toNat value.toNat := by
  obtain ⟨position, hget, hcases⟩ := take_eq_ok h
  rw [hget]
  rcases hcases with ⟨rfl, rfl, rfl⟩ | ⟨hlt, hvalue, rest, hq, hv, rfl⟩
  · rw [get?_erase_self]
    exact .all position
  · rw [get?_insert_self]
    have hpos : 0 < amount.toNat := Nat.pos_of_ne_zero fun hzero => hne (Unsigned.ext hzero)
    exact .part hpos (by omega) hq hv hvalue

end SortedMap

namespace Ledger

variable {ledger ledger' : Ledger} {slot : Slot Index} {entry : Asset} {amount value : Amount}

/-- What a removal does to the two stores: each entry loses its part of the quantity, and no other
entry changes. -/
structure StoresPay (ledger : Ledger) (entry : Asset) (slot : Slot Index) (amount : Amount)
    (fromCurrent fromLegacy : ℕ) (ledger' : Ledger) : Prop where
  /-- The current entry loses what it has, or all that is asked for. -/
  current : Position.Loses (ledger.deposits.get? slot) (ledger'.deposits.get? slot)
    (min amount.toNat (ledger.quantityAt slot.owner slot.asset slot.mark).toNat) fromCurrent
  /-- The legacy entry that the index stands for loses the rest; -/
  legacy : ∀ epoch, (entry.locate ledger.charter slot.mark).epoch? = some epoch →
    Position.Loses (ledger.legacyDeposits.get? ⟨slot.owner, slot.asset, epoch⟩)
      (ledger'.legacyDeposits.get? ⟨slot.owner, slot.asset, epoch⟩)
      (amount.toNat - min amount.toNat (ledger.quantityAt slot.owner slot.asset slot.mark).toNat)
      fromLegacy
  /-- where it stands for none, there is no rest. -/
  noLegacy : (entry.locate ledger.charter slot.mark).epoch? = none →
    amount ≤ ledger.quantityAt slot.owner slot.asset slot.mark ∧ fromLegacy = 0
  others : ∀ other, other ≠ slot → ledger'.deposits.get? other = ledger.deposits.get? other
  legacyOthers : ∀ other : Slot Epoch,
    (∀ epoch, (entry.locate ledger.charter slot.mark).epoch? = some epoch →
      other ≠ ⟨slot.owner, slot.asset, epoch⟩) →
    ledger'.legacyDeposits.get? other = ledger.legacyDeposits.get? other
  /-- The rest of the ledger is not touched. -/
  frame : ledger' = { ledger with
    deposits := ledger'.deposits, legacyDeposits := ledger'.legacyDeposits }

/-- Where the index stands for a legacy epoch, that is the other entry to look at. -/
theorem StoresPay.of_legacy {index : Index} {epoch : Epoch} {fromCurrent fromLegacy : ℕ}
    {deposits : SortedMap (Slot Index) Position} {legacyDeposits : SortedMap (Slot Epoch) Position}
    (hl : entry.locate ledger.charter slot.mark = .legacy index epoch)
    (hcurrent : Position.Loses (ledger.deposits.get? slot) (deposits.get? slot)
      (min amount.toNat (ledger.quantityAt slot.owner slot.asset slot.mark).toNat) fromCurrent)
    (hlegacy : Position.Loses (ledger.legacyDeposits.get? ⟨slot.owner, slot.asset, epoch⟩)
      (legacyDeposits.get? ⟨slot.owner, slot.asset, epoch⟩)
      (amount.toNat - min amount.toNat (ledger.quantityAt slot.owner slot.asset slot.mark).toNat)
      fromLegacy)
    (hothers : ∀ other, other ≠ slot → deposits.get? other = ledger.deposits.get? other)
    (hlegacyOthers : ∀ other, other ≠ ⟨slot.owner, slot.asset, epoch⟩ →
      legacyDeposits.get? other = ledger.legacyDeposits.get? other) :
    ledger.StoresPay entry slot amount fromCurrent fromLegacy
      { ledger with deposits, legacyDeposits } := by
  have hepoch : (entry.locate ledger.charter slot.mark).epoch? = some epoch := by rw [hl]; rfl
  refine ⟨hcurrent, fun other hother => ?_, fun hnone => ?_, hothers,
    fun other hother => hlegacyOthers other (hother epoch hepoch), rfl⟩
  · rw [hepoch] at hother
    cases hother
    exact hlegacy
  · rw [hepoch] at hnone
    cases hnone

/-- **The stores pay what was decided.** -/
theorem storesPay_of_takeAt (hne : amount ≠ 0)
    (h : ledger.takeAt entry slot amount = .ok (value, ledger')) :
    ∃ fromCurrent fromLegacy, value.toNat = fromCurrent + fromLegacy ∧
      ledger.StoresPay entry slot amount fromCurrent fromLegacy ledger' := by
  rw [takeAt_eq] at h
  obtain ⟨draw, hdraw, hpay⟩ := bind_eq_ok.mp h
  cases draws_of_ok hdraw with
  | current hle =>
    obtain ⟨deposits, ht, rfl⟩ := takeCurrent_eq_ok.mp hpay
    have hmin := Nat.min_eq_left hle
    refine ⟨value.toNat, 0, rfl, ⟨?_, fun _ _ => ?_, fun _ => ⟨hle, rfl⟩,
      fun other => SortedMap.get?_of_take ht, fun _ _ => rfl, rfl⟩⟩
    · rw [hmin]
      exact SortedMap.loses_of_take hne ht
    · rw [hmin, Nat.sub_self]
      exact .nothing _
  | legacy hl hzero hle =>
    obtain ⟨legacyDeposits, ht, rfl⟩ := takeLegacy_eq_ok.mp hpay
    refine ⟨0, value.toNat, (Nat.zero_add _).symm,
      .of_legacy hl ?_ ?_ (fun _ _ => rfl) fun other => SortedMap.get?_of_take ht⟩
    · rw [hzero, Unsigned.toNat_zero, Nat.min_zero]
      exact .nothing _
    · rw [hzero, Unsigned.toNat_zero, Nat.min_zero, Nat.sub_zero]
      exact SortedMap.loses_of_take hne ht
  | both hl hlt hheld hg hle =>
    obtain ⟨deposits, legacyDeposits, fromCurrent, fromLegacy, hv, hc, hlegacy, rfl⟩ :=
      takeBoth_eq_ok.mp hpay
    have hmin := Nat.min_eq_right (Nat.le_of_lt hlt)
    refine ⟨fromCurrent.toNat, fromLegacy.toNat, hv,
      .of_legacy hl ?_ ?_ (fun other => SortedMap.get?_of_take hc)
        fun other => SortedMap.get?_of_take hlegacy⟩
    · rw [hmin]
      exact SortedMap.loses_of_take hheld hc
    · rw [hmin, ← Unsigned.toNat_monus]
      exact SortedMap.loses_of_take (shortfall_spec hlt).1 hlegacy

/-! ### Removals -/

/-- What a removal has done: the stores have paid, and the totals of the asset fall by what they paid. -/
def PaidOut (ledger : Ledger) (entry : Asset) (slot : Slot Index) (amount : Amount)
    (out : Outcome Amount) : Prop :=
  ∃ taken fromCurrent fromLegacy entry', out.result.toNat = fromCurrent + fromLegacy ∧
    ledger.StoresPay entry slot amount fromCurrent fromLegacy taken ∧
    out.ledger = taken.withAsset slot.asset entry' ∧ entry'.emptied = entry.emptied ∧
    entry'.totalQuantity.toNat + amount.toNat = entry.totalQuantity.toNat ∧
    entry'.totalValue.toNat + out.result.toNat = entry.totalValue.toNat

/-- A removal that succeeds has been paid by the stores, and the totals of the asset have fallen by
it. -/
theorem paid_of_removePosition {out : Outcome Amount} (he : ledger.asset slot.asset = .ok entry)
    (hne : amount ≠ 0) (h : Action.removePosition slot amount ledger = .ok out) :
    ledger.PaidOut entry slot amount out := by
  obtain ⟨value, taken, _, entry', -, he', ht, hrelease, rfl⟩ :=
    (Action.removePosition_eq_ok hne).mp h
  obtain rfl := Except.ok.inj (he.symm.trans he')
  obtain ⟨fromCurrent, fromLegacy, hvalue, hpay⟩ := storesPay_of_takeAt hne ht
  obtain ⟨_, _, hq, hv, rfl⟩ := Asset.release_eq_ok.mp hrelease
  exact ⟨taken, fromCurrent, fromLegacy, _, hvalue, hpay, rfl, rfl, hq, hv⟩

/-- A removal pays if and only if the stores can pay; otherwise it says what is available, and no book
has been touched. -/
structure Dispatches (ledger : Ledger) (entry : Asset) (slot : Slot Index) (amount : Amount) :
    Prop where
  pays_iff : (∃ out, Action.removePosition slot amount ledger = .ok out) ↔
    ledger.Pays entry slot amount
  paid : ∀ out, Action.removePosition slot amount ledger = .ok out →
    ledger.PaidOut entry slot amount out ∧
      InPlace.removePosition slot amount ledger = .ok out.result out.ledger
  refused : ¬ ledger.Pays entry slot amount →
    ∃ available : Amount, available.toNat = ledger.available entry slot ∧
      Action.removePosition slot amount ledger =
        .error (.insufficientBalance slot.owner slot.asset slot.mark available amount) ∧
      InPlace.removePosition slot amount ledger =
        .error (.insufficientBalance slot.owner slot.asset slot.mark available amount) ledger

/-- **The removal succeeds if and only if the stores can pay**, since the totals of the asset cover
whatever the stores pay. -/
theorem Tallied.dispatches (ht : ledger.Tallied) (hc : ledger.Current slot.owner slot.asset)
    (he : ledger.asset slot.asset = .ok entry) (hne : amount ≠ 0) :
    ledger.Dispatches entry slot amount := by
  have hcurrent := requireCurrent_eq_ok.mpr hc
  have hrefused (h : ¬ ledger.Pays entry slot amount) :
      ∃ available : Amount, available.toNat = ledger.available entry slot ∧
        Action.removePosition slot amount ledger =
          .error (.insufficientBalance slot.owner slot.asset slot.mark available amount) ∧
        InPlace.removePosition slot amount ledger =
          .error (.insufficientBalance slot.owner slot.asset slot.mark available amount) ledger := by
    obtain ⟨available, havailable, hdraw⟩ := ht.draw_refuses he
      (Nat.not_le.mp fun hle => h (pays_iff_le_available.mpr hle))
    have hplace := InPlace.removePosition_of_draw_error hcurrent hne he hdraw
    exact ⟨available, havailable, InPlace.error_of_removePosition hplace, hplace⟩
  refine ⟨⟨?_, fun h => ?_⟩, fun out h => ⟨paid_of_removePosition he hne h,
    InPlace.removePosition_of_ok h⟩, hrefused⟩
  · rintro ⟨out, hout⟩
    by_contra hpays
    obtain ⟨_, -, herror, -⟩ := hrefused hpays
    rw [hout] at herror
    cases herror
  · exact removePosition_succeeds slot ht hc he hne (pays_iff_le_available.mp h)

end Ledger

namespace Vault

open StalkLedger.Action

/-- **Removals are dispatched exactly.**  After any requests to a new vault, take an account that is
current in an asset, an index and a quantity.  The removal succeeds if and only if the stores can pay,
and then they lose exactly what is removed; otherwise it is refused for want of a balance, with what is
available, and the ledger is as it was. -/
theorem removals_dispatched {charter : Charter} {start : Vault} (h : genesis charter = .ok start)
    (requests : List Request) {slot : Slot Index} {amount : Amount}
    (hcurrent : (run requests start).2.ledger.requireCurrent slot.owner slot.asset = .ok ())
    (hne : amount ≠ 0) :
    ∃ entry, (run requests start).2.ledger.asset slot.asset = .ok entry ∧
      (run requests start).2.ledger.Dispatches entry slot amount := by
  have hc := Ledger.requireCurrent_eq_ok.mp hcurrent
  obtain ⟨_, _, entry, -, -, -, hlisted, -⟩ := id hc
  have he := Ledger.asset_eq_ok.mpr hlisted
  exact ⟨entry, he, (orderly h requests).1.consistent.tallied.dispatches hc he hne⟩

/-- Both stores hold something at the index, and it takes both of them to pay 18. -/
theorem removals_dispatched_split : genesis ⟨10, 10, 0, 9⟩ = .ok sample ∧
    (run splitRequests sample).2.ledger.requireCurrent 7 1 = .ok () ∧ (18 : Amount) ≠ 0 ∧
    ∃ entry, (run splitRequests sample).2.ledger.asset 1 = .ok entry ∧
      (run splitRequests sample).2.ledger.Dispatches entry ⟨7, 1, .ofInt (-8)⟩ 18 := by
  have hcurrent : (run splitRequests sample).2.ledger.requireCurrent 7 1 = .ok () := by
    decide +kernel
  exact ⟨genesis_sample, hcurrent, by decide,
    @removals_dispatched _ _ genesis_sample splitRequests ⟨7, 1, .ofInt (-8)⟩ 18 hcurrent
      (by decide)⟩

end Vault

end StalkLedger
