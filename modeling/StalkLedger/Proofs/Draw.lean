import StalkLedger.Proofs.Arithmetic
import StalkLedger.Store

/-!
# Which store pays

A removal at an index decides first, and pays then.  The decision (`Ledger.draw`) reads the two stores
and the terms of the asset: the current store pays whatever it can, the legacy store where the current
one holds nothing, and both together where the asset has a grandfathered excess.  The payment
(`Ledger.pay`) changes the stores.

A removal is its decision and its payment (`Ledger.takeAt_eq`), and what is known once it is decided is
told by `Ledger.Draws`.
-/

namespace StalkLedger

namespace Ledger

variable {ledger : Ledger} {slot : Slot Index} {entry : Asset} {amount : Amount}

/-- The stores that a removal draws on. -/
inductive Draw
  /-- The current store pays all. -/
  | current
  /-- The legacy store pays all. -/
  | legacy (epoch : Epoch)
  /-- The current store pays what it has, and the legacy store the shortfall. -/
  | both (epoch : Epoch)

/-- Decide which stores pay, or refuse. -/
def draw (ledger : Ledger) (entry : Asset) (slot : Slot Index) (amount : Amount) :
    Except Fault Draw :=
  let held := ledger.quantityAt slot.owner slot.asset slot.mark
  let insufficient (available : Amount) : Fault :=
    .insufficientBalance slot.owner slot.asset slot.mark available amount
  if amount ≤ held then
    .ok .current
  else
    match entry.locate ledger.charter slot.mark with
    | .current _ => .error (insufficient held)
    | .legacy _ epoch =>
      let heldLegacy := ledger.legacyQuantity slot.owner slot.asset epoch
      if held = 0 then
        if heldLegacy < amount then .error (insufficient heldLegacy) else .ok (.legacy epoch)
      else if entry.grandfathered then
        if heldLegacy < amount.monus held then do
          let available ← held.add heldLegacy
          .error (insufficient available)
        else
          .ok (.both epoch)
      else
        .error (insufficient held)

/-- Have the stores pay. -/
def pay (ledger : Ledger) (slot : Slot Index) (amount : Amount) :
    Draw → Except Fault (Amount × Ledger)
  | .current => ledger.takeCurrent slot amount
  | .legacy epoch => ledger.takeLegacy ⟨slot.owner, slot.asset, epoch⟩ amount
  | .both epoch =>
    let held := ledger.quantityAt slot.owner slot.asset slot.mark
    ledger.takeBoth slot epoch held (amount.monus held)

/-- **A removal is its decision and its payment.** -/
theorem takeAt_eq : ledger.takeAt entry slot amount =
    ledger.draw entry slot amount >>= ledger.pay slot amount := by
  unfold takeAt draw
  dsimp only
  split
  · rfl
  · cases entry.locate ledger.charter slot.mark with
    | current => rfl
    | legacy index epoch =>
      dsimp only
      split
      · split <;> rfl
      · split
        · split
          · cases Unsigned.add _ _ <;> rfl
          · rfl
        · rfl

/-- What has been decided: which stores pay, and why. -/
inductive Draws (ledger : Ledger) (entry : Asset) (slot : Slot Index) (amount : Amount) :
    Draw → Prop
  | current (hle : amount ≤ ledger.quantityAt slot.owner slot.asset slot.mark) :
      Draws ledger entry slot amount .current
  | legacy {index : Index} {epoch : Epoch}
      (hl : entry.locate ledger.charter slot.mark = .legacy index epoch)
      (hzero : ledger.quantityAt slot.owner slot.asset slot.mark = 0)
      (hle : amount ≤ ledger.legacyQuantity slot.owner slot.asset epoch) :
      Draws ledger entry slot amount (.legacy epoch)
  | both {index : Index} {epoch : Epoch}
      (hl : entry.locate ledger.charter slot.mark = .legacy index epoch)
      (hlt : ledger.quantityAt slot.owner slot.asset slot.mark < amount)
      (hheld : ledger.quantityAt slot.owner slot.asset slot.mark ≠ 0)
      (hg : entry.grandfathered = true)
      (hle : amount.toNat ≤ (ledger.quantityAt slot.owner slot.asset slot.mark).toNat +
        (ledger.legacyQuantity slot.owner slot.asset epoch).toNat) :
      Draws ledger entry slot amount (.both epoch)

theorem draws_of_ok {draw : Draw} (h : ledger.draw entry slot amount = .ok draw) :
    Draws ledger entry slot amount draw := by
  unfold Ledger.draw at h
  dsimp only at h
  split at h
  next hle =>
    cases h
    exact .current hle
  next hmore =>
    split at h
    · cases h
    next index epoch hl =>
      split at h
      next hzero =>
        split at h
        · cases h
        next hle =>
          cases h
          exact .legacy hl hzero (Nat.not_lt.mp hle)
      next hheld =>
        split at h
        next hg =>
          split at h
          · obtain ⟨_, -, h⟩ := bind_eq_ok.mp h
            cases h
          next hle =>
            cases h
            exact .both hl (Nat.not_le.mp hmore) hheld hg
              (Nat.sub_le_iff_le_add'.mp (Nat.not_lt.mp hle))
        · cases h

/-- What the current store falls short of a quantity is something, and makes it up. -/
theorem shortfall_spec {held amount : Amount} (hlt : held < amount) :
    amount.monus held ≠ 0 ∧ amount.toNat = held.toNat + (amount.monus held).toNat := by
  rw [Unsigned.lt_iff] at hlt
  rw [Unsigned.toNat_monus]
  refine ⟨fun hzero => ?_, by omega⟩
  have hnothing := congrArg Unsigned.toNat hzero
  rw [Unsigned.toNat_monus, Unsigned.toNat_zero] at hnothing
  omega

end Ledger

end StalkLedger
