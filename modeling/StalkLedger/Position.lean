import StalkLedger.Arithmetic.Checked
import StalkLedger.Digest
import StalkLedger.SortedMap

/-!
# Positions

A position is a quantity of an asset together with the value fixed when it was deposited.  It is
kept in a *slot*: its owner, its asset and a mark that tells the owner's positions in the asset
apart.  The mark is the accrual index at the deposit, or, for positions from before the migration,
the epoch.
-/

namespace StalkLedger

/-! ### What is held -/

/-- A quantity of an asset and the value it was deposited at. -/
structure Position where
  quantity : Amount
  value : Amount
deriving DecidableEq

namespace Position

/-- Nothing of no value. -/
def nothing : Position := ⟨0, 0⟩

/-- A position of an asset; it needs both quantity and value. -/
def make (asset : AssetId) (quantity value : Amount) : Except Fault Position :=
  if quantity = 0 ∨ value = 0 then
    .error (.invalidPosition asset quantity value)
  else
    .ok ⟨quantity, value⟩

/-- Two positions put together. -/
def merge (p q : Position) : Except Fault Position := do
  let quantity ← p.quantity.add q.quantity
  let value ← p.value.add q.value
  return ⟨quantity, value⟩

/-- Whether no quantity is held. -/
def isEmpty (p : Position) : Bool := p.quantity = 0

theorem make_eq_ok {asset : AssetId} {quantity value : Amount} {p : Position} :
    make asset quantity value = .ok p ↔ quantity ≠ 0 ∧ value ≠ 0 ∧ p = ⟨quantity, value⟩ := by
  unfold make
  split
  next h => exact ⟨nofun, fun ⟨h₁, h₂, _⟩ => (h.elim h₁ h₂).elim⟩
  next h =>
    rw [not_or] at h
    exact ⟨fun e => by cases e; exact ⟨h.1, h.2, rfl⟩, fun ⟨_, _, e⟩ => by rw [e]⟩

end Position

/-! ### Where it is kept -/

/-- The place of a position: whose it is, in which asset, and the mark it is kept under. -/
structure Slot (μ : Type) where
  owner : AccountId
  asset : AssetId
  mark : μ
deriving DecidableEq

/-- Slots are listed by owner, then by asset, then by mark. -/
instance {μ : Type} [Key μ] : Key (Slot μ) where
  size := Key.size (AccountId × AssetId × μ)
  rank s := Key.rank (s.owner, s.asset, s.mark)
  rank_lt s := Key.rank_lt (s.owner, s.asset, s.mark)
  rank_inj {s t} h := by
    have e := Key.rank_inj h
    cases s; cases t
    simp only [Prod.mk.injEq] at e
    obtain ⟨rfl, rfl, rfl⟩ := e
    rfl

/-- The name under which a position is reported: the digest of owner, asset and index, the index in
two's complement, most significant byte first. -/
def Slot.positionId (slot : Slot Index) : Identifier :=
  Identifier.ofBytes <| digest <|
    slot.owner.bytes ++ slot.asset.bytes ++
      (digits 16 (slot.mark.toInt % 2 ^ 128).toNat).reverse

/-! ### Marks after resolution -/

/-- Where the position at an index is to be looked for. -/
inductive Location
  /-- In the current store, under the index. -/
  | current (index : Index)
  /-- In the legacy store, under the epoch that the index stands for. -/
  | legacy (index : Index) (epoch : Epoch)
deriving DecidableEq

/-- The index that was resolved. -/
def Location.index : Location → Index
  | .current index => index
  | .legacy index _ => index

/-- The epoch in the legacy store, if that is where to look. -/
def Location.epoch? : Location → Option Epoch
  | .current _ => none
  | .legacy _ epoch => some epoch

end StalkLedger
