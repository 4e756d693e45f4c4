import StalkLedger.Accrual

/-!
# The stores of positions

A removal of a part takes the part's share of the value, rounded down, and leaves the rest; taking
what is left takes the value that is left.  So the parts taken are never worth more than the whole.

An index below zero may stand for an epoch of the legacy store.  A removal looks in the current
store first: if that holds enough, it pays; if it holds nothing, the legacy store pays; if it holds
too little, the legacy store pays the shortfall, but only for an asset with a grandfathered excess.

The totals of the asset move with every entry and removal, and each is recorded.
-/

namespace StalkLedger

/-! ### One entry -/

namespace SortedMap

variable {μ : Type} [Key μ]

/-- Take a quantity out of the entry in a slot; the value taken, and the store without it.  An entry
that is emptied goes. -/
def take (store : SortedMap (Slot μ) Position) (slot : Slot μ) (amount : Amount) :
    Except Fault (Amount × SortedMap (Slot μ) Position) :=
  match store.get? slot with
  | none => .error .underflow
  | some position =>
    if position.quantity < amount then
      .error .underflow
    else if amount = position.quantity then
      .ok (position.value, store.erase slot)
    else do
      let value ← proportionalValue position.value amount position.quantity
      let quantity ← position.quantity.sub amount
      let rest ← position.value.sub value
      return (value, store.insert slot ⟨quantity, rest⟩)

/-- Put a position into a slot, together with what is there. -/
def put (store : SortedMap (Slot μ) Position) (slot : Slot μ) (position : Position) :
    Except Fault (SortedMap (Slot μ) Position) := do
  let merged ← ((store.get? slot).getD .nothing).merge position
  return store.insert slot merged

end SortedMap

/-! ### Both stores -/

namespace Ledger

/-- Take a quantity out of the current store. -/
def takeCurrent (ledger : Ledger) (slot : Slot Index) (amount : Amount) :
    Except Fault (Amount × Ledger) := do
  let (value, deposits) ← ledger.deposits.take slot amount
  return (value, { ledger with deposits })

/-- Take a quantity out of the legacy store. -/
def takeLegacy (ledger : Ledger) (slot : Slot Epoch) (amount : Amount) :
    Except Fault (Amount × Ledger) := do
  let (value, legacyDeposits) ← ledger.legacyDeposits.take slot amount
  return (value, { ledger with legacyDeposits })

/-- Take a quantity out of both stores: all that the current store has, and the shortfall from the
legacy store. -/
def takeBoth (ledger : Ledger) (slot : Slot Index) (epoch : Epoch) (held shortfall : Amount) :
    Except Fault (Amount × Ledger) := do
  let (fromCurrent, ledger) ← ledger.takeCurrent slot held
  let (fromLegacy, ledger) ← ledger.takeLegacy ⟨slot.owner, slot.asset, epoch⟩ shortfall
  let value ← fromCurrent.add fromLegacy
  return (value, ledger)

/-- Take a quantity at an index out of the store or stores that have to pay it. -/
def takeAt (ledger : Ledger) (entry : Asset) (slot : Slot Index) (amount : Amount) :
    Except Fault (Amount × Ledger) :=
  let held := ledger.quantityAt slot.owner slot.asset slot.mark
  let insufficient (available : Amount) : Fault :=
    .insufficientBalance slot.owner slot.asset slot.mark available amount
  -- The current store pays whenever it can, at an index of the legacy range too.
  if amount ≤ held then
    ledger.takeCurrent slot amount
  else
    match entry.locate ledger.charter slot.mark with
    | .current _ => .error (insufficient held)
    | .legacy _ epoch =>
      let heldLegacy := ledger.legacyQuantity slot.owner slot.asset epoch
      if held = 0 then
        if heldLegacy < amount then
          .error (insufficient heldLegacy)
        else
          ledger.takeLegacy ⟨slot.owner, slot.asset, epoch⟩ amount
      else if entry.grandfathered then
        let shortfall := amount.monus held
        if heldLegacy < shortfall then do
          let available ← held.add heldLegacy
          .error (insufficient available)
        else
          ledger.takeBoth slot epoch held shortfall
      else
        .error (insufficient held)

end Ledger

/-! ### Entering and removing -/

namespace Action

/-- Enter a position at an index, together with what is there. -/
def addPositionAt (slot : Slot Index) (position : Position) : Action Unit := do
  let position ← Position.make slot.asset position.quantity position.value
  ensureCurrent slot.owner slot.asset
  let ledger ← Action.ledger
  let deposits ← ledger.deposits.put slot position
  let entry ← ledger.asset slot.asset
  let entry ← entry.take position
  update fun ledger => { ledger with deposits }
  setAsset slot.asset entry
  emit (.positionAdded slot.positionId slot.owner slot.asset slot.mark position.quantity
    position.value)

/-- Enter a position at the tip of its asset; the tip is returned. -/
def addPosition (owner : AccountId) (asset : AssetId) (position : Position) : Action Index := do
  let ledger ← Action.ledger
  let index ← ledger.accrualIndex asset
  addPositionAt ⟨owner, asset, index⟩ position
  return index

/-- Remove a quantity at an index; the value removed is returned.  Nothing is removed without a
record, and no quantity without anything at all. -/
def removePosition (slot : Slot Index) (amount : Amount) : Action Amount := do
  ensureCurrent slot.owner slot.asset
  if amount = 0 then
    return 0
  else
    let ledger ← Action.ledger
    let entry ← ledger.asset slot.asset
    let (value, taken) ← ledger.takeAt entry slot amount
    let entry ← entry.release ⟨amount, value⟩
    update fun _ => taken
    setAsset slot.asset entry
    emit (.positionRemoved slot.positionId slot.owner slot.asset slot.mark amount value)
    return value

end Action

/-! ### Several positions at once -/

/-- What a removal of several positions amounts to. -/
structure Removal where
  totalValue : Amount
  totalQuantity : Amount
  /-- The value removed for each entry, in the order asked for. -/
  values : List Amount
deriving DecidableEq

/-- Nothing removed. -/
def Removal.none : Removal := ⟨0, 0, []⟩

/-- The removal with one more entry. -/
def Removal.extend (removal : Removal) (amount value : Amount) : Except Fault Removal := do
  let totalValue ← removal.totalValue.add value
  let totalQuantity ← removal.totalQuantity.add amount
  return ⟨totalValue, totalQuantity, removal.values ++ [value]⟩

/-- How many positions one call may touch. -/
def maxPositionsPerCall : Nat := 256

/-- As many amounts as indices, and not too many. -/
def checkLengths (indices : List Index) (amounts : List Amount) : Except Fault Unit :=
  if indices.length ≠ amounts.length then
    .error (.lengthMismatch indices.length amounts.length)
  else if maxPositionsPerCall < indices.length then
    .error (.tooManyPositions indices.length maxPositionsPerCall)
  else
    .ok ()

/-- Remove entry after entry. -/
def Action.removeEach (owner : AccountId) (asset : AssetId) :
    List (Index × Amount) → Removal → Action Removal
  | [], removal => return removal
  | (index, amount) :: entries, removal => do
    let value ← removePosition ⟨owner, asset, index⟩ amount
    let removal ← removal.extend amount value
    removeEach owner asset entries removal

/-- Remove several quantities of one asset. -/
def Action.removeMultiple (owner : AccountId) (asset : AssetId) (indices : List Index)
    (amounts : List Amount) : Action Removal := do
  checkLengths indices amounts
  removeEach owner asset (indices.zip amounts) .none

/-- What several removed values had grown, each from its index to the tip; an entry of no value may
name any index. -/
def grownOf (tip : Index) : List (Index × Amount) → Amount → Except Fault Amount
  | [], grown => .ok grown
  | (index, value) :: entries, grown =>
    if value = 0 then
      grownOf tip entries grown
    else do
      let more ← grownReward tip index value
      let grown ← grown.add more
      grownOf tip entries grown

/-- The stalk that goes with removed positions. -/
structure CarriedStalk where
  /-- The stalk of their value and of what they had grown. -/
  stalk : Amount
  /-- What they had grown. -/
  grown : Amount
deriving DecidableEq

/-- The stalk that removed positions carry in an asset. -/
def Asset.stalkOf (entry : Asset) (indices : List Index) (removal : Removal) :
    Except Fault CarriedStalk := do
  let grown ← grownOf entry.accrualIndex (indices.zip removal.values) 0
  let base ← removal.totalValue.mul entry.stalkPerValue
  let stalk ← base.add grown
  return ⟨stalk, grown⟩

end StalkLedger
