import StalkLedger.Event
import StalkLedger.Wire

/-!
# Events on the wire

An event is one byte, the number of its kind in the order of declaration, and then its parts.  (The
*code* of a kind is another number; a kind on its own is written by its code.)

Every event has one form in bytes and every form one event: `Event` is lawful and canonical.
-/

namespace StalkLedger.Event

open Wire

/-- The parts of an event about a position: its name, account, asset, index, quantity, value. -/
abbrev PositionParts :=
  Identifier × AccountId × AssetId × Index × Amount × Amount × Epoch

/-- The parts of a transfer: sender, recipient, asset, index, quantity, value. -/
abbrev TransferParts := AccountId × AccountId × AssetId × Index × Amount × Amount × Epoch

/-- The parts of an event about a legacy position: account, asset, legacy epoch, index, quantity,
value. -/
abbrev LegacyParts := AccountId × AssetId × Epoch × Index × Amount × Amount × Epoch

/-- The parts of a conversion. -/
abbrev ConversionParts :=
  AccountId × AssetId × AssetId × Amount × Amount × Index × Amount × Amount × Amount × Amount ×
    Epoch

/-- The bytes of an event. -/
def toBytes : Event → List UInt8
  | positionAdded name account asset index quantity value epoch =>
    0 :: write ((name, account, asset, index, quantity, value, epoch) : PositionParts)
  | positionRemoved name account asset index quantity value epoch =>
    1 :: write ((name, account, asset, index, quantity, value, epoch) : PositionParts)
  | positionTransferred sender recipient asset index quantity value epoch =>
    2 :: write ((sender, recipient, asset, index, quantity, value, epoch) : TransferParts)
  | legacyPositionImported account asset legacyEpoch index quantity value epoch =>
    3 :: write ((account, asset, legacyEpoch, index, quantity, value, epoch) : LegacyParts)
  | legacyPositionMigrated account asset legacyEpoch index quantity value epoch =>
    4 :: write ((account, asset, legacyEpoch, index, quantity, value, epoch) : LegacyParts)
  | stalkChanged account stalkDelta rootsDelta stalk roots epoch =>
    5 :: write (account, stalkDelta, rootsDelta, stalk, roots, epoch)
  | planted account index quantity stalk epoch =>
    6 :: write (account, index, quantity, stalk, epoch)
  | converted account fromAsset toAsset removedQuantity removedValue newIndex newQuantity newValue
      carriedReward forfeitedReward epoch =>
    7 :: write ((account, fromAsset, toAsset, removedQuantity, removedValue, newIndex, newQuantity,
      newValue, carriedReward, forfeitedReward, epoch) : ConversionParts)
  | floodStarted roots epoch => 8 :: write (roots, epoch)
  | floodPaid floodStart amount payoutPerRoot epoch =>
    9 :: write (floodStart, amount, payoutPerRoot, epoch)
  | floodEnded floodStart epoch => 10 :: write (floodStart, epoch)
  | floodPayoutClaimed account asset amount epoch => 11 :: write (account, asset, amount, epoch)
  | epochAdvanced previous epoch => 12 :: write (previous, epoch)
  | earnedRewardReceived amount pool epoch => 13 :: write (amount, pool, epoch)
  | assetWhitelisted asset stalkPerValue accrualRate epoch =>
    14 :: write (asset, stalkPerValue, accrualRate, epoch)
  | assetDewhitelisted asset epoch => 15 :: write (asset, epoch)
  | accrualRateChanged asset oldRate newRate epoch => 16 :: write (asset, oldRate, newRate, epoch)

/-- Read the parts of an event and put it together. -/
def readParts {α : Type} [Wire α] (make : α → Event) (bytes : List UInt8) :
    Option (Event × List UInt8) :=
  (read bytes).map fun (parts, rest) => (make parts, rest)

/-- The event at the front of some bytes, given the number of its kind. -/
def readKind (kind : UInt8) : List UInt8 → Option (Event × List UInt8) :=
  match kind with
  | 0 => readParts fun ((name, account, asset, index, quantity, value, epoch) : PositionParts) =>
    positionAdded name account asset index quantity value epoch
  | 1 => readParts fun ((name, account, asset, index, quantity, value, epoch) : PositionParts) =>
    positionRemoved name account asset index quantity value epoch
  | 2 => readParts
      fun ((sender, recipient, asset, index, quantity, value, epoch) : TransferParts) =>
    positionTransferred sender recipient asset index quantity value epoch
  | 3 => readParts
      fun ((account, asset, legacyEpoch, index, quantity, value, epoch) : LegacyParts) =>
    legacyPositionImported account asset legacyEpoch index quantity value epoch
  | 4 => readParts
      fun ((account, asset, legacyEpoch, index, quantity, value, epoch) : LegacyParts) =>
    legacyPositionMigrated account asset legacyEpoch index quantity value epoch
  | 5 => readParts fun (account, stalkDelta, rootsDelta, stalk, roots, epoch) =>
    stalkChanged account stalkDelta rootsDelta stalk roots epoch
  | 6 => readParts fun (account, index, quantity, stalk, epoch) =>
    planted account index quantity stalk epoch
  | 7 => readParts fun ((account, fromAsset, toAsset, removedQuantity, removedValue, newIndex,
      newQuantity, newValue, carriedReward, forfeitedReward, epoch) : ConversionParts) =>
    converted account fromAsset toAsset removedQuantity removedValue newIndex newQuantity newValue
      carriedReward forfeitedReward epoch
  | 8 => readParts fun (roots, epoch) => floodStarted roots epoch
  | 9 => readParts fun (floodStart, amount, payoutPerRoot, epoch) =>
    floodPaid floodStart amount payoutPerRoot epoch
  | 10 => readParts fun (floodStart, epoch) => floodEnded floodStart epoch
  | 11 => readParts fun (account, asset, amount, epoch) =>
    floodPayoutClaimed account asset amount epoch
  | 12 => readParts fun (previous, epoch) => epochAdvanced previous epoch
  | 13 => readParts fun (amount, pool, epoch) => earnedRewardReceived amount pool epoch
  | 14 => readParts fun (asset, stalkPerValue, accrualRate, epoch) =>
    assetWhitelisted asset stalkPerValue accrualRate epoch
  | 15 => readParts fun (asset, epoch) => assetDewhitelisted asset epoch
  | 16 => readParts fun (asset, oldRate, newRate, epoch) =>
    accrualRateChanged asset oldRate newRate epoch
  | _ => fun _ => none

instance : Wire Event where
  write := toBytes
  read
    | [] => none
    | kind :: bytes => readKind kind bytes

/-- The event that some bytes write, if they write one and nothing more. -/
def ofBytes? (bytes : List UInt8) : Option Event := decode bytes

theorem readParts_write {α : Type} [Wire α] [Lawful α] (make : α → Event) (parts : α)
    (rest : List UInt8) : readParts make (write parts ++ rest) = some (make parts, rest) := by
  simp only [readParts, Lawful.read_write, Option.map_some]

theorem read_cons (kind : UInt8) (bytes : List UInt8) :
    Wire.read (kind :: bytes) = readKind kind bytes := rfl

theorem read_toBytes (event : Event) (rest : List UInt8) :
    Wire.read (event.toBytes ++ rest) = some (event, rest) := by
  cases event <;> simp only [toBytes, List.cons_append, read_cons, readKind] <;>
    exact readParts_write _ _ rest

instance : Lawful Event := ⟨read_toBytes⟩

theorem eq_write_of_readParts {α : Type} [Wire α] [Canonical α] {make : α → Event} {kind : UInt8}
    (hw : ∀ parts, toBytes (make parts) = kind :: write parts) {bytes rest : List UInt8}
    {event : Event} (h : readParts make bytes = some (event, rest)) :
    kind :: bytes = toBytes event ++ rest := by
  simp only [readParts, Option.map_eq_some_iff, Prod.exists, Prod.mk.injEq] at h
  obtain ⟨parts, r, hr, rfl, rfl⟩ := h
  rw [hw, List.cons_append, Canonical.eq_write hr]

instance : Canonical Event where
  eq_write {bytes event rest} h := by
    cases bytes with
    | nil => cases h
    | cons kind bytes =>
      simp only [Wire.read, readKind] at h
      split at h
      case h_18 => cases h
      all_goals exact eq_write_of_readParts (fun _ => rfl) h

instance : Wire Kind where
  write kind := [kind.code]
  read
    | [] => none
    | code :: rest => (Kind.ofCode? code).map (·, rest)

instance : Lawful Kind where
  read_write kind rest := by
    simp only [Wire.read, write, List.cons_append, List.nil_append, Kind.ofCode?_eq_some_iff.mpr rfl,
      Option.map_some]

instance : Canonical Kind where
  eq_write {bytes kind rest} h := by
    cases bytes with
    | nil => cases h
    | cons code bytes =>
      simp only [Wire.read, Option.map_eq_some_iff, Prod.mk.injEq] at h
      obtain ⟨k, hk, rfl, rfl⟩ := h
      simp only [write, Kind.ofCode?_eq_some_iff.mp hk, List.cons_append, List.nil_append]

end StalkLedger.Event
