import StalkLedger.Number
import StalkLedger.Identifier

/-!
# Events

Changes of the ledger are recorded as events, for whoever wants to follow the books without reading
them.  Each event carries the epoch it happened in (`Event.epoch`) and has a kind (`Event.kind`), by
which a log is searched.
-/

namespace StalkLedger

/-- What has happened. -/
inductive Event
  /-- A position was created or grew. -/
  | positionAdded (positionId : Identifier) (account : AccountId) (asset : AssetId) (index : Index)
      (quantity value : Amount) (epoch : Epoch)
  /-- A position shrank or went. -/
  | positionRemoved (positionId : Identifier) (account : AccountId) (asset : AssetId)
      (index : Index) (quantity value : Amount) (epoch : Epoch)
  /-- A position changed hands. -/
  | positionTransferred (sender recipient : AccountId) (asset : AssetId) (index : Index)
      (quantity value : Amount) (epoch : Epoch)
  /-- A position from before the migration was entered. -/
  | legacyPositionImported (account : AccountId) (asset : AssetId) (legacyEpoch : Epoch)
      (index : Index) (quantity value : Amount) (epoch : Epoch)
  /-- A position from before the migration moved to the current store. -/
  | legacyPositionMigrated (account : AccountId) (asset : AssetId) (legacyEpoch : Epoch)
      (index : Index) (quantity value : Amount) (epoch : Epoch)
  /-- An account's stalk and roots changed by the deltas, to the balances. -/
  | stalkChanged (account : AccountId) (stalkDelta rootsDelta : Index) (stalk roots : Amount)
      (epoch : Epoch)
  /-- Earned reward became a position in the base asset. -/
  | planted (account : AccountId) (index : Index) (quantity stalk : Amount) (epoch : Epoch)
  /-- Positions in one asset became a position in another. -/
  | converted (account : AccountId) (fromAsset toAsset : AssetId)
      (removedQuantity removedValue : Amount) (newIndex : Index)
      (newQuantity newValue carriedReward forfeitedReward : Amount) (epoch : Epoch)
  /-- A flood began over the roots there are. -/
  | floodStarted (roots : Amount) (epoch : Epoch)
  /-- A payout was shared out. -/
  | floodPaid (floodStart : Epoch) (amount payoutPerRoot : Amount) (epoch : Epoch)
  /-- The flood ended. -/
  | floodEnded (floodStart epoch : Epoch)
  /-- An account claimed its payouts. -/
  | floodPayoutClaimed (account : AccountId) (asset : AssetId) (amount : Amount) (epoch : Epoch)
  /-- A new epoch began. -/
  | epochAdvanced (previous epoch : Epoch)
  /-- Reward joined the earned pool. -/
  | earnedRewardReceived (amount pool : Amount) (epoch : Epoch)
  /-- An asset was whitelisted. -/
  | assetWhitelisted (asset : AssetId) (stalkPerValue : Amount) (accrualRate : Index)
      (epoch : Epoch)
  /-- An asset stopped taking deposits and growing. -/
  | assetDewhitelisted (asset : AssetId) (epoch : Epoch)
  /-- An asset's growth per epoch changed. -/
  | accrualRateChanged (asset : AssetId) (oldRate newRate : Index) (epoch : Epoch)
deriving DecidableEq

namespace Event

/-- The kinds of events. -/
inductive Kind
  | positionAdded
  | positionRemoved
  | positionTransferred
  | legacyPositionImported
  | legacyPositionMigrated
  | stalkChanged
  | planted
  | converted
  | floodStarted
  | floodPaid
  | floodEnded
  | floodPayoutClaimed
  | epochAdvanced
  | earnedRewardReceived
  | assetWhitelisted
  | assetDewhitelisted
  | accrualRateChanged
deriving DecidableEq

namespace Kind

/-- All kinds, in the order of their codes. -/
def all : List Kind :=
  [.positionAdded, .positionRemoved, .positionTransferred, .legacyPositionImported,
    .legacyPositionMigrated, .stalkChanged, .planted, .converted, .floodStarted, .floodPaid,
    .floodEnded, .floodPayoutClaimed, .epochAdvanced, .earnedRewardReceived, .assetWhitelisted,
    .assetDewhitelisted, .accrualRateChanged]

/-- The code of a kind: positions from `0x01`, balances from `0x20`, floods from `0x40`, the ledger
itself from `0x80`. -/
def code : Kind → UInt8
  | positionAdded => 0x01
  | positionRemoved => 0x02
  | positionTransferred => 0x03
  | legacyPositionImported => 0x04
  | legacyPositionMigrated => 0x05
  | stalkChanged => 0x20
  | planted => 0x21
  | converted => 0x22
  | floodStarted => 0x40
  | floodPaid => 0x41
  | floodEnded => 0x42
  | floodPayoutClaimed => 0x43
  | epochAdvanced => 0x80
  | earnedRewardReceived => 0x81
  | assetWhitelisted => 0x82
  | assetDewhitelisted => 0x83
  | accrualRateChanged => 0x84

/-- The name of a kind, as a reader of the log sees it. -/
def name : Kind → String
  | positionAdded => "PositionAdded"
  | positionRemoved => "PositionRemoved"
  | positionTransferred => "PositionTransferred"
  | legacyPositionImported => "LegacyPositionImported"
  | legacyPositionMigrated => "LegacyPositionMigrated"
  | stalkChanged => "StalkChanged"
  | planted => "Planted"
  | converted => "Converted"
  | floodStarted => "FloodStarted"
  | floodPaid => "FloodPaid"
  | floodEnded => "FloodEnded"
  | floodPayoutClaimed => "FloodPayoutClaimed"
  | epochAdvanced => "EpochAdvanced"
  | earnedRewardReceived => "EarnedRewardReceived"
  | assetWhitelisted => "AssetWhitelisted"
  | assetDewhitelisted => "AssetDewhitelisted"
  | accrualRateChanged => "AccrualRateChanged"

/-- The kind with a name. -/
def ofName? (name : String) : Option Kind := all.find? (·.name = name)

/-- The kind with a code. -/
def ofCode? (code : UInt8) : Option Kind := all.find? (·.code = code)

/-- A kind is found under its own code, and under no other. -/
theorem ofCode?_eq_some_iff {code : UInt8} {kind : Kind} :
    ofCode? code = some kind ↔ kind.code = code := by
  constructor
  · intro h
    simpa using List.find?_some h
  · rintro rfl
    cases kind <;> decide

end Kind

/-- The kind of an event. -/
def kind : Event → Kind
  | positionAdded .. => .positionAdded
  | positionRemoved .. => .positionRemoved
  | positionTransferred .. => .positionTransferred
  | legacyPositionImported .. => .legacyPositionImported
  | legacyPositionMigrated .. => .legacyPositionMigrated
  | stalkChanged .. => .stalkChanged
  | planted .. => .planted
  | converted .. => .converted
  | floodStarted .. => .floodStarted
  | floodPaid .. => .floodPaid
  | floodEnded .. => .floodEnded
  | floodPayoutClaimed .. => .floodPayoutClaimed
  | epochAdvanced .. => .epochAdvanced
  | earnedRewardReceived .. => .earnedRewardReceived
  | assetWhitelisted .. => .assetWhitelisted
  | assetDewhitelisted .. => .assetDewhitelisted
  | accrualRateChanged .. => .accrualRateChanged

/-- The epoch in which an event happened. -/
def epoch : Event → Epoch
  | positionAdded _ _ _ _ _ _ epoch => epoch
  | positionRemoved _ _ _ _ _ _ epoch => epoch
  | positionTransferred _ _ _ _ _ _ epoch => epoch
  | legacyPositionImported _ _ _ _ _ _ epoch => epoch
  | legacyPositionMigrated _ _ _ _ _ _ epoch => epoch
  | stalkChanged _ _ _ _ _ epoch => epoch
  | planted _ _ _ _ epoch => epoch
  | converted _ _ _ _ _ _ _ _ _ _ epoch => epoch
  | floodStarted _ epoch => epoch
  | floodPaid _ _ _ epoch => epoch
  | floodEnded _ epoch => epoch
  | floodPayoutClaimed _ _ _ epoch => epoch
  | epochAdvanced _ epoch => epoch
  | earnedRewardReceived _ _ epoch => epoch
  | assetWhitelisted _ _ _ epoch => epoch
  | assetDewhitelisted _ epoch => epoch
  | accrualRateChanged _ _ _ epoch => epoch

/-! ### Logs -/

/-- Events in the order in which they happened. -/
structure Log where
  events : List Event
deriving DecidableEq

namespace Log

/-- The log before anything has happened. -/
def empty : Log := ⟨[]⟩

instance : EmptyCollection Log := ⟨empty⟩

/-- Record one more event. -/
def emit (log : Log) (event : Event) : Log := ⟨log.events ++ [event]⟩

/-- Put the events of another log behind those of this one. -/
def append (log other : Log) : Log := ⟨log.events ++ other.events⟩

instance : Append Log := ⟨append⟩

/-- The events of one kind. -/
def ofKind (log : Log) (kind : Kind) : List Event := log.events.filter (·.kind = kind)

/-- Take all events out. -/
def drain (log : Log) : List Event × Log := (log.events, ∅)

/-- The number of events. -/
def size (log : Log) : Nat := log.events.length

/-- Whether nothing has been recorded. -/
def isEmpty (log : Log) : Bool := log.events.isEmpty

@[ext] theorem ext {a b : Log} (h : a.events = b.events) : a = b := by
  cases a; cases b; cases h; rfl

@[simp] theorem events_empty : (∅ : Log).events = [] := rfl

@[simp] theorem events_append (a b : Log) : (a ++ b).events = a.events ++ b.events := rfl

@[simp] theorem empty_append (a : Log) : ∅ ++ a = a := rfl

@[simp] theorem append_empty (a : Log) : a ++ ∅ = a := ext (List.append_nil _)

theorem append_assoc (a b c : Log) : a ++ b ++ c = a ++ (b ++ c) := ext (List.append_assoc _ _ _)

end Log

end Event

end StalkLedger
