import StalkLedger.Identifier

/-!
# Faults

Why a call on the ledger fails.  A fault carries the operands a caller needs to see what went
wrong; `Fault.code` is its stable code, `Fault.message` its text, and `Fault.recoverable` tells the
faults that the caller can mend from those that no other argument would avoid.
-/

namespace StalkLedger

/-- The causes of failure. -/
inductive Fault
  /-- A position without quantity or without value. -/
  | invalidPosition (asset : AssetId) (quantity value : Amount)
  /-- A removal of more than is held at the index. -/
  | insufficientBalance (account : AccountId) (asset : AssetId) (index : Index)
      (available requested : Amount)
  /-- As many indices as amounts are needed. -/
  | lengthMismatch (indices amounts : Nat)
  /-- More positions in one call than allowed. -/
  | tooManyPositions (count maximum : Nat)
  /-- A conversion removed another quantity than it asked for. -/
  | insufficientRemoved (requested removed : Amount)
  /-- A conversion into nothing. -/
  | zeroValueConversion (asset : AssetId) (quantity value : Amount)
  /-- Positions were touched before the reward pending on them was realized. -/
  | staleAccrual (account : AccountId) (asset : AssetId) (realizedIndex currentIndex : Index)
  /-- No payout is waiting. -/
  | nothingToClaim (account : AccountId)
  /-- The asset is not whitelisted. -/
  | unknownAsset (asset : AssetId)
  /-- The asset is whitelisted already. -/
  | assetAlreadyWhitelisted (asset : AssetId)
  /-- The asset takes no more deposits. -/
  | depositsDisabled (asset : AssetId)
  /-- The asset has no positions from before the migration. -/
  | noLegacyFormat (asset : AssetId)
  /-- The epoch is outside the range of legacy positions. -/
  | notLegacyEpoch (asset : AssetId) (epoch : Epoch)
  /-- A payout without a flood. -/
  | floodNotActive (epoch : Epoch)
  /-- A change was asked for while another one is in progress. -/
  | reentrancy
  /-- The transfer out was refused. -/
  | transferFailed (asset : AssetId) (recipient : AccountId) (quantity : Amount)
  /-- Parameters, or bytes, that describe no ledger. -/
  | invalidConfig (reason : String)
  /-- A result above its range, or below the range of negative numbers. -/
  | overflow
  /-- A negative result where none is allowed. -/
  | underflow
  /-- A quotient by zero. -/
  | divisionByZero
deriving DecidableEq

namespace Fault

/-- The name of a cause. -/
def name : Fault → String
  | .invalidPosition .. => "InvalidPosition"
  | .insufficientBalance .. => "InsufficientBalance"
  | .lengthMismatch .. => "LengthMismatch"
  | .tooManyPositions .. => "TooManyPositions"
  | .insufficientRemoved .. => "InsufficientRemoved"
  | .zeroValueConversion .. => "ZeroValueConversion"
  | .staleAccrual .. => "StaleAccrual"
  | .nothingToClaim .. => "NothingToClaim"
  | .unknownAsset .. => "UnknownAsset"
  | .assetAlreadyWhitelisted .. => "AssetAlreadyWhitelisted"
  | .depositsDisabled .. => "DepositsDisabled"
  | .noLegacyFormat .. => "NoLegacyFormat"
  | .notLegacyEpoch .. => "NotLegacyEpoch"
  | .floodNotActive .. => "FloodNotActive"
  | .reentrancy => "Reentrancy"
  | .transferFailed .. => "TransferFailed"
  | .invalidConfig .. => "InvalidConfig"
  | .overflow => "Overflow"
  | .underflow => "Underflow"
  | .divisionByZero => "DivisionByZero"

/-- The stable code of a fault. -/
def code : Fault → String
  | .invalidPosition .. => "E001_INVALID_POSITION"
  | .insufficientBalance .. => "E002_INSUFFICIENT_BALANCE"
  | .lengthMismatch .. => "E003_LENGTH_MISMATCH"
  | .tooManyPositions .. => "E004_TOO_MANY_POSITIONS"
  | .insufficientRemoved .. => "E010_INSUFFICIENT_REMOVED"
  | .zeroValueConversion .. => "E011_ZERO_VALUE_CONVERSION"
  | .staleAccrual .. => "E020_STALE_ACCRUAL"
  | .nothingToClaim .. => "E021_NOTHING_TO_CLAIM"
  | .unknownAsset .. => "E030_UNKNOWN_ASSET"
  | .assetAlreadyWhitelisted .. => "E031_ASSET_EXISTS"
  | .depositsDisabled .. => "E032_DEPOSITS_DISABLED"
  | .noLegacyFormat .. => "E033_NO_LEGACY_FORMAT"
  | .notLegacyEpoch .. => "E034_NOT_LEGACY_EPOCH"
  | .floodNotActive .. => "E040_FLOOD_NOT_ACTIVE"
  | .reentrancy => "E050_REENTRANCY"
  | .transferFailed .. => "E051_TRANSFER_FAILED"
  | .invalidConfig .. => "E052_INVALID_CONFIG"
  | .overflow => "E080_OVERFLOW"
  | .underflow => "E081_UNDERFLOW"
  | .divisionByZero => "E082_DIV_ZERO"

/-- Whether the caller can mend the fault by asking for something else. -/
def recoverable : Fault → Bool
  | .invalidPosition .. | .insufficientBalance .. | .lengthMismatch .. | .tooManyPositions ..
  | .zeroValueConversion .. | .nothingToClaim .. | .transferFailed .. => true
  | _ => false

/-- What there is to say about a fault besides its code. -/
def detail? : Fault → Option String
  | .invalidPosition asset quantity value => some <|
      "position in asset " ++ asset.short ++ " needs positive quantity and value (quantity " ++
        toString quantity ++ ", value " ++ toString value ++ ")"
  | .insufficientBalance account asset index available requested => some <|
      "account " ++ account.short ++ " asset " ++ asset.short ++ " position at index " ++
        toString index ++ " holds " ++ toString available ++ ", requested " ++ toString requested
  | .lengthMismatch indices amounts => some <|
      indices.repr ++ " indices but " ++ amounts.repr ++ " amounts"
  | .insufficientRemoved requested removed => some <|
      "requested " ++ toString requested ++ " but removed " ++ toString removed
  | .staleAccrual account asset realizedIndex currentIndex => some <|
      "account " ++ account.short ++ " asset " ++ asset.short ++ " realized through index " ++
        toString realizedIndex ++ ", current index " ++ toString currentIndex
  | .transferFailed _ _ quantity => some <| "transfer of " ++ toString quantity ++ " failed"
  | .unknownAsset asset | .depositsDisabled asset => some <| "asset " ++ asset.short
  | .invalidConfig reason => some reason
  | _ => none

/-- The text of a fault: its code, and after a colon the detail if there is one. -/
def message (fault : Fault) : String :=
  match fault.detail? with
  | some detail => fault.code ++ ": " ++ detail
  | none => fault.code

/-! ### Reasons of an invalid configuration -/

/-- An asset has to give stalk for its value. -/
def stalkPerValueNotPositive : Fault := .invalidConfig "stalk per value must be positive"

/-- An index never falls. -/
def negativeAccrualRate : Fault := .invalidConfig "accrual rate must not be negative"

/-- Legacy epochs have distinct indices. -/
def legacyRateNotPositive : Fault := .invalidConfig "legacy rate must be positive"

/-- A ledger starts no earlier than the migration. -/
def migrationAfterGenesis : Fault := .invalidConfig "migration epoch after genesis"

/-- The registry of assets is full. -/
def assetLimitReached : Fault := .invalidConfig "asset limit reached"

/-- A flood is named that no record describes. -/
def floodRecordMissing : Fault := .invalidConfig "flood record missing"

/-- The ledger is too large to be written down. -/
def unwritableLedger : Fault := .invalidConfig "state serialization failed"

/-- The bytes do not write down a ledger. -/
def malformedLedger : Fault := .invalidConfig "state bytes are malformed"

end Fault

end StalkLedger
