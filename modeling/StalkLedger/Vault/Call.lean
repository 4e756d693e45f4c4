import StalkLedger.Vault

/-!
# Calls on a vault

Everything that can be asked of a vault, as data.  *Queries* read.  *Calls* are all that can be asked
at any time, even while a payout is being carried out: queries, changes, and taking the log out.  A
call that pays out comes with what its transfer does: the calls it makes on the vault in the
meantime, and whether it accepts.  *Requests* are all that can be asked from outside: calls, and the
registration of assets and valuations.

`Vault.serve` answers a call, `Vault.handle` a request, and `Vault.run` any number of requests.
-/

namespace StalkLedger

/-! ### What can be asked -/

/-- Questions that change nothing. -/
inductive Query
  | epoch
  | accrualIndex (asset : AssetId)
  | asset (asset : AssetId)
  | totalQuantity (asset : AssetId)
  | totalValue (asset : AssetId)
  /-- The position at an index, looked up in both stores. -/
  | position (owner : AccountId) (asset : AssetId) (index : Index)
  | positions (owner : AccountId) (asset : AssetId)
  | legacyPosition (owner : AccountId) (asset : AssetId) (epoch : Epoch)
  | account (account : AccountId)
  | stalk (account : AccountId)
  | roots (account : AccountId)
  /-- What the account could plant. -/
  | earned (account : AccountId)
  /-- What the account could mow. -/
  | grown (account : AccountId) (asset : AssetId)
  /-- What the account could claim. -/
  | floodPayout (account : AccountId)
  | floodStatus
  | totals
  | events
  | countEvents (kind : Event.Kind)
  /-- The whole ledger. -/
  | snapshot
  /-- The bytes of the whole ledger. -/
  | written

/-- What can be asked at any time. -/
inductive Call
  | query (query : Query)
  | drainEvents
  | dewhitelist (asset : AssetId)
  | setAccrualRate (asset : AssetId) (rate : Index)
  | advanceEpoch (report : EpochReport)
  | receiveReward (quantity : Amount)
  | deposit (owner : AccountId) (asset : AssetId) (quantity : Amount)
  /-- Withdraw; the transfer makes some calls and accepts or refuses. -/
  | withdraw (owner : AccountId) (asset : AssetId) (indices : List Index) (amounts : List Amount)
      (accepts : Bool) (inner : List Call)
  | convert (order : ConversionOrder)
  | transfer (sender recipient : AccountId) (asset : AssetId) (indices : List Index)
      (amounts : List Amount)
  | importLegacy (owner : AccountId) (asset : AssetId) (legacyEpoch : Epoch)
      (quantity value : Amount)
  | migrate (owner : AccountId) (asset : AssetId) (epochs : List Epoch)
  | mow (account : AccountId) (asset : AssetId)
  | plant (account : AccountId)
  /-- Claim flood payouts; the transfer makes some calls and accepts or refuses. -/
  | claim (account : AccountId) (accepts : Bool) (inner : List Call)

/-- What can be asked from outside. -/
inductive Request
  | whitelist (asset : AssetId) (terms : AssetTerms) (valuation : Valuation)
  | register (asset : AssetId) (valuation : Valuation)
  | call (call : Call)

/-! ### What is answered -/

/-- The answers to what succeeds. -/
inductive Answer
  | done
  | flag (flag : Bool)
  | count (count : Nat)
  | epoch (epoch : Epoch)
  | amount (amount : Amount)
  | index (index : Index)
  | indices (indices : List Index)
  | asset (asset : Asset)
  | position (position : Option Position)
  | positions (positions : List (Index × Position))
  | account (account : Account)
  | floodStatus (status : FloodStatus)
  | totals (totals : Totals)
  | events (events : List Event)
  | ledger (ledger : Ledger)
  | bytes (bytes : List UInt8)
  | deposited (receipt : DepositReceipt)
  | withdrawn (receipt : WithdrawReceipt)
  | converted (receipt : ConversionReceipt)
  | transferred (receipt : TransferReceipt)
  | planted (receipt : PlantReceipt)
deriving DecidableEq

/-- What a transfer reports: what the calls it made were answered. -/
abbrev Transcript := List (Except Fault Answer)

/-- What becomes of a call. -/
structure Reply where
  result : Except Fault Answer
  /-- The payout, if the call got as far as a transfer. -/
  payout : Option (Payout Transcript)
  /-- The events that the call added to the log. -/
  gained : Event.Log

namespace Reply

variable {α : Type}

/-- An answer to a question, which adds no events. -/
def ofResult (result : Except Fault Answer) : Reply := ⟨result, none, ∅⟩

/-- The reply for a change without a payout. -/
def ofCompletion (answer : α → Answer) : Completion α × Vault → Reply × Vault
  | (completion, vault) => (⟨completion.result.map answer, none, completion.gained⟩, vault)

/-- The reply for a change with a payout. -/
def ofPaying (answer : α → Answer) :
    (Completion α × Option (Payout Transcript)) × Vault → Reply × Vault
  | ((completion, payout), vault) =>
    (⟨completion.result.map answer, payout, completion.gained⟩, vault)

end Reply

namespace Vault

/-! ### Answering -/

/-- Answer a question. -/
def ask (vault : Vault) : Query → Except Fault Answer
  | .epoch => .ok (.epoch vault.ledger.epoch)
  | .accrualIndex asset => (vault.ledger.accrualIndex asset).map .index
  | .asset asset => (vault.ledger.asset asset).map .asset
  | .totalQuantity asset => (vault.ledger.asset asset).map (.amount ·.totalQuantity)
  | .totalValue asset => (vault.ledger.asset asset).map (.amount ·.totalValue)
  | .position owner asset index =>
    (vault.ledger.resolvedPosition owner asset index).map .position
  | .positions owner asset => .ok (.positions (vault.ledger.positionsOf owner asset))
  | .legacyPosition owner asset epoch =>
    .ok (.position (vault.ledger.legacyPosition owner asset epoch))
  | .account account => .ok (.account (vault.ledger.account account))
  | .stalk account => .ok (.amount (vault.ledger.account account).stalk)
  | .roots account => .ok (.amount (vault.ledger.account account).roots)
  | .earned account => (vault.ledger.earnedBalance account).map .amount
  | .grown account asset => (vault.ledger.grownBalance account asset).map .amount
  | .floodPayout account => (vault.ledger.floodBalance account).map .amount
  | .floodStatus => .ok (.floodStatus vault.ledger.floodBook.status)
  | .totals => .ok (.totals vault.ledger.totals)
  | .events => .ok (.events vault.log.events)
  | .countEvents kind => .ok (.count (vault.log.ofKind kind).length)
  | .snapshot => .ok (.ledger vault.ledger)
  | .written => vault.ledger.toBytes.map .bytes

/-- Take all events out of the log. -/
def drainEvents (vault : Vault) : List Event × Vault :=
  let (events, log) := vault.log.drain
  (events, { vault with log })

mutual

/-- Answer a call. -/
def serve : Call → Vault → Reply × Vault
  | .query query, vault => (.ofResult (vault.ask query), vault)
  | .drainEvents, vault =>
    let (events, vault) := vault.drainEvents
    (.ofResult (.ok (.events events)), vault)
  | .dewhitelist asset, vault =>
    Reply.ofCompletion (fun _ => .done) (vault.transact (Action.dewhitelist asset))
  | .setAccrualRate asset rate, vault =>
    Reply.ofCompletion (fun _ => .done) (vault.transact (Action.setAccrualRate asset rate))
  | .advanceEpoch report, vault =>
    Reply.ofCompletion .flag (vault.transact (Action.advanceEpoch report))
  | .receiveReward quantity, vault =>
    Reply.ofCompletion (fun _ => .done) (vault.transact (Action.receiveReward quantity))
  | .deposit owner asset quantity, vault =>
    Reply.ofCompletion .deposited (vault.deposit owner asset quantity)
  | .withdraw owner asset indices amounts accepts inner, vault =>
    Reply.ofPaying .withdrawn <| vault.withdraw owner asset indices amounts fun _ vault =>
      let (replies, vault) := serveAll inner vault
      ((accepts, replies.map (·.result)), vault)
  | .convert order, vault => Reply.ofCompletion .converted (vault.convert order)
  | .transfer sender recipient asset indices amounts, vault =>
    Reply.ofCompletion .transferred
      (vault.transact (Action.transfer sender recipient asset indices amounts))
  | .importLegacy owner asset legacyEpoch quantity value, vault =>
    Reply.ofCompletion .index
      (vault.transact (Action.importLegacy owner asset legacyEpoch quantity value))
  | .migrate owner asset epochs, vault =>
    Reply.ofCompletion .indices (vault.transact (Action.migrate owner asset epochs))
  | .mow account asset, vault =>
    Reply.ofCompletion .amount (vault.transact (Action.mow account asset))
  | .plant account, vault => Reply.ofCompletion .planted (vault.transact (Action.plant account))
  | .claim account accepts inner, vault =>
    Reply.ofPaying .amount <| vault.claim account fun _ vault =>
      let (replies, vault) := serveAll inner vault
      ((accepts, replies.map (·.result)), vault)

/-- Answer some calls, one after the other. -/
def serveAll : List Call → Vault → List Reply × Vault
  | [], vault => ([], vault)
  | call :: calls, vault =>
    let (reply, vault) := serve call vault
    let (replies, vault) := serveAll calls vault
    (reply :: replies, vault)

end

/-- Answer a request. -/
def handle : Request → Vault → Reply × Vault
  | .whitelist asset terms valuation, vault =>
    Reply.ofCompletion (fun _ => .done) (vault.whitelist asset terms valuation)
  | .register asset valuation, vault =>
    let (result, vault) := vault.register asset valuation
    (.ofResult (result.map fun _ => .done), vault)
  | .call call, vault => serve call vault

/-- Answer some requests, one after the other. -/
def run : List Request → Vault → List Reply × Vault
  | [], vault => ([], vault)
  | request :: requests, vault =>
    let (reply, vault) := handle request vault
    let (replies, vault) := run requests vault
    (reply :: replies, vault)

end Vault

end StalkLedger
