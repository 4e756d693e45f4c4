import StalkLedger.Clock
import StalkLedger.Flow.Conversion
import StalkLedger.Flow.Legacy
import StalkLedger.Flow.Transfer
import StalkLedger.Registry
import StalkLedger.Valuation
import StalkLedger.Wire.Ledger

/-!
# The vault

A vault is a ledger that answers calls.  It knows the valuations of its assets, keeps the events of
the calls that succeeded, and lets one change happen at a time.

A change (`Vault.transactThen`) runs on the ledger and is committed only if it succeeds.  Where a
call pays out, the transfer runs after the ledger is committed and before the call is over: whoever
carries it out sees the new ledger, and may call the vault, but not change it.  If the transfer is
refused, the ledger is put back, and the call has never recorded anything.
-/

namespace StalkLedger

/-- A ledger with what it takes to answer calls. -/
structure Vault where
  ledger : Ledger
  valuations : SortedMap AssetId Valuation
  /-- The events of the calls that succeeded. -/
  log : Event.Log
  /-- Whether a change is in progress. -/
  entered : Bool

/-- What is to be paid out, of what, and to whom. -/
structure Payment where
  asset : AssetId
  recipient : AccountId
  quantity : Amount
deriving DecidableEq

/-- A payment that was given out for transfer: whether the transfer happened, and what there is to
report of it. -/
structure Payout (ρ : Type) where
  payment : Payment
  accepted : Bool
  report : ρ
deriving DecidableEq

/-- Someone who moves assets out of the vault, tells whether that worked, and reports.  The vault
can be called in the meantime. -/
def Carrier (ρ : Type) := Payment → Vault → (Bool × ρ) × Vault

/-- What became of a change. -/
structure Completion (α : Type) where
  result : Except Fault α
  /-- The events that were added to the log. -/
  gained : Event.Log

namespace Vault

variable {ρ α : Type}

/-! ### Founding a vault -/

/-- A vault around a ledger; nothing is valued, and nothing has happened yet. -/
def around (ledger : Ledger) : Vault := ⟨ledger, ∅, ∅, false⟩

/-- A vault with a new ledger. -/
def genesis (charter : Charter) : Except Fault Vault := do
  let ledger ← Ledger.genesis charter
  return around ledger

/-- A vault that goes on with a ledger.  Its assets have to be valued again. -/
def resume (ledger : Ledger) : Except Fault Vault := do
  ledger.charter.validate
  return around ledger

/-- A vault that goes on with a ledger that was written down. -/
def restore (bytes : List UInt8) : Except Fault Vault := do
  let ledger ← Ledger.ofBytes bytes
  resume ledger

/-! ### Changes -/

/-- Have a payment carried out; a payment of nothing needs no transfer. -/
def pay (carrier : Carrier ρ) (payment : Payment) (vault : Vault) : Option (Payout ρ) × Vault :=
  if payment.quantity = 0 then
    (none, vault)
  else
    let ((accepted, report), vault) := carrier payment vault
    (some ⟨payment, accepted, report⟩, vault)

/-- Run an action, commit its ledger, see to what follows from it, and record its events.  If the
action fails nothing has happened.  If a payout is refused the ledger is put back, and the events
are never recorded. -/
def transactThen (action : Action α) (follow : α → Vault → Option (Payout ρ) × Vault)
    (vault : Vault) : (Completion α × Option (Payout ρ)) × Vault :=
  if vault.entered then
    ((⟨.error .reentrancy, ∅⟩, none), vault)
  else
    match action vault.ledger with
    | .error fault => ((⟨.error fault, ∅⟩, none), vault)
    | .ok outcome =>
      -- What follows sees the new ledger, and finds the vault entered.
      match follow outcome.result { vault with ledger := outcome.ledger, entered := true } with
      | (none, after) =>
        ((⟨.ok outcome.result, outcome.events⟩, none),
          { after with log := after.log ++ outcome.events, entered := false })
      | (some payout, after) =>
        if payout.accepted then
          ((⟨.ok outcome.result, outcome.events⟩, some payout),
            { after with log := after.log ++ outcome.events, entered := false })
        else
          let due := payout.payment
          ((⟨.error (.transferFailed due.asset due.recipient due.quantity), ∅⟩, some payout),
            { after with ledger := vault.ledger, entered := false })

/-- Run an action that nothing follows from. -/
def transact (action : Action α) (vault : Vault) : Completion α × Vault :=
  let ((completion, _), vault) :=
    transactThen action (fun _ vault => ((none : Option (Payout Unit)), vault)) vault
  (completion, vault)

/-- Run an action and have paid out what it owes. -/
def transactPaying (action : Action α) (due : α → Payment) (carrier : Carrier ρ) (vault : Vault) :
    (Completion α × Option (Payout ρ)) × Vault :=
  transactThen action (fun result => pay carrier (due result)) vault

/-! ### The registry of assets -/

/-- Value an asset from now on. -/
def setValuation (vault : Vault) (asset : AssetId) (valuation : Valuation) : Vault :=
  { vault with valuations := vault.valuations.insert asset valuation }

/-- Whitelist an asset together with its valuation. -/
def whitelist (asset : AssetId) (terms : AssetTerms) (valuation : Valuation) (vault : Vault) :
    Completion Unit × Vault :=
  match vault.transact (Action.whitelist asset terms) with
  | (⟨.ok (), gained⟩, vault) => (⟨.ok (), gained⟩, vault.setValuation asset valuation)
  | (completion, vault) => (completion, vault)

/-- Value a whitelisted asset anew. -/
def register (asset : AssetId) (valuation : Valuation) (vault : Vault) :
    Except Fault Unit × Vault :=
  match vault.ledger.asset asset with
  | .ok _ => (.ok (), vault.setValuation asset valuation)
  | .error fault => (.error fault, vault)

/-- What a quantity of an asset is worth. -/
def valueOf (vault : Vault) (asset : AssetId) (quantity : Amount) : Except Fault Amount :=
  match vault.valuations.get? asset with
  | some valuation => valuation.valueOf quantity
  | none => .error (.unknownAsset asset)

/-! ### Positions -/

/-- Deposit a quantity at its worth. -/
def deposit (owner : AccountId) (asset : AssetId) (quantity : Amount) (vault : Vault) :
    Completion DepositReceipt × Vault :=
  vault.transact do
    let value ← vault.valueOf asset quantity
    Action.deposit owner asset quantity value

/-- Withdraw from some positions and pay the whole out. -/
def withdraw (owner : AccountId) (asset : AssetId) (indices : List Index) (amounts : List Amount)
    (carrier : Carrier ρ) (vault : Vault) :
    (Completion WithdrawReceipt × Option (Payout ρ)) × Vault :=
  vault.transactPaying (Action.withdraw owner asset indices amounts)
    (fun receipt => ⟨asset, owner, receipt.quantity⟩) carrier

/-- Convert positions of one asset into a position of another, at what that is worth. -/
def convert (order : ConversionOrder) (vault : Vault) : Completion ConversionReceipt × Vault :=
  vault.transact (Action.convert order (vault.valueOf order.toAsset))

/-- Claim the flood payouts of an account and pay them out. -/
def claim (id : AccountId) (carrier : Carrier ρ) (vault : Vault) :
    (Completion Amount × Option (Payout ρ)) × Vault :=
  let asset := vault.ledger.charter.floodAsset
  vault.transactPaying (Action.claimFlood id) (fun amount => ⟨asset, id, amount⟩) carrier

end Vault

end StalkLedger
