import StalkLedger.Action

/-!
# Stalk and roots

Stalk is minted, burned and handed over together with roots.  Minting and burning move the totals of
the ledger by as much as they move the account; handing over leaves the totals alone.  Each change
of an account is recorded with its deltas and the balances it leads to; an amount of zero changes
and records nothing.
-/

namespace StalkLedger

namespace Totals

/-- More stalk and roots. -/
def credit (totals : Totals) (stalk roots : Amount) : Except Fault Totals := do
  let stalk ← totals.stalk.add stalk
  let roots ← totals.roots.add roots
  return { totals with stalk, roots }

/-- Less stalk and roots. -/
def debit (totals : Totals) (stalk roots : Amount) : Except Fault Totals := do
  let stalk ← totals.stalk.sub stalk
  let roots ← totals.roots.sub roots
  return { totals with stalk, roots }

end Totals

namespace Account

/-- More stalk and roots. -/
def credit (account : Account) (stalk roots : Amount) : Except Fault Account := do
  let stalk ← account.stalk.add stalk
  let roots ← account.roots.add roots
  return { account with stalk, roots }

/-- Less stalk and roots. -/
def debit (account : Account) (stalk roots : Amount) : Except Fault Account := do
  let stalk ← account.stalk.sub stalk
  let roots ← account.roots.sub roots
  return { account with stalk, roots }

end Account

namespace Action

/-- Give an account stalk and roots. -/
def creditStalk (id : AccountId) (stalk roots : Amount) : Action Unit := do
  let ledger ← Action.ledger
  let account ← (ledger.account id).credit stalk roots
  let stalkDelta ← stalk.gain
  let rootsDelta ← roots.gain
  setAccount id account
  emit (.stalkChanged id stalkDelta rootsDelta account.stalk account.roots)

/-- Take stalk and roots from an account. -/
def debitStalk (id : AccountId) (stalk roots : Amount) : Action Unit := do
  let ledger ← Action.ledger
  let account ← (ledger.account id).debit stalk roots
  let stalkDelta ← stalk.loss
  let rootsDelta ← roots.loss
  setAccount id account
  emit (.stalkChanged id stalkDelta rootsDelta account.stalk account.roots)

/-- Mint stalk for an account, with the roots that go with it; the roots are returned. -/
def mintStalk (id : AccountId) (stalk : Amount) : Action Amount :=
  if stalk = 0 then
    return 0
  else do
    let ledger ← Action.ledger
    let roots ← rootsForMint ledger.totals.roots ledger.totals.stalk stalk
    let totals ← ledger.totals.credit stalk roots
    setTotals totals
    creditStalk id stalk roots
    return roots

/-- Burn stalk of an account, with the roots that go with it; the roots are returned. -/
def burnStalk (id : AccountId) (stalk : Amount) : Action Amount :=
  if stalk = 0 then
    return 0
  else do
    let ledger ← Action.ledger
    let roots ← rootsForBurn ledger.totals.roots ledger.totals.stalk stalk (ledger.account id).roots
    let totals ← ledger.totals.debit stalk roots
    setTotals totals
    debitStalk id stalk roots
    return roots

/-- Hand stalk over from one account to another, with the roots that go with it; the roots are
returned. -/
def transferStalk (sender recipient : AccountId) (stalk : Amount) : Action Amount :=
  if stalk = 0 then
    return 0
  else do
    let ledger ← Action.ledger
    let roots ←
      rootsForBurn ledger.totals.roots ledger.totals.stalk stalk (ledger.account sender).roots
    debitStalk sender stalk roots
    creditStalk recipient stalk roots
    return roots

end Action

end StalkLedger
