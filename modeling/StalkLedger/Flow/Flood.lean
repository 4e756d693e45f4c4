import StalkLedger.Accrual

/-!
# The course of a flood

A flood begins over the roots there are, is paid any number of times, and ends.  A payout together
with what earlier ones left over moves the payout per root by as many whole steps as it covers; what
the steps take, rounded up, is shared out, and the rest waits.  Accounts claim what they have
settled.
-/

namespace StalkLedger

namespace FloodBook

/-- Open a flood over some roots. -/
def opened (book : FloodBook) (epoch : Epoch) (roots : Amount) : FloodBook :=
  let flood : Flood := ⟨book.payoutPerRoot, book.payoutPerRoot, roots, 0, none⟩
  { book with active := some epoch, floods := book.floods.insert epoch flood }

/-- Close the flood that began in an epoch. -/
def closed (book : FloodBook) (start epoch : Epoch) : FloodBook :=
  match book.floods.get? start with
  | some flood =>
    let flood := { flood with endedAt := some epoch }
    { book with active := none, floods := book.floods.insert start flood }
  | none => { book with active := none }

/-- Take a payout in for the flood that began in an epoch, and share out what can be shared. -/
def paid (book : FloodBook) (start : Epoch) (flood : Flood) (amount : Amount) :
    Except Fault FloodBook := do
  let available ← book.unallocated.add amount
  let totalPaid ← book.totalPaid.add amount
  if flood.roots = 0 then
    return { book with totalPaid, unallocated := available }
  else
    let perRoot ← mulDiv available precision flood.roots
    -- Rounded up: what the roots are owed for these steps is never more than what is set aside.
    let allocated ← mulDivCeil perRoot flood.roots precision
    let unallocated ← available.sub allocated
    let payoutPerRoot ← book.payoutPerRoot.add perRoot
    let paid ← flood.paid.add amount
    let flood := { flood with endIndex := payoutPerRoot, paid }
    let floods := book.floods.insert start flood
    return { book with payoutPerRoot, floods, totalPaid, unallocated }

end FloodBook

namespace Action

/-- A flood begins. -/
def beginFlood : Action Unit := do
  let ledger ← Action.ledger
  let roots := ledger.totals.roots
  setFloodBook (ledger.floodBook.opened ledger.epoch roots)
  emit (.floodStarted roots)

/-- The flood is paid.  A payout that finds no roots is not recorded: nobody is owed anything yet. -/
def payFlood (amount : Amount) : Action Unit := do
  let ledger ← Action.ledger
  match ledger.floodBook.active with
  | none => fail (.floodNotActive ledger.epoch)
  | some start =>
    let flood ← ledger.floodBook.flood start
    let book ← ledger.floodBook.paid start flood amount
    setFloodBook book
    if flood.roots = 0 then
      return ()
    else
      emit (.floodPaid start amount book.payoutPerRoot)

/-- The flood ends, if there is one. -/
def endFlood : Action Unit := do
  let ledger ← Action.ledger
  match ledger.floodBook.active with
  | none => return ()
  | some start =>
    setFloodBook (ledger.floodBook.closed start ledger.epoch)
    emit (.floodEnded start)

/-- Settle the floods of an account, whether or not it has been updated in this epoch. -/
def settleFloods (id : AccountId) : Action Unit := do
  let ledger ← Action.ledger
  let account := ledger.account id
  let flood ← ledger.floodBook.settle account.roots account.flood
  setAccount id { account with flood }

/-- Claim what an account has been paid; the amount is returned. -/
def claimFlood (id : AccountId) : Action Amount := do
  updateAccount id
  let ledger ← Action.ledger
  let account := ledger.account id
  let amount := account.flood.claimable
  if amount = 0 then
    fail (.nothingToClaim id)
  else
    let totalClaimed ← ledger.floodBook.totalClaimed.add amount
    setAccount id { account with flood := { account.flood with claimable := 0 } }
    setFloodBook { ledger.floodBook with totalClaimed }
    emit (.floodPayoutClaimed id ledger.charter.floodAsset amount)
    return amount

end Action

end StalkLedger
