import StalkLedger.Account
import StalkLedger.Flood
import StalkLedger.Growth

/-!
# Settling floods

An account is owed, for every step of the payout per root, a payout on the roots it held when the
flood of that step began.  It need not be looked at while a flood is on: whenever it is settled, the
flood for which its roots are locked is paid to that flood's end, a flood that is on and not yet
joined is joined with the roots the account has now, and what lies between is paid on those roots.
-/

namespace StalkLedger

namespace FloodShare

/-- The payout on some roots while the payout per root goes from a checkpoint to an index, rounded
down. -/
def owed (index checkpoint roots : Amount) : Except Fault Amount := do
  let steps ← index.sub checkpoint
  mulDiv steps roots FloodBook.precision

/-- Pay a share up to an index, on some roots. -/
def payUpTo (share : FloodShare) (index roots : Amount) : Except Fault FloodShare := do
  let payout ← owed index share.checkpoint roots
  let claimable ← share.claimable.add payout
  return { share with claimable, checkpoint := index }

end FloodShare

namespace FloodBook

/-- Pay a share for the flood it has joined, if that flood is over, and leave it. -/
def leave (book : FloodBook) (share : FloodShare) : Except Fault FloodShare :=
  match share.trackedFlood with
  | none => .ok share
  | some start =>
    if book.active = some start then
      .ok share
    else do
      let ended ← book.flood start
      let share ← share.payUpTo ended.endIndex share.rootsSnapshot
      return { share with trackedFlood := none, rootsSnapshot := 0 }

/-- Join the flood that is on with some roots, after payment for what was before; a share that has
joined it already stays as it is. -/
def join (book : FloodBook) (start : Epoch) (roots : Amount) (share : FloodShare) :
    Except Fault FloodShare :=
  match share.trackedFlood with
  | some _ => .ok share
  | none => do
    let current ← book.flood start
    let share ← share.payUpTo current.startIndex roots
    return { share with trackedFlood := some start, rootsSnapshot := roots }

/-- The share of an account with some roots, settled up to now. -/
def settle (book : FloodBook) (roots : Amount) (share : FloodShare) : Except Fault FloodShare := do
  let share ← book.leave share
  match book.active with
  | some start =>
    let share ← book.join start roots share
    share.payUpTo book.payoutPerRoot share.rootsSnapshot
  | none => share.payUpTo book.payoutPerRoot roots

end FloodBook

end StalkLedger
