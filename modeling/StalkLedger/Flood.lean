import StalkLedger.SortedMap
import StalkLedger.Fault

/-!
# Floods

While a flood is on, the ledger is paid amounts of the flood asset, to be shared out over the roots
that existed when the flood began.  The book of floods keeps one running index, the payout per root
since the beginning of time, scaled by `precision`; each flood remembers the index at its beginning
and after its latest payout, so that an account can settle it long after it has ended.

Payouts move the index in whole steps.  What the steps do not cover stays unallocated until the next
payout.
-/

namespace StalkLedger

/-- One flood. -/
structure Flood where
  /-- The payout per root when the flood began. -/
  startIndex : Amount
  /-- The payout per root after the latest payout. -/
  endIndex : Amount
  /-- The roots that existed when the flood began. -/
  roots : Amount
  /-- What has been paid in and shared out. -/
  paid : Amount
  /-- The epoch in which the flood ended. -/
  endedAt : Option Epoch
deriving DecidableEq

/-- The book of all floods. -/
structure FloodBook where
  /-- The first epoch of the flood that is on. -/
  active : Option Epoch
  /-- The payout per root over all floods, scaled by the precision. -/
  payoutPerRoot : Amount
  /-- The floods by their first epochs. -/
  floods : SortedMap Epoch Flood
  /-- What has been paid in. -/
  totalPaid : Amount
  /-- What has been paid in and not yet shared out. -/
  unallocated : Amount
  /-- What has been claimed. -/
  totalClaimed : Amount
deriving DecidableEq

/-- The book in which floods can be looked up as a summary. -/
structure FloodStatus where
  active : Option Epoch
  /-- The roots that share in the flood that is on. -/
  lockedRoots : Amount
  payoutPerRoot : Amount
  totalPaid : Amount
  unallocated : Amount
  totalClaimed : Amount
deriving DecidableEq

namespace FloodBook

/-- The scale of the payout per root: `10 ^ 30`. -/
def precision : Amount := ⟨1000000000000000000000000000000, by decide⟩

/-- The book before the first flood. -/
def fresh : FloodBook := ⟨none, 0, ∅, 0, 0, 0⟩

/-- The flood that began in an epoch. -/
def flood (book : FloodBook) (start : Epoch) : Except Fault Flood :=
  match book.floods.get? start with
  | some flood => .ok flood
  | none => .error .floodRecordMissing

/-- The roots that share in the flood that is on; none if there is no flood. -/
def lockedRoots (book : FloodBook) : Amount :=
  match book.active.bind book.floods.get? with
  | some flood => flood.roots
  | none => 0

/-- The summary of the book. -/
def status (book : FloodBook) : FloodStatus where
  active := book.active
  lockedRoots := book.lockedRoots
  payoutPerRoot := book.payoutPerRoot
  totalPaid := book.totalPaid
  unallocated := book.unallocated
  totalClaimed := book.totalClaimed

end FloodBook

end StalkLedger
