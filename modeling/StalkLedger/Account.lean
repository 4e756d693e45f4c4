import StalkLedger.SortedMap
import StalkLedger.Identifier

/-!
# Accounts

An account holds stalk and roots.  For each asset it was ever touched in it keeps a *checkpoint*:
the index through which its growth has been realized, and the value it holds.  For floods it keeps
the part of their payouts that it has settled.
-/

namespace StalkLedger

/-- How far an account's holdings in an asset have been realized. -/
structure Checkpoint where
  /-- The index through which growth has been credited. -/
  lastIndex : Index
  /-- The value held in the asset. -/
  value : Amount
deriving DecidableEq

/-- Nothing held, nothing realized. -/
def Checkpoint.fresh : Checkpoint := ⟨0, 0⟩

/-- An account's part in the floods. -/
structure FloodShare where
  /-- The flood, by its first epoch, for which the account's roots are locked. -/
  trackedFlood : Option Epoch
  /-- The roots locked for it. -/
  rootsSnapshot : Amount
  /-- The payout per root through which the account has settled. -/
  checkpoint : Amount
  /-- What is settled and not yet claimed. -/
  claimable : Amount
deriving DecidableEq

/-- No part in any flood. -/
def FloodShare.fresh : FloodShare := ⟨none, 0, 0, 0⟩

/-- What the ledger keeps about an account. -/
structure Account where
  stalk : Amount
  roots : Amount
  /-- The epoch of the latest update. -/
  lastUpdate : Epoch
  /-- The checkpoint in each asset the account was touched in. -/
  checkpoints : SortedMap AssetId Checkpoint
  flood : FloodShare
deriving DecidableEq

namespace Account

/-- An account that holds nothing. -/
def fresh : Account := ⟨0, 0, 0, ∅, .fresh⟩

/-- The checkpoint in an asset, a fresh one if there is none yet. -/
def checkpoint (account : Account) (asset : AssetId) : Checkpoint :=
  (account.checkpoints.get? asset).getD .fresh

/-- The account with another checkpoint in an asset. -/
def withCheckpoint (account : Account) (asset : AssetId) (checkpoint : Checkpoint) : Account :=
  { account with checkpoints := account.checkpoints.insert asset checkpoint }

end Account

end StalkLedger
