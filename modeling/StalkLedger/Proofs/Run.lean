import StalkLedger.Proofs.Arithmetic
import StalkLedger.Proofs.Sum
import StalkLedger.Accrual

/-!
# Reading an action backward

An action that succeeded has gone through each of its steps.  The laws of this module read a run
from its outcome, one step at a time: what a step found in the ledger, what it computed, and the
ledger on which the rest of the action ran.
-/

namespace StalkLedger

namespace Ledger

/-! ### Entering accounts and assets -/

/-- The ledger with an account entered. -/
def withAccount (ledger : Ledger) (id : AccountId) (account : Account) : Ledger :=
  { ledger with accounts := ledger.accounts.insert id account }

/-- The ledger with an asset entered. -/
def withAsset (ledger : Ledger) (id : AssetId) (entry : Asset) : Ledger :=
  { ledger with assets := ledger.assets.insert id entry }

/-- An asset is found exactly if it is in the registry. -/
theorem asset_eq_ok {ledger : Ledger} {id : AssetId} {entry : Asset} :
    ledger.asset id = .ok entry ↔ ledger.assets.get? id = some entry := by
  unfold asset
  cases ledger.assets.get? id with
  | none => exact ⟨nofun, nofun⟩
  | some e => exact ⟨fun h => by cases h; rfl, fun h => by cases h; rfl⟩

theorem account_congr {ledger ledger' : Ledger} (h : ledger'.accounts = ledger.accounts)
    (id : AccountId) : ledger'.account id = ledger.account id := by
  rw [Ledger.account, h, Ledger.account]

/-- An account that is entered is read back, and every other account is read as before. -/
theorem account_withAccount (ledger : Ledger) (id id' : AccountId) (account : Account) :
    (ledger.withAccount id account).account id' =
      if id' = id then account else ledger.account id' := by
  simp only [Ledger.account, withAccount, SortedMap.get?_insert]
  split <;> rfl

/-- A sum over all accounts with another one in the place of an account; accounts that were never
touched count nothing. -/
theorem sum_withAccount (ledger : Ledger) (id : AccountId) (account : Account) {f : Account → ℤ}
    (hf : f .fresh = 0) : ((ledger.withAccount id account).accounts.sum fun _ a => f a) =
      (ledger.accounts.sum fun _ a => f a) + (f account - f (ledger.account id)) := by
  rw [withAccount, SortedMap.sum_insert, SortedMap.measureAt_eq_getD (a := .fresh) hf]
  rfl

/-- No account counts more than all of them, if none counts less than nothing. -/
theorem account_le_sum {ledger : Ledger} {f : Account → ℤ} (hf : f .fresh = 0)
    (hnn : ∀ id, 0 ≤ f (ledger.account id)) (id : AccountId) :
    f (ledger.account id) ≤ ledger.accounts.sum fun _ a => f a := by
  have hentry (k : AccountId) (a : Account) (hget : ledger.accounts.get? k = some a) :
      0 ≤ f a := by
    have hk := hnn k
    rwa [account, hget] at hk
  have hle := SortedMap.measureAt_le_sum (f := fun _ a => f a) hentry id
  rwa [SortedMap.measureAt_eq_getD (a := .fresh) hf] at hle

end Ledger

/-- So it is with the checkpoints of an account. -/
theorem Account.checkpoint_withCheckpoint (account : Account) (asset asset' : AssetId)
    (checkpoint : Checkpoint) :
    (account.withCheckpoint asset checkpoint).checkpoint asset' =
      if asset' = asset then checkpoint else account.checkpoint asset' := by
  simp only [Account.checkpoint, Account.withCheckpoint, SortedMap.get?_insert]
  split <;> rfl

namespace Action

variable {α β : Type} {ledger : Ledger} {out : Outcome β}

/-! ### Steps that end an action -/

theorem pure_eq_ok {b : β} : (pure b : Action β) ledger = .ok out ↔ out = ⟨b, ledger, ∅⟩ :=
  ⟨fun h => by cases h; rfl, fun h => by rw [h]; rfl⟩

theorem setAccount_eq_ok {id : AccountId} {account : Account} {out : Outcome Unit} :
    setAccount id account ledger = .ok out ↔ out = ⟨(), ledger.withAccount id account, ∅⟩ :=
  ⟨fun h => by cases h; rfl, fun h => by rw [h]; rfl⟩

/-- An event is recorded with the epoch of the ledger. -/
theorem emit_eq_ok {event : Epoch → Event} {out : Outcome Unit} :
    emit event ledger = .ok out ↔ out = ⟨(), ledger, ⟨[event ledger.epoch]⟩⟩ :=
  ⟨fun h => by cases h; rfl, fun h => by rw [h]; rfl⟩

/-! ### Steps that are followed by others -/

variable {next : α → Action β} {after : Unit → Action β}

/-- A step that records nothing is only seen in its result and its ledger. -/
theorem bind_of_unrecorded {action : Action α} {a : α} {ledger' : Ledger}
    (h : action ledger = .ok ⟨a, ledger', ∅⟩) : (action >>= next) ledger = next a ledger' := by
  show bind action next ledger = _
  unfold bind
  rw [h]
  dsimp only
  cases next a ledger' <;> rfl

/-- So it succeeds with what follows it. -/
theorem bind_of_silent {action : Action α} {a : α} {ledger' : Ledger}
    (h : action ledger = .ok ⟨a, ledger', ∅⟩) :
    (action >>= next) ledger = .ok out ↔ next a ledger' = .ok out := by
  rw [bind_of_unrecorded h]

/-- What follows a look at the ledger runs on the ledger that was seen. -/
theorem ledger_bind {next : Ledger → Action β} :
    (Action.ledger >>= next) ledger = .ok out ↔ next ledger ledger = .ok out :=
  bind_of_silent rfl

/-- What follows a computation runs on the same ledger, with its result. -/
theorem lift_bind {x : Except Fault α} :
    ((liftM x : Action α) >>= next) ledger = .ok out ↔
      ∃ a, x = .ok a ∧ next a ledger = .ok out := by
  cases x with
  | error fault => exact ⟨nofun, fun ⟨_, h, _⟩ => nomatch h⟩
  | ok a =>
    have h : (liftM (.ok a : Except Fault α) : Action α) ledger = .ok ⟨a, ledger, ∅⟩ := rfl
    rw [bind_of_silent h]
    exact ⟨fun h => ⟨a, rfl, h⟩, fun ⟨_, h, h'⟩ => by cases h; exact h'⟩

theorem update_bind {f : Ledger → Ledger} :
    (update f >>= after) ledger = .ok out ↔ after () (f ledger) = .ok out :=
  bind_of_silent rfl

theorem setAccount_bind {id : AccountId} {account : Account} :
    (setAccount id account >>= after) ledger = .ok out ↔
      after () (ledger.withAccount id account) = .ok out :=
  bind_of_silent rfl

theorem setAsset_bind {id : AssetId} {entry : Asset} :
    (setAsset id entry >>= after) ledger = .ok out ↔
      after () (ledger.withAsset id entry) = .ok out :=
  bind_of_silent rfl

theorem setTotals_bind {totals : Totals} :
    (setTotals totals >>= after) ledger = .ok out ↔ after () { ledger with totals } = .ok out :=
  bind_of_silent rfl

theorem setFloodBook_bind {floodBook : FloodBook} :
    (setFloodBook floodBook >>= after) ledger = .ok out ↔
      after () { ledger with floodBook } = .ok out :=
  bind_of_silent rfl

/-- A check of an account changes nothing: it fails, or what follows runs as if it were not there.
-/
theorem ensureCurrent_bind {id : AccountId} {asset : AssetId} :
    (ensureCurrent id asset >>= after) ledger = .ok out ↔
      ledger.requireCurrent id asset = .ok () ∧ after () ledger = .ok out := by
  unfold ensureCurrent
  rw [LawfulMonad.bind_assoc, ledger_bind, lift_bind]
  exact ⟨fun ⟨_, h⟩ => h, fun h => ⟨(), h⟩⟩

/-- An action that never records anything. -/
def Silent (action : Action α) : Prop :=
  ∀ (ledger : Ledger) (out : Outcome α), action ledger = .ok out → out.events = ∅

/-- A silent action adds nothing to the events of what follows. -/
theorem Silent.bind {action : Action α} (hs : Silent action) :
    (action >>= next) ledger = .ok out ↔
      ∃ first, action ledger = .ok first ∧ next first.result first.ledger = .ok out := by
  rw [bind_apply_ok]
  constructor
  · rintro ⟨first, rest, hfirst, hrest, rfl⟩
    rw [hs _ _ hfirst]
    exact ⟨first, hfirst, hrest⟩
  · rintro ⟨first, hfirst, hrest⟩
    exact ⟨first, out, hfirst, hrest, by rw [hs _ _ hfirst]; rfl⟩

/-- An event stands before those that follow it. -/
theorem emit_bind {event : Epoch → Event} :
    (emit event >>= after) ledger = .ok out ↔
      ∃ rest, after () ledger = .ok rest ∧
        out = { rest with events := ⟨[event ledger.epoch]⟩ ++ rest.events } := by
  rw [bind_apply_ok]
  constructor
  · rintro ⟨_, rest, ⟨⟩, h, rfl⟩
    exact ⟨rest, h, rfl⟩
  · rintro ⟨rest, h, rfl⟩
    exact ⟨_, rest, rfl, h, rfl⟩

/-- An action whose result is only dressed up. -/
theorem bind_pure_eq_ok {action : Action α} {dress : α → β} :
    (action >>= fun a => pure (dress a)) ledger = .ok out ↔
      ∃ first, action ledger = .ok first ∧
        out = ⟨dress first.result, first.ledger, first.events⟩ := by
  rw [bind_apply_ok]
  constructor
  · rintro ⟨first, _, h, ⟨⟩, rfl⟩
    exact ⟨first, h, by simp⟩
  · rintro ⟨first, h, rfl⟩
    exact ⟨first, _, h, rfl, by simp⟩

end Action

end StalkLedger
