import StalkLedger.Ledger
import StalkLedger.Event

/-!
# Actions on the ledger

An action takes a ledger and either fails or gives a result, the next ledger and the events it has
recorded.  A failed action gives no ledger: there is nothing to undo.

Actions are put together one after the other; their events follow each other in the same order
(`Action.bind_apply_ok`), and the first fault is the fault of the whole (`Action.bind_apply_error`).
-/

namespace StalkLedger

/-- What an action leaves behind when it succeeds. -/
structure Outcome (α : Type) where
  result : α
  ledger : Ledger
  events : Event.Log

/-- A change of the ledger that may fail. -/
def Action (α : Type) := Ledger → Except Fault (Outcome α)

namespace Action

variable {α β : Type}

/-- Go on with the result of an action, and record its events first. -/
def bind (action : Action α) (next : α → Action β) : Action β := fun ledger =>
  match action ledger with
  | .error fault => .error fault
  | .ok first =>
    match next first.result first.ledger with
    | .error fault => .error fault
    | .ok second => .ok { second with events := first.events ++ second.events }

instance : Monad Action where
  pure a := fun ledger => .ok ⟨a, ledger, ∅⟩
  bind := bind

/-- A computation that needs no ledger is an action that changes none. -/
instance : MonadLift (Except Fault) Action where
  monadLift x := fun ledger => x.map (⟨·, ledger, ∅⟩)

/-! ### Elementary actions -/

/-- Fail. -/
def fail (fault : Fault) : Action α := fun _ => .error fault

/-- The ledger as it is. -/
def ledger : Action Ledger := fun ledger => .ok ⟨ledger, ledger, ∅⟩

/-- Change the ledger. -/
def update (f : Ledger → Ledger) : Action Unit := fun ledger => .ok ⟨(), f ledger, ∅⟩

/-- Record an event in the current epoch. -/
def emit (event : Epoch → Event) : Action Unit := fun ledger =>
  .ok ⟨(), ledger, ⟨[event ledger.epoch]⟩⟩

/-- Enter an account. -/
def setAccount (id : AccountId) (account : Account) : Action Unit :=
  update fun ledger => { ledger with accounts := ledger.accounts.insert id account }

/-- Enter an asset. -/
def setAsset (id : AssetId) (asset : Asset) : Action Unit :=
  update fun ledger => { ledger with assets := ledger.assets.insert id asset }

/-- Enter the totals. -/
def setTotals (totals : Totals) : Action Unit := update fun ledger => { ledger with totals }

/-- Enter the book of floods. -/
def setFloodBook (floodBook : FloodBook) : Action Unit :=
  update fun ledger => { ledger with floodBook }

/-! ### Laws of sequence -/

theorem pure_apply (a : α) (ledger : Ledger) : (pure a : Action α) ledger = .ok ⟨a, ledger, ∅⟩ :=
  rfl

/-- Actions that follow each other succeed if each does on the ledger that the one before it
leaves, and their events follow each other, -/
theorem bind_apply_ok {action : Action α} {next : α → Action β} {ledger : Ledger}
    {outcome : Outcome β} :
    (action >>= next) ledger = .ok outcome ↔
      ∃ first second, action ledger = .ok first ∧ next first.result first.ledger = .ok second ∧
        outcome = { second with events := first.events ++ second.events } := by
  show bind action next ledger = _ ↔ _
  unfold bind
  cases action ledger with
  | error => simp
  | ok first =>
    cases h : next first.result first.ledger with
    | error => simp [h]
    | ok second => simp [h, eq_comm]

/-- and fail with the fault of the first that fails. -/
theorem bind_apply_error {action : Action α} {next : α → Action β} {ledger : Ledger}
    {fault : Fault} :
    (action >>= next) ledger = .error fault ↔
      action ledger = .error fault ∨
        ∃ first, action ledger = .ok first ∧ next first.result first.ledger = .error fault := by
  show bind action next ledger = _ ↔ _
  unfold bind
  cases action ledger with
  | error => simp
  | ok first => cases h : next first.result first.ledger <;> simp [h]

theorem bind_pure (action : Action α) : bind action pure = action := by
  funext ledger
  unfold bind
  cases action ledger <;> simp [pure_apply]

theorem pure_bind (a : α) (next : α → Action β) : bind (pure a) next = next a := by
  funext ledger
  simp only [bind, pure_apply]
  cases next a ledger <;> simp

/-- Events are joined in the same order, however the actions are grouped. -/
theorem bind_assoc {γ : Type} (action : Action α) (next : α → Action β) (last : β → Action γ) :
    bind (bind action next) last = bind action fun a => bind (next a) last := by
  funext ledger
  unfold bind
  cases action ledger with
  | error => rfl
  | ok first =>
    simp only
    cases next first.result first.ledger with
    | error => rfl
    | ok second =>
      simp only
      cases last second.result second.ledger with
      | error => rfl
      | ok third => simp [Event.Log.append_assoc]

instance : LawfulMonad Action := LawfulMonad.mk' Action bind_pure pure_bind bind_assoc

end Action

end StalkLedger
