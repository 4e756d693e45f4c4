import StalkLedger.Proofs.FloodCourse
import StalkLedger.Proofs.Transition

/-!
# What floods see of a move

Between two reports an account is only ever settled, once, and its roots change only after that
(`Move.drift`): whatever else a move does, floods do not see it.  Settling rounds down what an account
is owed and leaves the roots on which it is paid as they are; once it is settled, other roots change
neither (`FloodBook.Touched.spec`).

The total of roots stays that of the accounts (`Move.rootsLoose`).
-/

namespace StalkLedger

open FloodBook (scale scale_pos rate)

/-! ### Accounts in the book of floods -/

namespace FloodBook

/-- An account has been carried on, and if it has been updated in this epoch, it is settled. -/
structure Admits (book : FloodBook) (epoch : Epoch) (account : Account) : Prop where
  share : book.Carries account.flood
  lastUpdate : account.lastUpdate ≤ epoch
  settled : epoch ≤ account.lastUpdate →
    account.flood.trackedFlood = book.active ∧ account.flood.checkpoint = book.payoutPerRoot

/-- What may become of an account between two reports, as far as floods see: it is settled, or it
has been before and comes to have other roots. -/
inductive Touched (book : FloodBook) (epoch : Epoch) (account : Account) : Account → Prop
  | settled {account' flood} (hlt : account.lastUpdate < epoch)
      (hs : book.settle account.roots account.flood = .ok flood)
      (hr : account'.roots = account.roots) (hf : account'.flood = flood)
      (hl : account'.lastUpdate = epoch) : Touched book epoch account account'
  | reweighed {account'} (hle : epoch ≤ account.lastUpdate) (hf : account'.flood = account.flood)
      (hl : account'.lastUpdate = account.lastUpdate) : Touched book epoch account account'

variable {book : FloodBook} {epoch : Epoch} {account account' : Account}

/-- What becomes of what an account is owed, and of the roots it is paid on: once in an epoch it is
rounded down three times, and otherwise it stays. -/
structure Kept (book : FloodBook) (epoch : Epoch) (account account' : Account) : Prop where
  owing : account'.lastUpdate = account.lastUpdate ∧
      book.owing account'.roots account'.flood = book.owing account.roots account.flood ∨
    account.lastUpdate < epoch ∧ account'.lastUpdate = epoch ∧
      Rounded 3 (book.owing account.roots account.flood) (book.owing account'.roots account'.flood)
  rate : ∀ {start}, book.active = some start →
    rate start account'.roots account'.flood = rate start account.roots account.flood

theorem Kept.refl (book : FloodBook) (epoch : Epoch) (account : Account) :
    book.Kept epoch account account :=
  ⟨.inl ⟨rfl, rfl⟩, fun _ => rfl⟩

theorem Kept.trans {account'' : Account} (h : book.Kept epoch account account')
    (h' : book.Kept epoch account' account'') : book.Kept epoch account account'' := by
  refine ⟨?_, fun hon => (h'.rate hon).trans (h.rate hon)⟩
  rcases h.owing with ⟨hl, ho⟩ | ⟨hlt, hl, ho⟩
  · rw [← hl, ← ho]
    exact h'.owing
  · rcases h'.owing with ⟨hl', ho'⟩ | ⟨hlt', -, -⟩
    · exact .inr ⟨hlt, hl'.trans hl, ho' ▸ ho⟩
    · rw [hl] at hlt'
      exact absurd hlt' (Nat.lt_irrefl _)

/-- What is owed only ever falls. -/
theorem Kept.owing_le (h : book.Kept epoch account account') :
    book.owing account'.roots account'.flood ≤ book.owing account.roots account.flood := by
  rcases h.owing with ⟨-, ho⟩ | ⟨-, -, ho⟩
  · exact ho.le
  · exact ho.1

/-- **Touching an account** keeps it in the book. -/
theorem Touched.spec (h : book.Touched epoch account account') (hb : book.Sound epoch)
    (ha : book.Admits epoch account)
    (hfits : book.owing account.roots account.flood < scale * 2 ^ 128) :
    book.Admits epoch account' ∧ book.Kept epoch account account' := by
  cases h with
  | settled hlt hs hr hf hl =>
    obtain ⟨share, hshare, hsettled⟩ := settle_spec hb ha.share hfits
    obtain rfl := Except.ok.inj (hs.symm.trans hshare)
    rw [← hf] at hsettled
    obtain ⟨htracked, hcheckpoint, hsnapshot, hrounded⟩ := hsettled
    refine ⟨⟨hb.carries_of_settled htracked hcheckpoint, Nat.le_of_eq (congrArg _ hl),
      fun _ => ⟨htracked, hcheckpoint⟩⟩, .inr ⟨hlt, hl, ?_⟩, fun hon => ?_⟩
    · rw [hb.owing_of_settled htracked hcheckpoint]
      exact hrounded
    · rw [rate_of_tracked (htracked.trans hon)]
      exact hsnapshot hon
  | reweighed hle hf hl =>
    -- Nothing is pending for a settled share, so other roots change nothing.
    obtain ⟨htracked, hcheckpoint⟩ := ha.settled hle
    refine ⟨⟨hf ▸ ha.share, hl ▸ ha.lastUpdate, fun _ => hf ▸ ⟨htracked, hcheckpoint⟩⟩,
      .inl ⟨hl, ?_⟩, fun hon => ?_⟩
    · rw [hf, hb.owing_of_settled htracked hcheckpoint, hb.owing_of_settled htracked hcheckpoint]
    · rw [hf, rate_of_tracked (htracked.trans hon), rate_of_tracked (htracked.trans hon)]

end FloodBook

/-! ### Moves -/

/-- What floods see of some moves: accounts are touched one after the other. -/
inductive Ledger.Drift : Ledger → Ledger → Prop
  /-- Accounts, clock and floods stay. -/
  | still {ledger ledger' : Ledger} (ha : ledger'.accounts = ledger.accounts)
      (he : ledger'.epoch = ledger.epoch) (hb : ledger'.floodBook = ledger.floodBook) :
      Drift ledger ledger'
  | touch {ledger : Ledger} {id : AccountId} {account : Account}
      (h : ledger.floodBook.Touched ledger.epoch (ledger.account id) account) :
      Drift ledger (ledger.withAccount id account)
  | trans {ledger ledger' ledger'' : Ledger} (h : Drift ledger ledger')
      (h' : Drift ledger' ledger'') : Drift ledger ledger''

open StalkLedger.Action Ledger FloodBook

namespace Ledger.Drift

variable {ledger : Ledger} {id : AccountId}

/-- An account that has been updated may change in what floods do not see, and in its roots. -/
theorem of_updated {account : Account} (hu : ledger.Updated id)
    (hf : account.flood = (ledger.account id).flood)
    (hl : account.lastUpdate = (ledger.account id).lastUpdate) :
    Drift ledger (ledger.withAccount id account) :=
  .touch (.reweighed hu.le hf hl)

/-- Stalk and roots come and go without touching the floods of an account that is up to date, -/
theorem creditStalk {stalk roots : Amount} {out : Outcome Unit} (hu : ledger.Updated id)
    (h : Action.creditStalk id stalk roots ledger = .ok out) : Drift ledger out.ledger := by
  obtain ⟨_, _, _, -, -, rfl⟩ := creditStalk_spec h
  exact .of_updated hu rfl rfl

/-- whichever way. -/
theorem debitStalk {stalk roots : Amount} {out : Outcome Unit} (hu : ledger.Updated id)
    (h : Action.debitStalk id stalk roots ledger = .ok out) : Drift ledger out.ledger := by
  obtain ⟨_, _, _, -, -, rfl⟩ := debitStalk_spec h
  exact .of_updated hu rfl rfl

end Ledger.Drift

/-- **What floods see of a move.** -/
theorem Move.drift {ledger ledger' : Ledger} {more : Imbalance} {events : Event.Log}
    (h : Move ledger more events ledger') : Drift ledger ledger' := by
  cases h with
  | update h =>
    rcases updateAccount_eq_ok.mp h with ⟨hle, rfl⟩ | ⟨hlt, flood, hs, rfl⟩
    · exact .touch (.reweighed hle rfl rfl)
    · exact .touch (.settled hlt hs rfl rfl rfl)
  | realize hu he hg => exact .of_updated hu rfl rfl
  | mint hu hs h =>
    obtain ⟨_, totals, credited, -, -, hc, rfl⟩ := (mintStalk_eq_ok hs).mp h
    have hstill : Drift ledger { ledger with totals } := .still rfl rfl rfl
    exact hstill.trans (.creditStalk ((Keeps.withTotals ledger totals).updated hu) hc)
  | burn hu hs h =>
    obtain ⟨_, totals, debited, -, -, hd, rfl⟩ := (burnStalk_eq_ok hs).mp h
    have hstill : Drift ledger { ledger with totals } := .still rfl rfl rfl
    exact hstill.trans (.debitStalk ((Keeps.withTotals ledger totals).updated hu) hd)
  | handOver hu hu' hs h =>
    obtain ⟨_, debited, credited, -, hd, hc, rfl⟩ := (transferStalk_eq_ok hs).mp h
    exact (Drift.debitStalk hu hd).trans (.creditStalk ((Keeps.debitStalk hd).updated hu') hc)
  | credit hu h => exact .creditStalk hu h
  | drawPool h => exact .still rfl rfl rfl
  | book hc h =>
    obtain ⟨held, -, rfl⟩ := creditValue_eq_ok.mp h
    exact .of_updated hc.updated rfl rfl
  | unbook hc h =>
    obtain ⟨held, -, rfl⟩ := debitValue_eq_ok.mp h
    exact .of_updated hc.updated rfl rfl
  | enter hi h =>
    obtain ⟨deposits, entry, entry', -, -, -, -, -, -, rfl⟩ := addPositionAt_eq_ok.mp h
    exact .still rfl rfl rfl
  | remove ha h =>
    obtain ⟨value, taken, entry, entry', -, -, ht, -, rfl⟩ := (removePosition_eq_ok ha).mp h
    obtain ⟨deposits, legacyDeposits, rfl⟩ := (taken_of_takeAt ht).frame
    exact .still rfl rfl rfl
  | importLegacy => exact .still rfl rfl rfl
  | migrate => exact .still rfl rfl rfl
  | note event => exact .still rfl rfl rfl

/-- A sequence of moves is one drift. -/
theorem Moves.drift {ledger ledger' : Ledger} {more : Imbalance} {events : Event.Log}
    (h : Moves ledger more events ledger') : Drift ledger ledger' := by
  induction h with
  | refl => exact .still rfl rfl rfl
  | step h _ ih => exact h.drift.trans ih

/-! ### Roots -/

/-- The total of roots beyond those of the accounts. -/
def Ledger.rootsLoose (ledger : Ledger) : ℤ :=
  ledger.totals.roots.toNat - ledger.accounts.sum fun _ account => account.roots.toNat

namespace Ledger

variable {ledger : Ledger} {id : AccountId}

/-- A record that is entered changes the loose roots by the roots it has less, -/
theorem rootsLoose_withAccount (ledger : Ledger) (id : AccountId) (account : Account) :
    (ledger.withAccount id account).rootsLoose = ledger.rootsLoose +
      ((ledger.account id).roots.toNat - account.roots.toNat) := by
  have hsum := ledger.sum_withAccount id account (f := fun a => a.roots.toNat) rfl
  rw [rootsLoose, hsum, rootsLoose]
  show (ledger.totals.roots.toNat : ℤ) - _ = _
  ring

/-- so that a credit ties roots down, -/
theorem rootsLoose_creditStalk {stalk roots : Amount} {out : Outcome Unit}
    (h : Action.creditStalk id stalk roots ledger = .ok out) :
    out.ledger.rootsLoose = ledger.rootsLoose - roots.toNat := by
  obtain ⟨_, held, _, -, hr, rfl⟩ := Action.creditStalk_spec h
  refine (rootsLoose_withAccount ..).trans ?_
  rw [hr]
  push_cast
  ring

/-- and a debit sets them loose. -/
theorem rootsLoose_debitStalk {stalk roots : Amount} {out : Outcome Unit}
    (h : Action.debitStalk id stalk roots ledger = .ok out) :
    out.ledger.rootsLoose = ledger.rootsLoose + roots.toNat := by
  obtain ⟨_, held, _, -, hr, rfl⟩ := Action.debitStalk_spec h
  refine (rootsLoose_withAccount ..).trans ?_
  rw [← hr]
  push_cast
  ring

/-- A change of an account that leaves its roots alone. -/
theorem rootsLoose_withSame {account : Account} (h : account.roots = (ledger.account id).roots) :
    (ledger.withAccount id account).rootsLoose = ledger.rootsLoose := by
  rw [rootsLoose_withAccount, h, sub_self, add_zero]

end Ledger

/-- Moves keep the total of roots that of the accounts. -/
theorem Move.rootsLoose {ledger ledger' : Ledger} {more : Imbalance} {events : Event.Log}
    (h : Move ledger more events ledger') : ledger'.rootsLoose = ledger.rootsLoose := by
  cases h with
  | update h =>
    rcases updateAccount_eq_ok.mp h with ⟨-, rfl⟩ | ⟨-, flood, -, rfl⟩
    · exact rootsLoose_withSame rfl
    · exact rootsLoose_withSame rfl
  | realize hu he hg => exact rootsLoose_withSame rfl
  | mint hu hs h =>
    obtain ⟨_, totals, credited, -, ht, hc, rfl⟩ := (mintStalk_eq_ok hs).mp h
    obtain ⟨-, hroots, -⟩ := Totals.credit_eq_ok.mp ht
    rw [rootsLoose_creditStalk hc, Ledger.rootsLoose, hroots, Ledger.rootsLoose]
    push_cast
    ring
  | burn hu hs h =>
    obtain ⟨_, totals, debited, -, ht, hd, rfl⟩ := (burnStalk_eq_ok hs).mp h
    obtain ⟨-, hroots, -⟩ := Totals.debit_eq_ok.mp ht
    rw [rootsLoose_debitStalk hd, Ledger.rootsLoose, Ledger.rootsLoose, ← hroots]
    push_cast
    ring
  | handOver hu hu' hs h =>
    obtain ⟨_, debited, credited, -, hd, hc, rfl⟩ := (transferStalk_eq_ok hs).mp h
    rw [rootsLoose_creditStalk hc, rootsLoose_debitStalk hd, add_sub_cancel_right]
  | credit hu h =>
    rw [rootsLoose_creditStalk h, Unsigned.toNat_zero, Nat.cast_zero, sub_zero]
  | drawPool h => rfl
  | book hc h =>
    obtain ⟨held, -, rfl⟩ := creditValue_eq_ok.mp h
    exact rootsLoose_withSame rfl
  | unbook hc h =>
    obtain ⟨held, -, rfl⟩ := debitValue_eq_ok.mp h
    exact rootsLoose_withSame rfl
  | enter hi h =>
    obtain ⟨deposits, entry, entry', -, -, -, -, -, -, rfl⟩ := addPositionAt_eq_ok.mp h
    rfl
  | remove ha h =>
    obtain ⟨value, taken, entry, entry', -, -, ht, -, rfl⟩ := (removePosition_eq_ok ha).mp h
    obtain ⟨deposits, legacyDeposits, rfl⟩ := (taken_of_takeAt ht).frame
    rfl
  | importLegacy => rfl
  | migrate => rfl
  | note event => rfl

/-- Moves set no roots loose. -/
theorem Moves.rootsLoose {ledger ledger' : Ledger} {more : Imbalance} {events : Event.Log}
    (h : Moves ledger more events ledger') : ledger'.rootsLoose = ledger.rootsLoose := by
  induction h with
  | refl => rfl
  | step h _ ih => exact ih.trans h.rootsLoose

end StalkLedger
