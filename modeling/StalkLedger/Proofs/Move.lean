import Mathlib.Algebra.Group.Pi.Lemmas
import Mathlib.Algebra.Group.Prod
import StalkLedger.Proofs.Holdings

/-!
# Moves

Between two reports of the clock, whatever an account does is a sequence of *moves*: it is updated,
realized, credited or debited, and positions come and go.  Each move alone leaves the books in
disagreement; together they do not.  So a move is labelled with the *imbalance* it adds
(`Imbalance`), and a sequence of moves with the sum (`Moves`).

Moves leave the clock, the charter and the terms of the assets alone, and accounts that are updated
or current stay so (`Moves.keeps`).
-/

namespace StalkLedger

namespace Ledger

/-! ### Accounts in order -/

/-- The account is there and has been updated in this epoch. -/
def Updated (ledger : Ledger) (id : AccountId) : Prop :=
  ∃ account, ledger.accounts.get? id = some account ∧ ledger.epoch ≤ account.lastUpdate

/-- The account has been updated, and its checkpoint in the asset is at the tip. -/
def Current (ledger : Ledger) (id : AccountId) (asset : AssetId) : Prop :=
  ∃ account checkpoint entry, ledger.accounts.get? id = some account ∧
    ledger.epoch ≤ account.lastUpdate ∧ account.checkpoints.get? asset = some checkpoint ∧
      ledger.assets.get? asset = some entry ∧ checkpoint.lastIndex = entry.accrualIndex

/-- A current account is up to date. -/
theorem Current.updated {ledger : Ledger} {id : AccountId} {asset : AssetId}
    (h : ledger.Current id asset) : ledger.Updated id := by
  obtain ⟨account, _, _, ha, hl, _⟩ := h
  exact ⟨account, ha, hl⟩

/-- The record of an account is read if there is one. -/
theorem account_of_get? {ledger : Ledger} {id : AccountId} {account : Account}
    (h : ledger.accounts.get? id = some account) : ledger.account id = account := by
  rw [Ledger.account, h, Option.getD_some]

theorem Updated.le {ledger : Ledger} {id : AccountId} (h : ledger.Updated id) :
    ledger.epoch ≤ (ledger.account id).lastUpdate := by
  obtain ⟨account, ha, hl⟩ := h
  rwa [account_of_get? ha]

/-- What the check of an account looks for. -/
theorem requireCurrent_eq_ok {ledger : Ledger} {id : AccountId} {asset : AssetId} :
    ledger.requireCurrent id asset = .ok () ↔ ledger.Current id asset := by
  have hrealized {i : Index} : ledger.realizedIndex id asset = some i ↔
      ∃ account checkpoint, ledger.accounts.get? id = some account ∧
        ledger.epoch ≤ account.lastUpdate ∧ account.checkpoints.get? asset = some checkpoint ∧
          checkpoint.lastIndex = i := by
    unfold realizedIndex
    cases ledger.accounts.get? id with
    | none => exact ⟨nofun, fun ⟨_, _, h, _⟩ => nomatch h⟩
    | some account =>
      by_cases hle : ledger.epoch ≤ account.lastUpdate
      · simp only [if_pos hle, Option.map_eq_some_iff]
        exact ⟨fun ⟨c, hc, hi⟩ => ⟨account, c, rfl, hle, hc, hi⟩,
          fun ⟨_, c, e, _, hc, hi⟩ => ⟨c, by cases e; exact hc, hi⟩⟩
      · simp only [if_neg hle]
        exact ⟨nofun, fun ⟨_, _, e, h, _⟩ => by cases e; exact absurd h hle⟩
  unfold requireCurrent
  simp only [accrualIndex, bind_eq_ok, pure_eq_ok, asset_eq_ok]
  constructor
  · rintro ⟨_, ⟨entry, he, rfl⟩, h⟩
    split at h
    next hr =>
      obtain ⟨account, checkpoint, ha, hl, hc, hi⟩ := hrealized.mp hr
      exact ⟨account, checkpoint, entry, ha, hl, hc, he, hi⟩
    next => cases h
  · rintro ⟨account, checkpoint, entry, ha, hl, hc, he, hi⟩
    refine ⟨_, ⟨entry, he, rfl⟩, ?_⟩
    rw [if_pos (hrealized.mpr ⟨account, checkpoint, ha, hl, hc, hi⟩)]
    rfl

/-! ### What moves leave alone -/

/-- The clock and the terms are the same, and accounts that are in order stay so. -/
structure Keeps (ledger ledger' : Ledger) : Prop extends SameTerms ledger ledger' where
  epoch : ledger'.epoch = ledger.epoch
  updated : ∀ {id}, ledger.Updated id → ledger'.Updated id
  current : ∀ {id asset}, ledger.Current id asset → ledger'.Current id asset

namespace Keeps

variable {ledger ledger' ledger'' : Ledger}

theorem refl (ledger : Ledger) : Keeps ledger ledger := ⟨.refl ledger, rfl, id, id⟩

/-- Imbalances and events of sequences add up. -/
theorem trans (h : Keeps ledger ledger') (h' : Keeps ledger' ledger'') : Keeps ledger ledger'' :=
  ⟨h.toSameTerms.trans h'.toSameTerms, h'.epoch.trans h.epoch, fun hu => h'.updated (h.updated hu),
    fun hc => h'.current (h.current hc)⟩

/-- A change that leaves the accounts alone. -/
theorem of_accounts_eq (ht : SameTerms ledger ledger') (he : ledger'.epoch = ledger.epoch)
    (ha : ledger'.accounts = ledger.accounts) : Keeps ledger ledger' := by
  refine ⟨ht, he, ?_, ?_⟩
  · rintro id ⟨account, h, hl⟩
    exact ⟨account, ha ▸ h, he ▸ hl⟩
  · rintro id asset ⟨account, checkpoint, entry, h, hl, hc, hentry, hi⟩
    obtain ⟨entry', hentry', hs⟩ := ht.entry hentry
    exact ⟨account, checkpoint, entry', ha ▸ h, he ▸ hl, hc, hentry',
      hi.trans (congrArg Asset.accrualIndex hs).symm⟩

/-- A change of an account that takes back neither its update nor a checkpoint at the tip. -/
theorem withAccount {id : AccountId} {account : Account}
    (hl : (ledger.account id).lastUpdate ≤ account.lastUpdate)
    (hc : ∀ {asset checkpoint entry},
      (ledger.account id).checkpoints.get? asset = some checkpoint →
        ledger.assets.get? asset = some entry → checkpoint.lastIndex = entry.accrualIndex →
          ∃ checkpoint', account.checkpoints.get? asset = some checkpoint' ∧
            checkpoint'.lastIndex = entry.accrualIndex) :
    Keeps ledger (ledger.withAccount id account) := by
  refine ⟨⟨rfl, fun _ => rfl⟩, rfl, ?_, ?_⟩
  · rintro id' ⟨account', ha, hu⟩
    by_cases hid : id' = id
    · subst hid
      rw [account_of_get? ha] at hl
      exact ⟨account, SortedMap.get?_insert_self .., Nat.le_trans hu hl⟩
    · exact ⟨account', (SortedMap.get?_insert_of_ne _ hid _).trans ha, hu⟩
  · rintro id' asset ⟨account', checkpoint, entry, ha, hu, hcheck, hentry, hi⟩
    by_cases hid : id' = id
    · subst hid
      rw [account_of_get? ha] at hl hc
      obtain ⟨checkpoint', hcheck', hi'⟩ := hc hcheck hentry hi
      exact ⟨account, checkpoint', entry, SortedMap.get?_insert_self .., Nat.le_trans hu hl, hcheck',
        hentry, hi'⟩
    · exact ⟨account', checkpoint, entry, (SortedMap.get?_insert_of_ne _ hid _).trans ha, hu, hcheck,
        hentry, hi⟩

/-- A change of a checkpoint that leaves it at its index, or puts it at the tip. -/
theorem withCheckpoint {id : AccountId} {asset : AssetId} {checkpoint : Checkpoint}
    (hi : checkpoint.lastIndex = ((ledger.account id).checkpoint asset).lastIndex ∨
      ∃ entry, ledger.assets.get? asset = some entry ∧
        checkpoint.lastIndex = entry.accrualIndex) :
    Keeps ledger (ledger.withAccount id ((ledger.account id).withCheckpoint asset checkpoint)) := by
  refine withAccount (Nat.le_refl _) ?_
  intro asset' checkpoint' entry hc he hlast
  by_cases hasset : asset' = asset
  · subst hasset
    refine ⟨checkpoint, SortedMap.get?_insert_self .., ?_⟩
    rcases hi with hi | ⟨entry', he', hi⟩
    · rw [hi, Account.checkpoint, hc]
      exact hlast
    · rw [hi, Option.some.inj (he'.symm.trans he)]
  · exact ⟨checkpoint', (SortedMap.get?_insert_of_ne _ hasset _).trans hc, hlast⟩

/-- A change of an account that leaves its update and its checkpoints as they are. -/
theorem withBalances {id : AccountId} {account : Account}
    (hl : (ledger.account id).lastUpdate ≤ account.lastUpdate)
    (hc : account.checkpoints = (ledger.account id).checkpoints) :
    Keeps ledger (ledger.withAccount id account) :=
  withAccount hl fun h _ hi => ⟨_, hc ▸ h, hi⟩

end Keeps

end Ledger

/-! ### Imbalances -/

/-- By how much the books of a ledger disagree: for each account, the stalk beyond what its positions
back; for each account and asset, the value booked beyond that of its positions; and the total of
stalk beyond that of the accounts and of the earned pool. -/
abbrev Imbalance := (AccountId → ℤ) × (AccountId × AssetId → ℤ) × ℤ

namespace Imbalance

/-- An account has stalk that no position backs. -/
def due (id : AccountId) (stalk : ℤ) : Imbalance := (Pi.single id stalk, 0, 0)

/-- An account has value booked in an asset that no position has. -/
def unbooked (id : AccountId) (asset : AssetId) (value : ℤ) : Imbalance :=
  (0, Pi.single (id, asset) value, 0)

/-- The total counts stalk that is in no account and in no pool. -/
def unpooled (stalk : ℤ) : Imbalance := (0, 0, stalk)

end Imbalance

open StalkLedger.Action Imbalance

/-! ### Moves -/

/-- A single move, with the imbalance it adds and the events it records. -/
inductive Move : Ledger → Imbalance → Event.Log → Ledger → Prop
  /-- An account is updated. -/
  | update {ledger id out} (h : updateAccount id ledger = .ok out) :
      Move ledger 0 ∅ out.ledger
  /-- The checkpoint of an account moves to the tip. -/
  | realize {ledger : Ledger} {id asset entry grown} (hu : ledger.Updated id)
      (he : ledger.asset asset = .ok entry)
      (hg : grownReward entry.accrualIndex ((ledger.account id).checkpoint asset).lastIndex
        ((ledger.account id).checkpoint asset).value = .ok grown) :
      Move ledger (due id (-grown.toNat)) ∅
        (ledger.withAccount id ((ledger.account id).withCheckpoint asset
          { (ledger.account id).checkpoint asset with lastIndex := entry.accrualIndex }))
  /-- An account is given new stalk. -/
  | mint {ledger : Ledger} {id stalk out} (hu : ledger.Updated id) (hs : stalk ≠ 0)
      (h : mintStalk id stalk ledger = .ok out) :
      Move ledger (due id stalk.toNat) out.events out.ledger
  /-- Stalk of an account is burned. -/
  | burn {ledger : Ledger} {id stalk out} (hu : ledger.Updated id) (hs : stalk ≠ 0)
      (h : burnStalk id stalk ledger = .ok out) :
      Move ledger (due id (-stalk.toNat)) out.events out.ledger
  /-- Stalk goes from one account to another. -/
  | handOver {ledger : Ledger} {sender recipient stalk out} (hu : ledger.Updated sender)
      (hu' : ledger.Updated recipient) (hs : stalk ≠ 0)
      (h : transferStalk sender recipient stalk ledger = .ok out) :
      Move ledger (due sender (-stalk.toNat) + due recipient stalk.toNat) out.events out.ledger
  /-- An account is given stalk that the total has counted before. -/
  | credit {ledger : Ledger} {id stalk out} (hu : ledger.Updated id)
      (h : creditStalk id stalk 0 ledger = .ok out) :
      Move ledger (due id stalk.toNat + unpooled (-stalk.toNat)) out.events out.ledger
  /-- Some of the earned pool is drawn. -/
  | drawPool {ledger : Ledger} {quantity pool : Amount}
      (h : pool.toNat + quantity.toNat = ledger.totals.earnedPool.toNat) :
      Move ledger (unpooled (quantity.toNat * ledger.stalkPerValue ledger.charter.baseAsset)) ∅
        { ledger with totals := { ledger.totals with earnedPool := pool } }
  /-- Value is booked for an account. -/
  | book {ledger : Ledger} {id asset value out} (hc : ledger.Current id asset)
      (h : creditValue id asset value ledger = .ok out) :
      Move ledger (due id (-(ledger.stalkPerValue asset + ledger.tip asset) * value.toNat) +
        unbooked id asset value.toNat) ∅ out.ledger
  /-- Value is no longer booked for an account. -/
  | unbook {ledger : Ledger} {id asset value out} (hc : ledger.Current id asset)
      (h : debitValue id asset value ledger = .ok out) :
      Move ledger (due id ((ledger.stalkPerValue asset + ledger.tip asset) * value.toNat) +
        unbooked id asset (-value.toNat)) ∅ out.ledger
  /-- A position is entered, no further than the tip. -/
  | enter {ledger : Ledger} {slot position out} (hi : slot.mark.toInt ≤ ledger.tip slot.asset)
      (h : addPositionAt slot position ledger = .ok out) :
      Move ledger (due slot.owner (slot.mark.toInt * position.value.toNat) +
        unbooked slot.owner slot.asset (-position.value.toNat)) out.events out.ledger
  /-- Something is removed at an index. -/
  | remove {ledger : Ledger} {slot amount out} (ha : amount ≠ 0)
      (h : removePosition slot amount ledger = .ok out) :
      Move ledger (due slot.owner (-(slot.mark.toInt * out.result.toNat)) +
        unbooked slot.owner slot.asset out.result.toNat) out.events out.ledger
  /-- A position is entered under a legacy epoch. -/
  | importLegacy {ledger : Ledger} {owner asset epoch terms entry entry' legacyDeposits}
      {index : Index} {position : Position} (hc : ledger.Current owner asset)
      (hr : ledger.charter.isLegacy epoch = true) (ht : ledger.legacyTerms asset = .ok terms)
      (hi : terms.indexOf ledger.charter epoch = .ok index) (hq : position.quantity ≠ 0)
      (hv : position.value ≠ 0)
      (hp : ledger.legacyDeposits.put ⟨owner, asset, epoch⟩ position = .ok legacyDeposits)
      (he : ledger.asset asset = .ok entry) (he' : entry.take position = .ok entry') :
      Move ledger (due owner (index.toInt * position.value.toNat) +
        unbooked owner asset (-position.value.toNat)) ∅
        ({ ledger with legacyDeposits }.withAsset asset entry')
  /-- A legacy position moves to the current store. -/
  | migrate {ledger : Ledger} {owner asset epoch terms deposits} {index : Index}
      {position : Position} (hc : ledger.Current owner asset)
      (hr : ledger.charter.isLegacy epoch = true) (ht : ledger.legacyTerms asset = .ok terms)
      (hi : terms.indexOf ledger.charter epoch = .ok index)
      (hg : ledger.legacyDeposits.get? ⟨owner, asset, epoch⟩ = some position)
      (hp : ledger.deposits.put ⟨owner, asset, index⟩ position = .ok deposits) :
      Move ledger 0 ⟨[.legacyPositionMigrated owner asset epoch index position.quantity
        position.value ledger.epoch]⟩
        { ledger with
          deposits
          legacyDeposits := ledger.legacyDeposits.erase ⟨owner, asset, epoch⟩ }
  /-- Something is recorded. -/
  | note {ledger : Ledger} (event : Epoch → Event) : Move ledger 0 ⟨[event ledger.epoch]⟩ ledger

/-! ### Moves keep the terms -/

namespace Ledger.Keeps

variable {ledger : Ledger}

/-- A change of the totals. -/
theorem withTotals (ledger : Ledger) (totals : Totals) : Keeps ledger { ledger with totals } :=
  of_accounts_eq ⟨rfl, fun _ => rfl⟩ rfl rfl

/-- Stalk that is credited leaves updates and checkpoints as they are, -/
theorem creditStalk {id : AccountId} {stalk roots : Amount} {out : Outcome Unit}
    (h : Action.creditStalk id stalk roots ledger = .ok out) : Keeps ledger out.ledger := by
  obtain ⟨_, _, _, -, -, rfl⟩ := creditStalk_spec h
  exact withBalances (Nat.le_refl _) rfl

/-- stalk that is taken off does, -/
theorem debitStalk {id : AccountId} {stalk roots : Amount} {out : Outcome Unit}
    (h : Action.debitStalk id stalk roots ledger = .ok out) : Keeps ledger out.ledger := by
  obtain ⟨_, _, _, -, -, rfl⟩ := debitStalk_spec h
  exact withBalances (Nat.le_refl _) rfl

/-- and so does a position that is added. -/
theorem addPositionAt {slot : Slot Index} {position : Position} {out : Outcome Unit}
    (h : Action.addPositionAt slot position ledger = .ok out) : Keeps ledger out.ledger := by
  obtain ⟨deposits, entry, entry', -, -, -, -, he, ht, rfl⟩ := addPositionAt_eq_ok.mp h
  obtain ⟨_, _, -, -, rfl⟩ := Asset.take_eq_ok.mp ht
  exact of_accounts_eq (SameTerms.of_insert rfl rfl he rfl) rfl rfl

end Ledger.Keeps

open Ledger (Keeps SameTerms) in
/-- **What a move leaves alone.** -/
theorem Move.keeps {ledger ledger' : Ledger} {more : Imbalance} {events : Event.Log}
    (h : Move ledger more events ledger') : Keeps ledger ledger' := by
  cases h with
  | update h =>
    rcases updateAccount_eq_ok.mp h with ⟨-, rfl⟩ | ⟨hlt, flood, -, rfl⟩
    · exact .withBalances (Nat.le_refl _) rfl
    · exact .withBalances (Nat.le_of_lt hlt) rfl
  | realize hu he hg => exact .withCheckpoint (.inr ⟨_, Ledger.asset_eq_ok.mp he, rfl⟩)
  | mint hu hs h =>
    obtain ⟨_, totals, credited, -, -, hc, rfl⟩ := (mintStalk_eq_ok hs).mp h
    exact (Keeps.withTotals _ totals).trans (.creditStalk hc)
  | burn hu hs h =>
    obtain ⟨_, totals, debited, -, -, hd, rfl⟩ := (burnStalk_eq_ok hs).mp h
    exact (Keeps.withTotals _ totals).trans (.debitStalk hd)
  | handOver hu hu' hs h =>
    obtain ⟨_, debited, credited, -, hd, hc, rfl⟩ := (transferStalk_eq_ok hs).mp h
    exact (Keeps.debitStalk hd).trans (.creditStalk hc)
  | credit hu h => exact .creditStalk h
  | drawPool h => exact .withTotals _ _
  | book hc h =>
    obtain ⟨held, -, rfl⟩ := creditValue_eq_ok.mp h
    exact .withCheckpoint (.inl rfl)
  | unbook hc h =>
    obtain ⟨held, -, rfl⟩ := debitValue_eq_ok.mp h
    exact .withCheckpoint (.inl rfl)
  | enter hi h => exact .addPositionAt h
  | remove ha h =>
    obtain ⟨value, taken, entry, entry', -, he, ht, hr, rfl⟩ := (removePosition_eq_ok ha).mp h
    obtain ⟨_, _, -, -, rfl⟩ := Asset.release_eq_ok.mp hr
    -- Whichever stores were drawn on, the assets are those of the ledger before.
    obtain ⟨deposits, legacyDeposits, rfl⟩ := (Ledger.taken_of_takeAt ht).frame
    exact .of_accounts_eq (SameTerms.of_insert rfl rfl he rfl) rfl rfl
  | importLegacy hc hr ht hi hq hv hp he he' =>
    obtain ⟨_, _, -, -, rfl⟩ := Asset.take_eq_ok.mp he'
    exact .of_accounts_eq (SameTerms.of_insert rfl rfl he rfl) rfl rfl
  | migrate hc hr ht hi hg hp => exact .of_accounts_eq ⟨rfl, fun _ => rfl⟩ rfl rfl
  | note event => exact .refl _

/-- Moves one after the other: their imbalances add up, and their events follow each other. -/
inductive Moves : Ledger → Imbalance → Event.Log → Ledger → Prop
  | refl {ledger : Ledger} : Moves ledger 0 ∅ ledger
  | step {ledger ledger' ledger'' : Ledger} {more rest : Imbalance} {events events' : Event.Log}
      (h : Move ledger more events ledger') (t : Moves ledger' rest events' ledger'') :
      Moves ledger (more + rest) (events ++ events') ledger''

namespace Moves

variable {ledger ledger' ledger'' : Ledger} {more rest : Imbalance} {events events' : Event.Log}

/-- One move is a sequence of moves. -/
theorem single (h : Move ledger more events ledger') : Moves ledger more events ledger' := by
  have := step h refl
  rwa [add_zero, Event.Log.append_empty] at this

theorem trans (h : Moves ledger more events ledger') (h' : Moves ledger' rest events' ledger'') :
    Moves ledger (more + rest) (events ++ events') ledger'' := by
  induction h with
  | refl =>
    rw [zero_add, Event.Log.empty_append]
    exact h'
  | step h _ ih =>
    rw [add_assoc, Event.Log.append_assoc]
    exact step h (ih h')

/-- A sequence of moves leaves the same alone. -/
theorem keeps (h : Moves ledger more events ledger') : Ledger.Keeps ledger ledger' := by
  induction h with
  | refl => exact .refl _
  | step h _ ih => exact h.keeps.trans ih

/-- Moves whose imbalances cancel. -/
theorem of_eq (h : Moves ledger more events ledger') (he : more = rest) :
    Moves ledger rest events ledger' := he ▸ h

end Moves

end StalkLedger
