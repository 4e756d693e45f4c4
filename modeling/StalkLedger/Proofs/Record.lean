import Mathlib.Algebra.BigOperators.Group.List.Basic
import StalkLedger.Proofs.Balance

/-!
# What the events tell

Whoever follows the events without reading the ledger keeps books of its own.  An event adds to these
books (`Event.books`): a position that was added or imported counts under its index, a removal counts
against it, and so on.  Some events also tell a state outright, and the latest of them counts
(`Event.read`).

What some change of the ledger has left unsaid is the difference (`Told`): what the books of the
ledger have gained beyond what the events of the change add up to.  Changes that follow each other add
up (`Told.trans`).  The elementary actions leave nothing unsaid but what an event recorded later by
the same flow tells.
-/

namespace StalkLedger

/-! ### Books -/

/-- The books that can be kept from the events. -/
inductive Book
  /-- The quantity that an owner holds in an asset at an index. -/
  | quantity (place : Slot Index)
  | value (place : Slot Index)
  | stalk (id : AccountId)
  | roots (id : AccountId)
  | earnedPool
  /-- What has been paid in for floods. -/
  | floodPaid
  /-- What has been claimed of that. -/
  | floodClaimed
deriving DecidableEq

/-- A balance in every book. -/
abbrev Books := Book → ℤ

namespace Books

/-- Quantity and value at one place. -/
def position (place : Slot Index) (quantity value : ℤ) : Books :=
  Pi.single (.quantity place) quantity + Pi.single (.value place) value

/-- Stalk and roots of one account. -/
def balances (id : AccountId) (stalk roots : ℤ) : Books :=
  Pi.single (.stalk id) stalk + Pi.single (.roots id) roots

/-- What has been paid in for floods, and what has been claimed. -/
def floods (paid claimed : ℤ) : Books := Pi.single .floodPaid paid + Pi.single .floodClaimed claimed

/-- A change of nothing is nothing in the books. -/
theorem balances_zero (id : AccountId) : balances id 0 0 = 0 := by
  rw [balances, Pi.single_zero, Pi.single_zero, add_zero]

theorem floods_zero : floods 0 0 = 0 := by
  rw [floods, Pi.single_zero, Pi.single_zero, add_zero]

theorem floods_floodPaid (paid claimed : ℤ) : floods paid claimed .floodPaid = paid := by
  simp [floods]

theorem floods_floodClaimed (paid claimed : ℤ) : floods paid claimed .floodClaimed = claimed := by
  simp [floods]

/-- Payouts and claims are in no other book. -/
theorem floods_of_ne (paid claimed : ℤ) {book : Book} (hpaid : book ≠ .floodPaid)
    (hclaimed : book ≠ .floodClaimed) : floods paid claimed book = 0 := by
  rw [floods, Pi.add_apply, Pi.single_eq_of_ne hpaid, Pi.single_eq_of_ne hclaimed, add_zero]

/-- Payouts and claims add up. -/
theorem floods_add (paid paid' claimed claimed' : ℤ) :
    floods paid claimed + floods paid' claimed' = floods (paid + paid') (claimed + claimed') := by
  rw [floods, floods, floods, Pi.single_add, Pi.single_add, add_add_add_comm]

end Books

/-- A state that an event may tell. -/
inductive Reading
  /-- The stalk and the roots of an account. -/
  | balances (id : AccountId)
  | payoutPerRoot
  /-- The flood that is on. -/
  | flood
deriving DecidableEq

/-- What is told of a state. -/
abbrev Reading.Value : Reading → Type
  | .balances _ => Amount × Amount
  | .payoutPerRoot => Amount
  | .flood => Option Epoch

/-- What is read before anything has been told. -/
def Reading.initial : (reading : Reading) → reading.Value
  | .balances _ => (0, 0)
  | .payoutPerRoot => 0
  | .flood => none

namespace Event

/-- What an event adds to the books. -/
def books : Event → Books
  | positionAdded _ owner asset index quantity value _
  | legacyPositionImported owner asset _ index quantity value _ =>
    .position ⟨owner, asset, index⟩ quantity.toNat value.toNat
  | positionRemoved _ owner asset index quantity value _ =>
    .position ⟨owner, asset, index⟩ (-quantity.toNat) (-value.toNat)
  | stalkChanged id stalkDelta rootsDelta _ _ _ =>
    .balances id stalkDelta.toInt rootsDelta.toInt
  | earnedRewardReceived amount _ _ => Pi.single .earnedPool amount.toNat
  | planted _ _ quantity _ _ => Pi.single .earnedPool (-quantity.toNat)
  | floodPaid _ amount _ _ => .floods amount.toNat 0
  | floodPayoutClaimed _ _ amount _ => .floods 0 amount.toNat
  | _ => 0

/-- The state after an event, if the event tells it. -/
def read (event : Event) (reading : Reading) : Option reading.Value :=
  match reading, event with
  | .balances id, stalkChanged account _ _ stalk roots _ =>
    if id = account then some (stalk, roots) else none
  | .payoutPerRoot, floodPaid _ _ payoutPerRoot _ => some payoutPerRoot
  | .flood, floodStarted _ epoch => some (some epoch)
  | .flood, floodEnded _ _ => some none
  | _, _ => none

/-- Whether an event tells no state. -/
def silent : Event → Bool
  | stalkChanged .. | floodStarted .. | floodPaid .. | floodEnded .. => false
  | _ => true

/-- Nothing is read off a silent event. -/
theorem read_of_silent {event : Event} (h : event.silent = true) (reading : Reading) :
    event.read reading = none := by
  cases event with
  | stalkChanged | floodStarted | floodPaid | floodEnded => cases h
  | _ => cases reading <;> rfl

namespace Log

/-- What the events of a log add to the books. -/
def books (log : Log) : Books := (log.events.map Event.books).sum

/-- The state after the latest event that tells it; without one, the state before. -/
def latest (log : Log) (reading : Reading) (before : reading.Value) : reading.Value :=
  (log.events.filterMap (·.read reading)).getLast?.getD before

@[simp] theorem books_empty : books ∅ = 0 := rfl

@[simp] theorem books_singleton (event : Event) : books ⟨[event]⟩ = event.books :=
  List.sum_singleton

@[simp] theorem books_append (a b : Log) : books (a ++ b) = a.books + b.books := by
  rw [books, events_append, List.map_append, List.sum_append, books, books]

/-- The latest reading of two logs is that of the second, where it has one. -/
theorem latest_append (a b : Log) (reading : Reading) (before : reading.Value) :
    latest (a ++ b) reading before = b.latest reading (a.latest reading before) := by
  unfold latest
  rw [events_append, List.filterMap_append, List.getLast?_append]
  cases (b.events.filterMap (·.read reading)).getLast? <;> rfl

theorem latest_singleton (event : Event) (reading : Reading) (before : reading.Value) :
    latest ⟨[event]⟩ reading before = (event.read reading).getD before := by
  unfold latest
  rw [List.filterMap_cons]
  cases event.read reading <;> rfl

end Log

end Event

namespace Ledger

/-- Positions count at one place only. -/
def onlyAt (place : Slot Index) (weight : ℤ × ℤ) : Weight := fun owner asset index =>
  if owner = place.owner ∧ asset = place.asset ∧ index = place.mark.toInt then weight else 0

/-- The books of a ledger; a legacy position counts at the index that its epoch stands for. -/
def books (ledger : Ledger) : Books
  | .quantity place => ledger.holdings (onlyAt place (1, 0))
  | .value place => ledger.holdings (onlyAt place (0, 1))
  | .stalk id => (ledger.account id).stalk.toNat
  | .roots id => (ledger.account id).roots.toNat
  | .earnedPool => ledger.totals.earnedPool.toNat
  | .floodPaid => ledger.floodBook.totalPaid.toNat
  | .floodClaimed => ledger.floodBook.totalClaimed.toNat

/-- The state of a ledger. -/
def read (ledger : Ledger) : (reading : Reading) → reading.Value
  | .balances id => ((ledger.account id).stalk, (ledger.account id).roots)
  | .payoutPerRoot => ledger.floodBook.payoutPerRoot
  | .flood => ledger.floodBook.active

/-- A slot counts if it is the one. -/
theorem onlyAt_slot (place slot : Slot Index) (weight : ℤ × ℤ) :
    onlyAt place weight slot.owner slot.asset slot.mark.toInt =
      if place = slot then weight else 0 := by
  refine if_congr ⟨?_, ?_⟩ rfl rfl
  · rintro ⟨ho, ha, hi⟩
    obtain ⟨owner, asset, index⟩ := place
    obtain rfl := Signed.ext hi
    obtain rfl := ho
    obtain rfl := ha
    rfl
  · rintro rfl
    exact ⟨rfl, rfl, rfl⟩

theorem read_balances (ledger : Ledger) (id : AccountId) :
    ledger.read (.balances id) = ((ledger.account id).stalk, (ledger.account id).roots) := rfl

variable {ledger ledger' : Ledger}

/-! ### Changes of the books -/

/-- More at one place. -/
theorem books_of_gains {place : Slot Index} {quantity value : ℤ}
    (h : Gains ledger ledger' place.owner place.asset place.mark.toInt quantity value)
    (haccounts : ledger'.accounts = ledger.accounts) (htotals : ledger'.totals = ledger.totals)
    (hflood : ledger'.floodBook = ledger.floodBook) :
    ledger'.books = ledger.books + .position place quantity value := by
  have haccount := account_congr haccounts
  funext book
  cases book with
  | quantity place' | value place' =>
    by_cases heq : place' = place <;> simp [books, h _, onlyAt_slot, Books.position, heq]
  | stalk id | roots id => simp [books, haccount, Books.position]
  | earnedPool => simp [books, htotals, Books.position]
  | floodPaid | floodClaimed => simp [books, hflood, Books.position]

/-- Positions that count the same at every place, and all else the same. -/
theorem books_congr (h : ∀ weight, ledger'.holdings weight = ledger.holdings weight)
    (haccounts : ledger'.accounts = ledger.accounts)
    (hpool : ledger'.totals.earnedPool = ledger.totals.earnedPool)
    (hflood : ledger'.floodBook = ledger.floodBook) : ledger'.books = ledger.books := by
  have haccount := account_congr haccounts
  funext book
  cases book with
  | quantity place | value place => exact h _
  | stalk id | roots id => rw [books, haccount, books]
  | earnedPool => rw [books, hpool, books]
  | floodPaid | floodClaimed => rw [books, hflood, books]

/-- Another account in the place of an account. -/
theorem books_withAccount (ledger : Ledger) (id : AccountId) (account : Account) :
    (ledger.withAccount id account).books = ledger.books +
      .balances id (account.stalk.toNat - (ledger.account id).stalk.toNat)
        (account.roots.toNat - (ledger.account id).roots.toNat) := by
  funext book
  cases book with
  | stalk id' | roots id' =>
    by_cases heq : id' = id <;> simp [books, account_withAccount, Books.balances, heq]
  | quantity | value | earnedPool | floodPaid | floodClaimed => exact (add_zero _).symm

/-- Other totals. -/
theorem books_withTotals (ledger : Ledger) (totals : Totals) :
    { ledger with totals }.books = ledger.books +
      Pi.single .earnedPool ((totals.earnedPool.toNat : ℤ) - ledger.totals.earnedPool.toNat) := by
  funext book
  cases book with
  | earnedPool => simp [books]
  | quantity | value | stalk | roots | floodPaid | floodClaimed => exact (add_zero _).symm

/-- Another book of floods. -/
theorem books_withFloodBook (ledger : Ledger) {floodBook : FloodBook} {paid claimed : ℤ}
    (hpaid : (floodBook.totalPaid.toNat : ℤ) = ledger.floodBook.totalPaid.toNat + paid)
    (hclaimed : (floodBook.totalClaimed.toNat : ℤ) =
      ledger.floodBook.totalClaimed.toNat + claimed) :
    { ledger with floodBook }.books = ledger.books + .floods paid claimed := by
  funext book
  cases book with
  | floodPaid | floodClaimed => simp [books, Books.floods, hpaid, hclaimed]
  | quantity | value | stalk | roots | earnedPool => exact (add_zero _).symm

end Ledger

open Ledger

/-! ### What is left unsaid -/

/-- What a change of the ledger has left unsaid: its events tell what the books of the ledger have
gained, up to this; and they tell the states outright. -/
structure Told (ledger : Ledger) (untold : Books) (events : Event.Log) (ledger' : Ledger) :
    Prop where
  books : ledger'.books = ledger.books + events.books + untold
  latest : ∀ reading, ledger'.read reading = events.latest reading (ledger.read reading)

namespace Told

variable {ledger ledger' ledger'' : Ledger} {untold rest : Books} {events events' : Event.Log}

theorem refl (ledger : Ledger) : Told ledger 0 ∅ ledger :=
  ⟨by rw [Event.Log.books_empty, add_zero, add_zero], fun _ => rfl⟩

/-- **Changes that follow each other.** -/
theorem trans (h : Told ledger untold events ledger') (h' : Told ledger' rest events' ledger'') :
    Told ledger (untold + rest) (events ++ events') ledger'' where
  books := by
    rw [h'.books, h.books, Event.Log.books_append]
    abel
  latest reading := by rw [h'.latest, h.latest, Event.Log.latest_append]

/-- What is left unsaid may be told in another way. -/
theorem of_eq (h : Told ledger untold events ledger') (he : untold = rest) :
    Told ledger rest events ledger' := he ▸ h

/-- A change that leaves nothing unsaid comes first. -/
theorem next (h : Told ledger 0 events ledger') (h' : Told ledger' rest events' ledger'') :
    Told ledger rest (events ++ events') ledger'' :=
  (h.trans h').of_eq (zero_add rest)

/-- A change that records nothing. -/
theorem silent (hbooks : ledger'.books = ledger.books + untold)
    (hread : ∀ reading, ledger'.read reading = ledger.read reading) :
    Told ledger untold ∅ ledger' :=
  ⟨by rw [hbooks, Event.Log.books_empty, add_zero], hread⟩

/-- A change that records one event. -/
theorem of_event {event : Event} (hbooks : ledger'.books = ledger.books + event.books + untold)
    (hread : ∀ reading, ledger'.read reading = (event.read reading).getD (ledger.read reading)) :
    Told ledger untold ⟨[event]⟩ ledger' :=
  ⟨by rw [hbooks, Event.Log.books_singleton],
    fun reading => by rw [hread, Event.Log.latest_singleton]⟩

/-- An event alone says what is still to happen, or makes up for what was left unsaid. -/
theorem note {event : Event} (hbooks : event.books = untold) (hsilent : event.silent = true)
    (ledger : Ledger) : Told ledger (-untold) ⟨[event]⟩ ledger :=
  of_event (by rw [hbooks, add_neg_cancel_right]) fun reading => by
    rw [Event.read_of_silent hsilent, Option.getD_none]

/-- An event that tells what was left unsaid. -/
theorem noted {event : Event} (h : Told ledger untold events ledger')
    (hbooks : event.books = untold) (hsilent : event.silent = true) :
    Told ledger 0 (events ++ ⟨[event]⟩) ledger' :=
  (h.trans (note hbooks hsilent ledger')).of_eq (add_neg_cancel untold)

end Told

open StalkLedger.Action

variable {ledger : Ledger}

/-! ### Accounts -/

/-- A loss is recorded with a minus sign. -/
theorem Unsigned.toInt_of_loss {a : Amount} {i : Index} (h : a.loss = .ok i) :
    i.toInt = -a.toNat := by
  simp only [loss, bind_eq_ok, gain_eq_ok] at h
  obtain ⟨gained, hgained, hi⟩ := h
  rw [Signed.checked_eq_ok.mp hi, hgained]

/-- Another account with the same balances. -/
theorem Told.withBalances {id : AccountId} {account : Account}
    (hs : account.stalk = (ledger.account id).stalk)
    (hr : account.roots = (ledger.account id).roots) :
    Told ledger 0 ∅ (ledger.withAccount id account) := by
  refine silent ?_ fun reading => ?_
  · rw [books_withAccount, hs, hr, sub_self, sub_self, Books.balances_zero]
  · cases reading with
    | balances id' =>
      rw [read_balances, account_withAccount]
      split
      next heq => rw [hs, hr, heq, read_balances]
      next => rfl
    | payoutPerRoot | flood => rfl

/-- An account with other balances, and an event that tells them. -/
theorem Told.stalkChanged {id : AccountId} {account : Account} {stalkDelta rootsDelta : Index}
    (hs : stalkDelta.toInt = account.stalk.toNat - (ledger.account id).stalk.toNat)
    (hr : rootsDelta.toInt = account.roots.toNat - (ledger.account id).roots.toNat)
    (epoch : Epoch) :
    Told ledger 0 ⟨[.stalkChanged id stalkDelta rootsDelta account.stalk account.roots epoch]⟩
      (ledger.withAccount id account) := by
  refine of_event ?_ fun reading => ?_
  · rw [books_withAccount, Event.books, hs, hr, add_zero]
  · cases reading with
    | balances id' =>
      rw [read_balances, account_withAccount]
      dsimp only [Event.read]
      split <;> rfl
    | payoutPerRoot | flood => rfl

/-- A credit is told with its gain and the balances it leads to, -/
theorem creditStalk_told {id : AccountId} {stalk roots : Amount} {out : Outcome Unit}
    (h : creditStalk id stalk roots ledger = .ok out) : Told ledger 0 out.events out.ledger := by
  obtain ⟨account, stalkDelta, rootsDelta, ha, hs, hr, rfl⟩ := creditStalk_eq_ok.mp h
  obtain ⟨stalk', roots', hs', hr', rfl⟩ := Account.credit_eq_ok.mp ha
  refine .stalkChanged ?_ ?_ _
  · rw [Unsigned.gain_eq_ok.mp hs, hs', Nat.cast_add, add_sub_cancel_left]
  · rw [Unsigned.gain_eq_ok.mp hr, hr', Nat.cast_add, add_sub_cancel_left]

/-- and a debit with its loss. -/
theorem debitStalk_told {id : AccountId} {stalk roots : Amount} {out : Outcome Unit}
    (h : debitStalk id stalk roots ledger = .ok out) : Told ledger 0 out.events out.ledger := by
  obtain ⟨account, stalkDelta, rootsDelta, ha, hs, hr, rfl⟩ := debitStalk_eq_ok.mp h
  obtain ⟨stalk', roots', hs', hr', rfl⟩ := Account.debit_eq_ok.mp ha
  refine .stalkChanged ?_ ?_ _
  · rw [Unsigned.toInt_of_loss hs, ← hs', Nat.cast_add, sub_add_cancel_left]
  · rw [Unsigned.toInt_of_loss hr, ← hr', Nat.cast_add, sub_add_cancel_left]

/-- Other totals; only what the earned pool has gained is left unsaid. -/
theorem Told.withTotals (ledger : Ledger) (totals : Totals) :
    Told ledger
      (Pi.single .earnedPool ((totals.earnedPool.toNat : ℤ) - ledger.totals.earnedPool.toNat)) ∅
      { ledger with totals } :=
  silent (books_withTotals ledger totals) fun reading => by cases reading <;> rfl

/-- Totals with the same earned pool. -/
theorem Told.withPool (ledger : Ledger) {totals : Totals}
    (h : totals.earnedPool = ledger.totals.earnedPool) :
    Told ledger 0 ∅ { ledger with totals } :=
  (withTotals ledger totals).of_eq (by rw [h, sub_self, Pi.single_zero])

/-- What is minted is told by the credit, -/
theorem mintStalk_told {id : AccountId} {stalk : Amount} {out : Outcome Amount}
    (h : mintStalk id stalk ledger = .ok out) : Told ledger 0 out.events out.ledger := by
  by_cases hs : stalk = 0
  · subst hs
    cases h
    exact .refl ledger
  · obtain ⟨roots, totals, credited, -, ht, hc, rfl⟩ := (mintStalk_eq_ok hs).mp h
    obtain ⟨-, -, hpool⟩ := Totals.credit_eq_ok.mp ht
    exact (Told.withPool ledger hpool).next (creditStalk_told hc)

/-- and what is burned by the debit: the totals are not told apart from the accounts. -/
theorem burnStalk_told {id : AccountId} {stalk : Amount} {out : Outcome Amount}
    (h : burnStalk id stalk ledger = .ok out) : Told ledger 0 out.events out.ledger := by
  by_cases hs : stalk = 0
  · subst hs
    cases h
    exact .refl ledger
  · obtain ⟨roots, totals, debited, -, ht, hd, rfl⟩ := (burnStalk_eq_ok hs).mp h
    obtain ⟨-, -, hpool⟩ := Totals.debit_eq_ok.mp ht
    exact (Told.withPool ledger hpool).next (debitStalk_told hd)

/-- An account that hands stalk over to itself is told twice, and the second time it has it back. -/
theorem transferStalk_told {sender recipient : AccountId} {stalk : Amount} {out : Outcome Amount}
    (h : transferStalk sender recipient stalk ledger = .ok out) :
    Told ledger 0 out.events out.ledger := by
  by_cases hs : stalk = 0
  · subst hs
    cases h
    exact .refl ledger
  · obtain ⟨roots, debited, credited, -, hd, hc, rfl⟩ := (transferStalk_eq_ok hs).mp h
    exact (debitStalk_told hd).next (creditStalk_told hc)

/-- Bringing a flood balance up to date needs no event: no book counts what is still to be claimed.
-/
theorem updateAccount_told {id : AccountId} {out : Outcome Unit}
    (h : updateAccount id ledger = .ok out) : Told ledger 0 ∅ out.ledger := by
  rcases updateAccount_eq_ok.mp h with ⟨-, rfl⟩ | ⟨-, flood, -, rfl⟩
  · exact .withBalances rfl rfl
  · exact .withBalances rfl rfl

/-- Nor does value that is booked at a checkpoint, -/
theorem creditValue_told {id : AccountId} {asset : AssetId} {value : Amount} {out : Outcome Unit}
    (h : creditValue id asset value ledger = .ok out) : Told ledger 0 ∅ out.ledger := by
  obtain ⟨held, -, rfl⟩ := creditValue_eq_ok.mp h
  exact .withBalances rfl rfl

/-- or taken off there. -/
theorem debitValue_told {id : AccountId} {asset : AssetId} {value : Amount} {out : Outcome Unit}
    (h : debitValue id asset value ledger = .ok out) : Told ledger 0 ∅ out.ledger := by
  obtain ⟨held, -, rfl⟩ := debitValue_eq_ok.mp h
  exact .withBalances rfl rfl

/-- Growth is told by the stalk that is minted for it. -/
theorem creditGrowth_told {id : AccountId} {asset : AssetId} {out : Outcome Amount}
    (h : creditGrowth id asset ledger = .ok out) : Told ledger 0 out.events out.ledger := by
  obtain ⟨entry, grown, minted, -, -, hm, rfl⟩ := creditGrowth_spec h
  have hkept : Told ledger 0 ∅ (ledger.withAccount id ((ledger.account id).withCheckpoint asset
      { (ledger.account id).checkpoint asset with lastIndex := entry.accrualIndex })) :=
    .withBalances rfl rfl
  exact hkept.next (mintStalk_told hm)

/-- **Mowing** tells what it has minted. -/
theorem mow_told {id : AccountId} {asset : AssetId} {out : Outcome Amount}
    (h : mow id asset ledger = .ok out) : Told ledger 0 out.events out.ledger := by
  obtain ⟨updated, hupdate, hgrowth⟩ := mow_stages h
  exact (updateAccount_told hupdate).next (creditGrowth_told hgrowth)

/-! ### Positions -/

/-- States are those of the accounts and of the floods. -/
theorem Ledger.read_congr {ledger ledger' : Ledger} (haccounts : ledger'.accounts = ledger.accounts)
    (hflood : ledger'.floodBook = ledger.floodBook) (reading : Reading) :
    ledger'.read reading = ledger.read reading := by
  cases reading with
  | balances id => rw [read_balances, account_congr haccounts, read_balances]
  | payoutPerRoot => exact congrArg FloodBook.payoutPerRoot hflood
  | flood => exact congrArg FloodBook.active hflood

/-- Totals of assets are in none of these books. -/
theorem Told.withAsset {id : AssetId} {entry entry' : Asset} (he : ledger.asset id = .ok entry)
    (hs : entry'.emptied = entry.emptied) : Told ledger 0 ∅ (ledger.withAsset id entry') :=
  silent ((books_congr (holdings_withAsset he hs) rfl rfl rfl).trans (add_zero _).symm)
    (read_congr rfl rfl)

/-- More at one place, and in the totals of its asset, is left unsaid. -/
theorem Told.gained {ledger ledger' : Ledger} {place : Slot Index} {quantity value : ℤ}
    {entry entry' : Asset}
    (hgains : Gains ledger ledger' place.owner place.asset place.mark.toInt quantity value)
    (haccounts : ledger'.accounts = ledger.accounts) (htotals : ledger'.totals = ledger.totals)
    (hflood : ledger'.floodBook = ledger.floodBook) (he : ledger'.asset place.asset = .ok entry)
    (hs : entry'.emptied = entry.emptied) :
    Told ledger (.position place quantity value) ∅ (ledger'.withAsset place.asset entry') := by
  have hgained : Told ledger (.position place quantity value) ∅ ledger' :=
    silent (books_of_gains hgains haccounts htotals hflood) (read_congr haccounts hflood)
  exact (hgained.trans (withAsset he hs)).of_eq (add_zero _)

/-- A position that is added is told with its slot, its quantity and its value. -/
theorem addPositionAt_told {slot : Slot Index} {position : Position} {out : Outcome Unit}
    (h : addPositionAt slot position ledger = .ok out) : Told ledger 0 out.events out.ledger := by
  obtain ⟨deposits, entry, entry', -, -, -, hput, he, ht, rfl⟩ := addPositionAt_eq_ok.mp h
  obtain ⟨_, _, -, -, rfl⟩ := Asset.take_eq_ok.mp ht
  refine (Told.gained (gains_put hput) rfl rfl rfl he ?_).noted ?_ ?_ <;> rfl

/-- **A removal** is told as one, whichever stores it draws on. -/
theorem removePosition_told {slot : Slot Index} {amount : Amount} {out : Outcome Amount}
    (h : removePosition slot amount ledger = .ok out) : Told ledger 0 out.events out.ledger := by
  by_cases ha : amount = 0
  · subst ha
    obtain ⟨-, rfl⟩ := removePosition_zero_eq_ok.mp h
    exact .refl ledger
  · obtain ⟨value, taken, entry, entry', -, he, ht, hr, rfl⟩ := (removePosition_eq_ok ha).mp h
    obtain ⟨_, _, -, -, rfl⟩ := Asset.release_eq_ok.mp hr
    have hgains := gains_takeAt he ht
    obtain ⟨deposits, legacyDeposits, rfl⟩ := (taken_of_takeAt ht).frame
    refine (Told.gained hgains rfl rfl rfl he ?_).noted ?_ ?_ <;> rfl

/-- **A migration** is told by an event that adds nothing, and there is nothing to add. -/
theorem migrateEpoch_told {owner : AccountId} {asset : AssetId} {terms : LegacyTerms}
    {epoch : Epoch} {out : Outcome (Option Index)} (hterms : ledger.legacyTerms asset = .ok terms)
    (h : migrateEpoch owner asset terms epoch ledger = .ok out) :
    Told ledger 0 out.events out.ledger := by
  obtain ⟨-, ⟨-, rfl⟩ | ⟨position, index, deposits, hget, hindex, hput, rfl⟩⟩ :=
    migrateEpoch_stages h
  · exact .refl ledger
  have hholdings := holdings_migrate hget (legacyIndex_eq hterms hindex) hput
  have hmoved : Told ledger 0 ∅ { ledger with
      deposits, legacyDeposits := ledger.legacyDeposits.erase ⟨owner, asset, epoch⟩ } :=
    .silent ((books_congr hholdings rfl rfl rfl).trans (add_zero _).symm) (read_congr rfl rfl)
  refine hmoved.noted ?_ ?_ <;> rfl

/-! ### Floods -/

/-- Another book of floods, and an event that tells it. -/
theorem Told.flooded {floodBook : FloodBook} {event : Event} {paid claimed : ℤ}
    (hbooks : event.books = .floods paid claimed)
    (hpaid : (floodBook.totalPaid.toNat : ℤ) = ledger.floodBook.totalPaid.toNat + paid)
    (hclaimed : (floodBook.totalClaimed.toNat : ℤ) =
      ledger.floodBook.totalClaimed.toNat + claimed)
    (hbalances : ∀ id, event.read (.balances id) = none)
    (hrate : floodBook.payoutPerRoot =
      (event.read .payoutPerRoot).getD ledger.floodBook.payoutPerRoot)
    (hactive : floodBook.active = (event.read .flood).getD ledger.floodBook.active) :
    Told ledger 0 ⟨[event]⟩ { ledger with floodBook } := by
  refine of_event ?_ fun reading => ?_
  · rw [books_withFloodBook ledger hpaid hclaimed, hbooks, add_zero]
  · cases reading with
    | balances id =>
      rw [hbalances]
      rfl
    | payoutPerRoot => exact hrate
    | flood => exact hactive

end StalkLedger
