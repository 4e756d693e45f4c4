import StalkLedger.Proofs.Drift

/-!
# Floods are never short of funds

The book of floods owes every account what it has not claimed, paid or not.  All this together, with
what has been claimed and what waits unallocated, is never more than what was paid in
(`Ledger.Solvent`).

* Settling rounds down, so moves only lower what is owed; they leave the roots on which accounts are
  paid as they are (`Ledger.Drift.solvent`).
* So the roots locked for the flood that is on stay the sum of those on which the accounts are paid,
  and a payout is owed to nobody beyond what it takes out of the unallocated amount
  (`Ledger.Solvent.paid`).

In a solvent ledger every amount an account is owed is in range, and any account can be settled at
any time: after any requests the balances of all accounts can be told, and are covered
(`Vault.floods_solvent`).
-/

namespace StalkLedger

open StalkLedger.Action Ledger FloodBook

/-! ### Solvent ledgers -/

/-- Every account has its place in the book of floods; the roots locked for the flood that is on are
those on which the accounts are paid; and all that the accounts are owed is covered. -/
structure Ledger.Solvent (ledger : Ledger) : Prop where
  book : ledger.floodBook.Sound ledger.epoch
  account : ∀ id, ledger.floodBook.Admits ledger.epoch (ledger.account id)
  shared : ∀ {start flood}, ledger.floodBook.active = some start →
    ledger.floodBook.floods.get? start = some flood → (flood.roots.toNat : ℤ) =
      ledger.accounts.sum fun _ account => (rate start account.roots account.flood).toNat
  funded : (ledger.accounts.sum fun _ account =>
      ledger.floodBook.owing account.roots account.flood) +
    scale * (ledger.floodBook.totalClaimed.toNat + ledger.floodBook.unallocated.toNat) ≤
      scale * ledger.floodBook.totalPaid.toNat

namespace Ledger

variable {ledger ledger' : Ledger} {id : AccountId}

/-- An account that was never touched is owed nothing, -/
theorem owing_fresh (book : FloodBook) : book.owing Account.fresh.roots Account.fresh.flood = 0 := by
  show scale * _ + (_ - _) * _ = (0 : ℤ)
  rw [Account.fresh, FloodShare.fresh, Unsigned.toNat_zero, Nat.cast_zero, mul_zero, mul_zero,
    add_zero]

/-- and is paid on no roots. -/
theorem rate_fresh (start : Epoch) :
    ((rate start Account.fresh.roots Account.fresh.flood).toNat : ℤ) = 0 := by
  show ((if _ then _ else _ : Amount).toNat : ℤ) = 0
  rw [Account.fresh, FloodShare.fresh, ite_self, Unsigned.toNat_zero, Nat.cast_zero]

namespace Solvent

/-- No account is owed less than nothing. -/
theorem owing_nonneg (h : ledger.Solvent) (id : AccountId) :
    0 ≤ ledger.floodBook.owing (ledger.account id).roots (ledger.account id).flood :=
  add_nonneg (mul_nonneg scale_pos.le (Int.natCast_nonneg _))
    (h.book.pending_nonneg (h.account id).share _)

/-- One account is owed no more than all of them. -/
theorem owing_le_sum (h : ledger.Solvent) (id : AccountId) :
    ledger.floodBook.owing (ledger.account id).roots (ledger.account id).flood ≤
      ledger.accounts.sum fun _ a => ledger.floodBook.owing a.roots a.flood :=
  account_le_sum (f := fun a => ledger.floodBook.owing a.roots a.flood) (owing_fresh _)
    h.owing_nonneg id

/-- What one account is owed is covered. -/
theorem owing_le (h : ledger.Solvent) (id : AccountId) :
    ledger.floodBook.owing (ledger.account id).roots (ledger.account id).flood ≤
      scale * ledger.floodBook.totalPaid.toNat := by
  have hrest : 0 ≤ scale * ((ledger.floodBook.totalClaimed.toNat : ℤ) +
      ledger.floodBook.unallocated.toNat) := by
    have hscale := scale_pos
    positivity
  linarith [h.funded, h.owing_le_sum id]

/-- What an account is owed is in range, so that it can be settled. -/
theorem owing_lt (h : ledger.Solvent) (id : AccountId) :
    ledger.floodBook.owing (ledger.account id).roots (ledger.account id).flood < scale * 2 ^ 128 :=
  (h.owing_le id).trans_lt (mul_lt_mul_of_pos_left
    (by exact_mod_cast ledger.floodBook.totalPaid.toNat_lt) scale_pos)

/-- Solvency is about accounts, clock and floods only. -/
theorem still (h : ledger.Solvent) (ha : ledger'.accounts = ledger.accounts)
    (he : ledger'.epoch = ledger.epoch) (hb : ledger'.floodBook = ledger.floodBook) :
    ledger'.Solvent := by
  have haccount := account_congr ha
  refine ⟨?_, fun id => ?_, ?_, ?_⟩
  · rw [hb, he]
    exact h.book
  · rw [hb, he, haccount]
    exact h.account id
  · rw [hb, ha]
    exact h.shared
  · rw [hb, ha]
    exact h.funded

/-- **A touched account** leaves the ledger solvent. -/
theorem touch (h : ledger.Solvent) {account : Account}
    (ht : ledger.floodBook.Touched ledger.epoch (ledger.account id) account) :
    (ledger.withAccount id account).Solvent ∧
      ledger.floodBook.Kept ledger.epoch (ledger.account id) account := by
  obtain ⟨hadmits, hkept⟩ := ht.spec h.book (h.account id) (h.owing_lt id)
  refine ⟨⟨h.book, fun id' => ?_, ?_, ?_⟩, hkept⟩
  · rw [account_withAccount]
    split
    · exact hadmits
    · exact h.account id'
  · intro start flood hon hf
    have hsum := ledger.sum_withAccount id account
      (f := fun a => ((rate start a.roots a.flood).toNat : ℤ)) (rate_fresh start)
    rw [hsum, hkept.rate hon, sub_self, add_zero]
    exact h.shared hon hf
  · have hsum := ledger.sum_withAccount id account
      (f := fun a => ledger.floodBook.owing a.roots a.flood) (owing_fresh _)
    have hle := hkept.owing_le
    have hfunded := h.funded
    show ((ledger.withAccount id account).accounts.sum fun _ a =>
      ledger.floodBook.owing a.roots a.flood) + _ ≤ _
    rw [hsum]
    show _ + scale * (ledger.floodBook.totalClaimed.toNat + ledger.floodBook.unallocated.toNat : ℤ)
      ≤ scale * ledger.floodBook.totalPaid.toNat
    linarith

end Solvent

/-- Between two reports the ledger stays solvent, its clock and its floods stay, and every account is
kept. -/
theorem Drift.solvent (h : Drift ledger ledger') (hs : ledger.Solvent) :
    ledger'.Solvent ∧ ledger'.epoch = ledger.epoch ∧ ledger'.floodBook = ledger.floodBook ∧
      ∀ id, ledger.floodBook.Kept ledger.epoch (ledger.account id) (ledger'.account id) := by
  induction h with
  | @still ledger ledger' ha he hb =>
    refine ⟨hs.still ha he hb, he, hb, fun id => ?_⟩
    rw [account_congr ha]
    exact .refl _ _ _
  | @touch ledger id account ht =>
    obtain ⟨hsolvent, hkept⟩ := hs.touch ht
    refine ⟨hsolvent, rfl, rfl, fun id' => ?_⟩
    rw [account_withAccount]
    split
    next heq =>
      rw [heq]
      exact hkept
    next => exact .refl _ _ _
  | trans _ _ ih ih' =>
    obtain ⟨hs₁, he₁, hb₁, hk₁⟩ := ih hs
    obtain ⟨hs₂, he₂, hb₂, hk₂⟩ := ih' hs₁
    rw [hb₁, he₁] at hk₂
    exact ⟨hs₂, he₂.trans he₁, hb₂.trans hb₁, fun id => (hk₁ id).trans (hk₂ id)⟩

/-! ### A report -/

/-- Once the clock has moved on, no account is up to date. -/
theorem Solvent.admits_later (h : ledger.Solvent) {book : FloodBook} {epoch : Epoch}
    (hlt : ledger.epoch < epoch) (id : AccountId) (hc : book.Carries (ledger.account id).flood) :
    book.Admits epoch (ledger.account id) := by
  have hidle : (ledger.account id).lastUpdate < epoch :=
    Nat.lt_of_le_of_lt (h.account id).lastUpdate hlt
  exact ⟨hc, Nat.le_of_lt hidle, fun hle => absurd hidle (Nat.not_lt.mpr hle)⟩

/-- A sum over the accounts, each of them in its place. -/
theorem sum_accounts_congr {f g : Account → ℤ}
    (h : ∀ id, f (ledger.account id) = g (ledger.account id)) :
    (ledger.accounts.sum fun _ a => f a) = ledger.accounts.sum fun _ a => g a := by
  refine SortedMap.sum_congr fun id a hget => ?_
  rw [← account_of_get? hget]
  exact h id

namespace Solvent

/-- A flood is younger than all before it. -/
theorem recorded_lt (h : ledger.Solvent) {epoch : Epoch} (hlt : ledger.epoch < epoch)
    {start : Epoch} {flood : Flood} (hf : ledger.floodBook.floods.get? start = some flood) :
    start < epoch :=
  Nat.lt_of_le_of_lt (h.book.record hf).1 hlt

/-- Nobody is paid for a new flood on a snapshot. -/
theorem rate_later (h : ledger.Solvent) {epoch : Epoch} (hlt : ledger.epoch < epoch)
    (id : AccountId) :
    rate epoch (ledger.account id).roots (ledger.account id).flood = (ledger.account id).roots := by
  rw [rate, if_neg]
  intro htracked
  obtain ⟨flood, hf, -⟩ := (h.account id).share.tracked htracked
  exact Nat.lt_irrefl _ (h.recorded_lt hlt hf)

/-- The flood that is on is paid, before any account is updated. -/
theorem paid (h : ledger.Solvent) {start : Epoch} {flood : Flood} {amount : Amount}
    {book : FloodBook} (hidle : ∀ id, (ledger.account id).lastUpdate < ledger.epoch)
    (hon : ledger.floodBook.active = some start)
    (hf : ledger.floodBook.floods.get? start = some flood)
    (hpaid : ledger.floodBook.paid start flood amount = .ok book) :
    { ledger with floodBook := book }.Solvent := by
  obtain ⟨current, hcurrent, hend⟩ := h.book.active hon
  obtain rfl := Option.some.inj (hf.symm.trans hcurrent)
  obtain ⟨steps, allocated, hraised, hcovered, hclaimed, htotal, hunallocated⟩ :=
    paid_spec hf hend hpaid
  -- The locked roots are those of all shares together, so what is set aside covers all of them.
  have hshared := h.shared hon hf
  refine ⟨h.book.raised hon hraised, fun id => ?_, ?_, ?_⟩
  · exact ⟨(h.account id).share.raised hraised, Nat.le_of_lt (hidle id),
      fun hle => absurd (hidle id) (Nat.not_lt.mpr hle)⟩
  · intro start' flood' hon' hf'
    obtain rfl := Option.some.inj (hon.symm.trans (hraised.active.symm.trans hon'))
    obtain ⟨mark, hget, hmark⟩ := hraised.records start
    rw [hf, Option.map_some] at hget
    obtain rfl := Option.some.inj (hget.symm.trans hf')
    rw [(hmark flood hf).2.1]
    exact hshared
  · have howing : (ledger.accounts.sum fun _ a => book.owing a.roots a.flood) =
        (ledger.accounts.sum fun _ a => ledger.floodBook.owing a.roots a.flood) +
          steps * flood.roots.toNat := by
      rw [hshared, ← SortedMap.sum_mul_left, ← SortedMap.sum_add]
      exact sum_accounts_congr fun id => owing_raised (h.account id).share hraised _
    have hfunded := h.funded
    have hcovered : (steps * flood.roots.toNat : ℤ) ≤ scale * allocated := by
      rw [scale]
      exact_mod_cast hcovered
    have hunallocated : (book.unallocated.toNat : ℤ) =
        ledger.floodBook.unallocated.toNat + amount.toNat - allocated := by
      rw [eq_sub_iff_add_eq]
      exact_mod_cast hunallocated
    show (ledger.accounts.sum fun _ a => book.owing a.roots a.flood) +
      scale * (book.totalClaimed.toNat + book.unallocated.toNat) ≤ scale * book.totalPaid.toNat
    rw [howing, hclaimed, htotal, hunallocated]
    push_cast
    linarith

end Solvent

/-- An account takes out all it has been paid. -/
def claimed (ledger : Ledger) (id : AccountId) (totalClaimed : Amount) : Ledger :=
  { ledger.withAccount id { ledger.account id with
      flood := { (ledger.account id).flood with claimable := 0 } } with
    floodBook := { ledger.floodBook with totalClaimed } }

/-- What an account takes out it is no longer owed. -/
theorem owing_claimed (book : FloodBook) (roots : Amount) (share : FloodShare) :
    book.owing roots { share with claimable := 0 } =
      book.owing roots share - scale * share.claimable.toNat := by
  have hpending : book.pending roots { share with claimable := 0 } = book.pending roots share := rfl
  rw [owing, owing, hpending, Unsigned.toNat_zero, Nat.cast_zero, mul_zero]
  ring

/-- A claim sets no roots loose. -/
theorem rootsLoose_claimed (ledger : Ledger) (id : AccountId) (totalClaimed : Amount) :
    (ledger.claimed id totalClaimed).rootsLoose = ledger.rootsLoose := by
  have hsame : (ledger.withAccount id { ledger.account id with
      flood := { (ledger.account id).flood with claimable := 0 } }).rootsLoose =
        ledger.rootsLoose := rootsLoose_withSame rfl
  exact hsame

/-- What is claimed is taken off what is owed, so the books stay solvent. -/
theorem Solvent.claimed (h : ledger.Solvent) {totalClaimed : Amount}
    (hadd : ledger.floodBook.totalClaimed.add (ledger.account id).flood.claimable =
      .ok totalClaimed) : (ledger.claimed id totalClaimed).Solvent := by
  refine ⟨⟨h.book.active, h.book.record, h.book.order, h.book.quiet⟩, fun id' => ?_, ?_, ?_⟩
  · obtain ⟨⟨hc, ht, hu⟩, hl, hs⟩ := h.account id'
    have haccount := account_withAccount ledger id id' { ledger.account id with
      flood := { (ledger.account id).flood with claimable := 0 } }
    show FloodBook.Admits _ _ (Ledger.account (ledger.withAccount id _) id')
    rw [haccount]
    split
    next heq =>
      subst heq
      exact ⟨⟨hc, ht, hu⟩, hl, hs⟩
    next => exact ⟨⟨hc, ht, hu⟩, hl, hs⟩
  · intro start flood hon hf
    refine (h.shared hon hf).trans ?_
    have hsum := ledger.sum_withAccount id { ledger.account id with
      flood := { (ledger.account id).flood with claimable := 0 } }
      (f := fun a => ((rate start a.roots a.flood).toNat : ℤ)) (rate_fresh start)
    refine (hsum.trans ?_).symm
    exact add_eq_left.mpr (sub_self _)
  · have hsum := ledger.sum_withAccount id { ledger.account id with
      flood := { (ledger.account id).flood with claimable := 0 } }
      (f := fun a => ledger.floodBook.owing a.roots a.flood) (owing_fresh _)
    have hfunded := h.funded
    show ((ledger.withAccount id _).accounts.sum fun _ a => ledger.floodBook.owing a.roots a.flood) +
      scale * (totalClaimed.toNat + ledger.floodBook.unallocated.toNat) ≤
        scale * ledger.floodBook.totalPaid.toNat
    rw [hsum, owing_claimed, Unsigned.add_eq_ok.mp hadd]
    push_cast
    linarith

/-- The ways in which a report may turn the floods. -/
inductive Turned (ledger ledger' : Ledger) : Prop
  | stays (hb : ledger'.floodBook = ledger.floodBook)
  | begins (hon : ledger.floodBook.active = none)
      (hb : ledger'.floodBook = ledger.floodBook.opened ledger'.epoch ledger.totals.roots)
  | ends {start : Epoch} (hon : ledger.floodBook.active = some start)
      (hb : ledger'.floodBook = ledger.floodBook.closed start ledger'.epoch)

/-- A new report before its payout: the clock has moved on, the floods have turned, and accounts and
roots are as they were. -/
structure Reported (ledger ledger' : Ledger) : Prop where
  epoch : ledger.epoch < ledger'.epoch
  accounts : ledger'.accounts = ledger.accounts
  roots : ledger'.totals.roots = ledger.totals.roots
  turned : Turned ledger ledger'

/-- A flood that is on is paid. -/
structure Paid (ledger ledger' : Ledger) (start : Epoch) (flood : Flood) (amount : Amount) :
    Prop where
  active : ledger.floodBook.active = some start
  record : ledger.floodBook.floods.get? start = some flood
  paid : ledger.floodBook.paid start flood amount = .ok ledger'.floodBook
  ledger : ledger' = { ledger with floodBook := ledger'.floodBook }

/-- Reward leaves accounts, roots and floods alone, and a report turns the floods at most once. -/
theorem reported_of_turn {ledger grown : Ledger} {quantity : Amount} {flooding : Bool}
    {rewarded turned : Outcome Unit} (hreward : receiveReward quantity grown = .ok rewarded)
    (hturn : turnFlood flooding rewarded.ledger = .ok turned) (hlt : ledger.epoch < grown.epoch)
    (haccounts : grown.accounts = ledger.accounts)
    (hroots : grown.totals.roots = ledger.totals.roots)
    (hbook : grown.floodBook = ledger.floodBook) : Reported ledger turned.ledger := by
  have hrewarded : rewarded.ledger.epoch = grown.epoch ∧
      rewarded.ledger.accounts = ledger.accounts ∧
        rewarded.ledger.totals.roots = ledger.totals.roots ∧
          rewarded.ledger.floodBook = ledger.floodBook := by
    rcases receiveReward_stages hreward with ⟨-, rfl⟩ | ⟨_, _, _, _, -, -, -, -, rfl⟩
    · exact ⟨rfl, haccounts, hroots, hbook⟩
    · exact ⟨rfl, haccounts, hroots, hbook⟩
  obtain ⟨hepoch, haccounts, hroots, hbook⟩ := hrewarded
  rw [← hepoch] at hlt
  rcases turnFlood_stages hturn with ⟨hon, rfl⟩ | ⟨start, hon, rfl⟩ | rfl
  · rw [hbook] at hon
    exact ⟨hlt, haccounts, hroots, .begins hon (by rw [← hbook, ← hroots])⟩
  · rw [hbook] at hon
    exact ⟨hlt, haccounts, hroots, .ends hon (by rw [← hbook])⟩
  · exact ⟨hlt, haccounts, hroots, .stays hbook⟩

/-- **What a report does to accounts and floods**: nothing, if it is old; otherwise the floods turn,
and the flood that is then on may be paid. -/
theorem reported_of_advanceEpoch {report : EpochReport} {out : Outcome Bool}
    (h : advanceEpoch report ledger = .ok out) : out.ledger = ledger ∨
      ∃ turned, Reported ledger turned ∧ (out.ledger = turned ∨
        ∃ start flood amount, Paid turned out.ledger start flood amount) := by
  rcases advanceEpoch_stages h with
    ⟨-, rfl⟩ | ⟨hlt, assets, rewarded, turned, paid, -, hreward, hturn, hpay, rfl⟩
  · exact .inl rfl
  refine .inr ⟨turned.ledger, reported_of_turn hreward hturn hlt rfl rfl rfl, ?_⟩
  rcases hpay with hpay | ⟨-, rfl⟩
  · obtain ⟨start, flood, book, _, hon, hf, hpaid, -, rfl⟩ := payFlood_stages hpay
    exact .inr ⟨start, flood, _, hon, flood_eq_ok.mp hf, hpaid, rfl⟩
  · exact .inl rfl

namespace Reported

/-- A report touches no account. -/
theorem account (h : Reported ledger ledger') (id : AccountId) :
    ledger'.account id = ledger.account id :=
  account_congr h.accounts id

/-- The book of floods stays sound. -/
theorem sound (h : Reported ledger ledger') (hs : ledger.Solvent) :
    ledger'.floodBook.Sound ledger'.epoch := by
  cases h.turned with
  | stays hb =>
    rw [hb]
    exact hs.book.later h.epoch
  | begins hoff hb =>
    rw [hb]
    exact hs.book.opened h.epoch _
  | ends hon hb =>
    rw [hb]
    exact (hs.book.closed hon _).later h.epoch

/-- Every account is carried on. -/
theorem carries (h : Reported ledger ledger') (hs : ledger.Solvent) (id : AccountId) :
    ledger'.floodBook.Carries (ledger.account id).flood := by
  have hshare := (hs.account id).share
  cases h.turned with
  | stays hb =>
    rw [hb]
    exact hshare
  | begins hoff hb =>
    rw [hb]
    exact hshare.opened (hs.recorded_lt h.epoch) _
  | ends hon hb =>
    rw [hb]
    exact hshare.closed hs.book hon _

/-- Nobody is owed more or less. -/
theorem owing (h : Reported ledger ledger') (hs : ledger.Solvent) (id : AccountId) :
    ledger'.floodBook.owing (ledger.account id).roots (ledger.account id).flood =
      ledger.floodBook.owing (ledger.account id).roots (ledger.account id).flood := by
  have hshare := (hs.account id).share
  cases h.turned with
  | stays hb => rw [hb]
  | begins hoff hb =>
    rw [hb]
    exact owing_opened hshare (hs.recorded_lt h.epoch) _ _
  | ends hon hb =>
    rw [hb]
    exact owing_closed hshare hs.book hon _ _

/-- The payout per root stays, and nothing is paid in, shared out or claimed. -/
theorem funds (h : Reported ledger ledger') :
    ledger'.floodBook.payoutPerRoot = ledger.floodBook.payoutPerRoot ∧
      ledger'.floodBook.totalPaid = ledger.floodBook.totalPaid ∧
        ledger'.floodBook.unallocated = ledger.floodBook.unallocated ∧
          ledger'.floodBook.totalClaimed = ledger.floodBook.totalClaimed := by
  cases h.turned with
  | stays hb =>
    rw [hb]
    exact ⟨rfl, rfl, rfl, rfl⟩
  | begins hoff hb =>
    rw [hb]
    exact ⟨rfl, rfl, rfl, rfl⟩
  | ends hon hb =>
    rw [hb]
    exact (active_closed _ _ _).2

/-- The flood that is on has been on before, or it begins now and locks all roots. -/
theorem active (h : Reported ledger ledger') {start : Epoch}
    (hon : ledger'.floodBook.active = some start) :
    ledger.floodBook.active = some start ∧ ledger'.floodBook.floods = ledger.floodBook.floods ∨
      start = ledger'.epoch ∧ ∃ flood, ledger'.floodBook.floods.get? start = some flood ∧
        flood.roots = ledger.totals.roots := by
  cases h.turned with
  | stays hb =>
    rw [hb] at hon ⊢
    exact .inl ⟨hon, rfl⟩
  | begins hoff hb =>
    rw [hb] at hon ⊢
    obtain rfl := Option.some.inj hon
    exact .inr ⟨rfl, _, SortedMap.get?_insert_self .., rfl⟩
  | ends hend hb =>
    rw [hb, (active_closed _ _ _).1] at hon
    cases hon

/-- A report without a payout keeps the books solvent: no flood owes more by beginning or ending.
-/
theorem solvent (h : Reported ledger ledger') (hs : ledger.Solvent)
    (hroots : ledger.rootsLoose = 0) : ledger'.Solvent := by
  refine ⟨h.sound hs, fun id => ?_, ?_, ?_⟩
  · rw [h.account]
    exact hs.admits_later h.epoch id (h.carries hs id)
  · intro start flood hon hf
    rw [h.accounts]
    rcases h.active hon with ⟨hbefore, hfloods⟩ | ⟨rfl, current, hcurrent, hlocked⟩
    · exact hs.shared hbefore (hfloods ▸ hf)
    · obtain rfl := Option.some.inj (hcurrent.symm.trans hf)
      rw [hlocked, sum_accounts_congr (f := fun a => ((rate ledger'.epoch a.roots a.flood).toNat : ℤ))
        (g := fun a => (a.roots.toNat : ℤ)) fun id => by rw [hs.rate_later h.epoch]]
      exact sub_eq_zero.mp hroots
  · obtain ⟨-, hpaid, hunallocated, hclaimed⟩ := h.funds
    rw [hpaid, hunallocated, hclaimed, h.accounts, sum_accounts_congr
      (f := fun a => ledger'.floodBook.owing a.roots a.flood)
      (g := fun a => ledger.floodBook.owing a.roots a.flood) (h.owing hs)]
    exact hs.funded

/-- No account is up to date after a report. -/
theorem idle (h : Reported ledger ledger') (hs : ledger.Solvent) (id : AccountId) :
    (ledger'.account id).lastUpdate < ledger'.epoch := by
  rw [h.account]
  exact Nat.lt_of_le_of_lt (hs.account id).lastUpdate h.epoch

end Reported

/-- A payout keeps the books solvent, since nobody has been up to date since the clock moved. -/
theorem Paid.solvent {start : Epoch} {flood : Flood} {amount : Amount}
    (h : Paid ledger ledger' start flood amount) (hs : ledger.Solvent)
    (hidle : ∀ id, (ledger.account id).lastUpdate < ledger.epoch) : ledger'.Solvent := by
  rw [h.ledger]
  exact hs.paid hidle h.active h.record h.paid

end Ledger

/-! ### Transitions -/

/-- **Transitions keep the ledger solvent**, and its roots those of the accounts. -/
theorem Transition.solvent {ledger ledger' : Ledger} {paid : AccountId → ℕ} {events : Event.Log}
    (h : Transition ledger paid events ledger') (hs : ledger.Solvent)
    (hroots : ledger.rootsLoose = 0) : ledger'.Solvent ∧ ledger'.rootsLoose = 0 := by
  cases h with
  | posting h => exact ⟨(h.drift.solvent hs).1, h.rootsLoose.trans hroots⟩
  | @claim id _ h =>
    obtain ⟨updated, totalClaimed, hu, -, hadd, rfl⟩ := claimFlood_stages h
    have hmove := Move.update hu
    have hupdated := (hmove.drift.solvent hs).1
    exact ⟨hupdated.claimed hadd,
      (rootsLoose_claimed _ id totalClaimed).trans (hmove.rootsLoose.trans hroots)⟩
  | whitelist h =>
    obtain ⟨-, -, -, rfl⟩ := whitelist_stages h
    exact ⟨hs.still rfl rfl rfl, hroots⟩
  | dewhitelist h =>
    obtain ⟨entry, -, rfl⟩ := dewhitelist_stages h
    exact ⟨hs.still rfl rfl rfl, hroots⟩
  | setAccrualRate h =>
    obtain ⟨-, entry, -, rfl⟩ := setAccrualRate_stages h
    exact ⟨hs.still rfl rfl rfl, hroots⟩
  | reward h =>
    rcases receiveReward_stages h with ⟨-, rfl⟩ | ⟨_, _, _, _, -, -, -, -, rfl⟩
    · exact ⟨hs, hroots⟩
    · exact ⟨hs.still rfl rfl rfl, hroots⟩
  | advance h =>
    rcases reported_of_advanceEpoch h with heq | ⟨turned, hreported, hpaid⟩
    · rw [heq]
      exact ⟨hs, hroots⟩
    have hsolvent := hreported.solvent hs hroots
    have hturned : turned.rootsLoose = 0 := by
      rw [rootsLoose, hreported.roots, hreported.accounts]
      exact hroots
    rcases hpaid with heq | ⟨start, flood, amount, hpaid⟩
    · rw [heq]
      exact ⟨hsolvent, hturned⟩
    · refine ⟨hpaid.solvent hsolvent (hreported.idle hs), ?_⟩
      rw [hpaid.ledger]
      exact hturned

/-! ### Balances -/

namespace Ledger

variable {ledger : Ledger}

/-- **The balance of an account** can always be told; it is what the account is owed, rounded down. -/
theorem Solvent.balance (h : ledger.Solvent) (id : AccountId) : ∃ balance : Amount,
    ledger.floodBalance id = .ok balance ∧
      Rounded 3 (ledger.floodBook.owing (ledger.account id).roots (ledger.account id).flood)
        (scale * balance.toNat) ∧
          (ledger.accounts.get? id = none → balance = 0) := by
  have hadmits := h.account id
  have hfits := h.owing_lt id
  unfold floodBalance
  cases hget : ledger.accounts.get? id with
  | none =>
    have hfresh : ledger.account id = .fresh := by
      rw [Ledger.account, hget, Option.getD_none]
    refine ⟨0, rfl, ?_, fun _ => rfl⟩
    rw [hfresh, owing_fresh, Unsigned.toNat_zero, Nat.cast_zero, mul_zero]
    exact .refl 3 0
  | some account =>
    rw [account_of_get? hget] at hadmits hfits ⊢
    dsimp only
    have hlisted {balance : Amount} (hnone : some account = none) : balance = 0 :=
      absurd hnone (Option.some_ne_none account)
    by_cases hle : ledger.epoch ≤ account.lastUpdate
    · obtain ⟨htracked, hcheckpoint⟩ := hadmits.settled hle
      refine ⟨account.flood.claimable, if_pos hle, ?_, hlisted⟩
      rw [h.book.owing_of_settled htracked hcheckpoint]
      exact .refl 3 _
    · obtain ⟨share, hshare, hsettled⟩ := settle_spec h.book hadmits.share hfits
      refine ⟨share.claimable, ?_, hsettled.rounded, hlisted⟩
      rw [if_neg hle, hshare]
      rfl

/-- A new ledger owes nothing. -/
theorem solvent_of_genesis {charter : Charter} (h : Ledger.genesis charter = .ok ledger) :
    ledger.Solvent ∧ ledger.rootsLoose = 0 := by
  simp only [Ledger.genesis, bind_eq_ok, StalkLedger.pure_eq_ok] at h
  obtain ⟨_, -, rfl⟩ := h
  have none {κ α : Type} [Key κ] {P : Prop} {k : κ} {a : α}
      (h : (∅ : SortedMap κ α).get? k = some a) : P := absurd h (SortedMap.get?_empty_ne_some k a)
  refine ⟨⟨⟨nofun, none, nofun, fun _ => ⟨rfl, rfl⟩⟩, fun id => ?_, nofun, ?_⟩, rfl⟩
  · exact ⟨⟨Nat.le_refl _, nofun, nofun⟩, Nat.zero_le _, fun _ => ⟨rfl, rfl⟩⟩
  · show (0 : ℤ) + scale * (_ + _) ≤ scale * _
    rw [FloodBook.fresh, Unsigned.toNat_zero, Nat.cast_zero, add_zero, zero_add]

end Ledger

namespace Vault

/-- A ledger is solvent after any requests to a new vault. -/
theorem solvent {charter : Charter} {start : Vault} (h : genesis charter = .ok start)
    (requests : List Request) : (run requests start).2.ledger.Solvent := by
  obtain ⟨hledger, hentered⟩ := genesis_eq_ok h
  have hinvariant : (run requests start).2.ledger.Solvent ∧
      (run requests start).2.ledger.rootsLoose = 0 :=
    run_invariant (fun hl ht => ht.solvent hl.1 hl.2) requests hentered (solvent_of_genesis hledger)
  exact hinvariant.1

/-- **Floods are solvent.**  After any requests to a new vault, the balance of every account can be
told, what it has settled together with what settling now would add; and what has been claimed, what
waits unallocated and the balances of all accounts together are no more than what was paid in.  An
account that was never touched has no balance. -/
theorem floods_solvent {charter : Charter} {start : Vault} (h : genesis charter = .ok start)
    (requests : List Request) :
    let ledger := (run requests start).2.ledger
    ∃ balance : AccountId → Amount, (∀ id, ledger.floodBalance id = .ok (balance id)) ∧
      (∀ id, ledger.accounts.get? id = none → balance id = 0) ∧
        ledger.floodBook.totalClaimed.toNat + ledger.floodBook.unallocated.toNat +
          (ledger.accounts.entries.map fun e => (balance e.1).toNat).sum ≤
            ledger.floodBook.totalPaid.toNat := by
  intro ledger
  have hsolvent : ledger.Solvent := solvent h requests
  choose balance hbalance hrounded hzero using hsolvent.balance
  refine ⟨balance, hbalance, hzero, ?_⟩
  have hsum : scale * ledger.accounts.sum (fun id _ => ((balance id).toNat : ℤ)) ≤
      ledger.accounts.sum fun _ a => ledger.floodBook.owing a.roots a.flood := by
    rw [← SortedMap.sum_mul_left]
    refine SortedMap.sum_le_sum fun id a hget => ?_
    rw [← account_of_get? hget]
    exact (hrounded id).1
  rw [ledger.accounts.sum_natCast fun id _ => (balance id).toNat] at hsum
  have hscaled : scale * (ledger.floodBook.totalClaimed.toNat + ledger.floodBook.unallocated.toNat +
      (ledger.accounts.entries.map fun e => (balance e.1).toNat).sum : ℕ) ≤
        scale * ledger.floodBook.totalPaid.toNat := by
    have hfunded := hsolvent.funded
    rw [Nat.cast_add, Nat.cast_add, mul_add]
    linarith
  exact_mod_cast le_of_mul_le_mul_left hscaled scale_pos

theorem floods_solvent_sample : genesis ⟨10, 10, 0, 9⟩ = .ok sample ∧
    let ledger := (run sampleRequests sample).2.ledger
    ledger.floodBook.totalPaid = 1000 ∧ ledger.floodBook.totalClaimed = 555 ∧
      ∃ balance : AccountId → Amount, (∀ id, ledger.floodBalance id = .ok (balance id)) ∧
        (∀ id, ledger.accounts.get? id = none → balance id = 0) ∧
          ledger.floodBook.totalClaimed.toNat + ledger.floodBook.unallocated.toNat +
            (ledger.accounts.entries.map fun e => (balance e.1).toNat).sum ≤
              ledger.floodBook.totalPaid.toNat :=
  ⟨genesis_sample, by decide +kernel, by decide +kernel,
    floods_solvent genesis_sample sampleRequests⟩

end Vault

end StalkLedger
