import Mathlib.Algebra.Order.Floor.Div
import StalkLedger.Proofs.Settlement
import StalkLedger.Proofs.Transition

/-!
# How a payout is shared out

A payout is rounded three times.  The steps of the payout per root are rounded down; what is set
aside for them, on the locked roots, is rounded up; and what each holder of roots is owed for them is
rounded down again.

* **What is set aside** is there (`allotment_le`), and so much of it that what is left over would not
  make a step (`rest_lt`).
* **What is owed** is covered by it (`sum_shares_le`), and it is owed but for less than a unit to each
  holder (`allotment_le_add_length`).

So **a payout is accounted for** (`Action.payouts_apportioned`): it is shared out at once, down to a
rest that is smaller than a step, and only the roundings of the single holders are held back.
-/

namespace StalkLedger

namespace FloodBook

/-! ### Three roundings -/

/-- What is set aside for some steps of the payout per root, on some roots: all that these are worth,
rounded up. -/
def allotment (steps roots : ℕ) : ℕ := (steps * roots) ⌈/⌉ precision.toNat

/-- What is owed for some steps on the roots of one holder, rounded down. -/
def share (steps roots : ℕ) : ℕ := steps * roots / precision.toNat

theorem allotment_le_iff {steps roots units : ℕ} :
    allotment steps roots ≤ units ↔ steps * roots ≤ precision.toNat * units :=
  ceilDiv_le_iff_le_mul precision_pos

/-- What is set aside covers the steps. -/
theorem le_mul_allotment (steps roots : ℕ) :
    steps * roots ≤ precision.toNat * allotment steps roots :=
  allotment_le_iff.mp (Nat.le_refl _)

/-- The code of rounding up sets this much aside. -/
theorem allotment_of_mulDivCeil {steps roots allocated : Amount}
    (h : mulDivCeil steps roots precision = .ok allocated) :
    allocated.toNat = allotment steps.toNat roots.toNat := by
  rw [(mulDivCeil_eq_ok.mp h).2, allotment, Nat.ceilDiv_eq_add_pred_div,
    Nat.add_sub_assoc (Nat.succ_le_of_lt precision_pos)]

section Steps

variable {available roots steps : ℕ} (hsteps : steps = available * precision.toNat / roots)
include hsteps

/-- No more is set aside than there is: the steps were rounded down before. -/
theorem allotment_le : allotment steps roots ≤ available := by
  rw [allotment_le_iff, hsteps, Nat.mul_comm precision.toNat]
  exact Nat.div_mul_le_self _ _

/-- What is left over is not enough for another step. -/
theorem rest_lt (hroots : 0 < roots) :
    (available - allotment steps roots) * precision.toNat < roots := by
  have hstep : available * precision.toNat < steps * roots + roots := by
    rw [hsteps, Nat.mul_comm _ roots, ← Nat.mul_add_one]
    exact Nat.lt_mul_div_succ _ hroots
  have hcovered := le_mul_allotment steps roots
  rw [Nat.sub_mul, Nat.mul_comm (allotment steps roots)]
  omega

end Steps

/-- All shares together, in scaled units: no more than the steps are worth on all roots, and less by
at most one unit for each holder.  The induction is on the holders. -/
theorem scaled_sum_shares (steps : ℕ) (holdings : List ℕ) :
    precision.toNat * (holdings.map (share steps)).sum ≤ steps * holdings.sum ∧
      steps * holdings.sum ≤
        precision.toNat * ((holdings.map (share steps)).sum + holdings.length) := by
  induction holdings with
  | nil => exact ⟨Nat.le_refl _, Nat.le_refl _⟩
  | cons roots holdings ih =>
    obtain ⟨hle, hge⟩ := ih
    have hfloor : precision.toNat * share steps roots ≤ steps * roots := Nat.mul_div_le _ _
    have hnext : steps * roots < precision.toNat * (share steps roots + 1) :=
      Nat.lt_mul_div_succ _ precision_pos
    rw [List.map_cons, List.sum_cons, List.sum_cons, List.length_cons]
    simp only [Nat.mul_add, Nat.mul_one] at hge hnext ⊢
    exact ⟨by omega, by omega⟩

/-- What all holders are owed is set aside, -/
theorem sum_shares_le (steps : ℕ) (holdings : List ℕ) :
    (holdings.map (share steps)).sum ≤ allotment steps holdings.sum :=
  Nat.le_of_mul_le_mul_left
    ((scaled_sum_shares steps holdings).1.trans (le_mul_allotment steps holdings.sum)) precision_pos

/-- and what is set aside they are owed, but for a unit each. -/
theorem allotment_le_add_length (steps : ℕ) (holdings : List ℕ) :
    allotment steps holdings.sum ≤ (holdings.map (share steps)).sum + holdings.length :=
  allotment_le_iff.mpr (scaled_sum_shares steps holdings).2

theorem share_le_allotment {steps roots locked : ℕ} (h : roots ≤ locked) :
    share steps roots ≤ allotment steps locked := by
  refine Nat.le_of_mul_le_mul_left ?_ precision_pos
  calc precision.toNat * share steps roots ≤ steps * roots := Nat.mul_div_le _ _
    _ ≤ steps * locked := Nat.mul_le_mul_left _ h
    _ ≤ precision.toNat * allotment steps locked := le_mul_allotment _ _

/-! ### A payout -/

variable {book book' : FloodBook} {start : Epoch} {flood : Flood} {amount : Amount}

/-- **Taking a payout in.**  Without roots it waits; otherwise what there is makes some steps, and what
is set aside for these is no longer unallocated. -/
theorem paid_stages (h : book.paid start flood amount = .ok book') :
    ∃ available totalPaid : Amount,
      available.toNat = book.unallocated.toNat + amount.toNat ∧
      totalPaid.toNat = book.totalPaid.toNat + amount.toNat ∧
      (flood.roots = 0 ∧ book' = { book with totalPaid, unallocated := available } ∨
        flood.roots ≠ 0 ∧ ∃ perRoot unallocated index paid : Amount,
          perRoot.toNat = available.toNat * precision.toNat / flood.roots.toNat ∧
          unallocated.toNat + allotment perRoot.toNat flood.roots.toNat = available.toNat ∧
          index.toNat = book.payoutPerRoot.toNat + perRoot.toNat ∧
          book' = { book with
            payoutPerRoot := index
            floods := book.floods.insert start { flood with endIndex := index, paid }
            totalPaid
            unallocated }) := by
  simp only [FloodBook.paid, bind_eq_ok, Unsigned.add_eq_ok] at h
  obtain ⟨available, havailable, totalPaid, htotal, h⟩ := h
  refine ⟨available, totalPaid, havailable, htotal, ?_⟩
  split at h
  next hzero => exact .inl ⟨hzero, (StalkLedger.pure_eq_ok.mp h).symm⟩
  next hroots =>
    simp only [bind_eq_ok, mulDiv_eq_ok, Unsigned.sub_eq_ok, Unsigned.add_eq_ok,
      StalkLedger.pure_eq_ok] at h
    obtain ⟨perRoot, ⟨-, hsteps⟩, allocated, hceil, unallocated, hrest, index, hindex, paid, -,
      hbook⟩ := h
    rw [allotment_of_mulDivCeil hceil] at hrest
    exact .inr ⟨hroots, perRoot, unallocated, index, paid, hsteps, hrest, hindex, hbook.symm⟩

/-- A payout has been shared out, by so many steps of the payout per root. -/
structure Apportioned (book book' : FloodBook) (amount : Amount) (steps : ℕ) : Prop where
  /-- The payout per root is raised by the steps. -/
  index : book'.payoutPerRoot.toNat = book.payoutPerRoot.toNat + steps
  /-- What was there and what is paid is set aside or left over. -/
  accounted : allotment steps book.lockedRoots.toNat + book'.unallocated.toNat =
    book.unallocated.toNat + amount.toNat
  /-- The rest would not make another step; -/
  rest_lt : book'.unallocated.toNat * precision.toNat < book.lockedRoots.toNat
  /-- and nothing is left over, if the precision is fine enough for the roots. -/
  rest_eq_zero : book.lockedRoots ≤ precision → book'.unallocated = 0
  /-- However the roots are held, what the holders are owed is set aside, -/
  covered : ∀ holdings : List ℕ, holdings.sum = book.lockedRoots.toNat →
    (holdings.map (share steps)).sum ≤ allotment steps book.lockedRoots.toNat
  /-- and no more is held back than one unit for each of them. -/
  served : ∀ holdings : List ℕ, holdings.sum = book.lockedRoots.toNat →
    allotment steps book.lockedRoots.toNat ≤ (holdings.map (share steps)).sum + holdings.length
  /-- A holder is in fact owed such a share between the two indices. -/
  owed : ∀ roots, roots ≤ book.lockedRoots → ∃ payout,
    FloodShare.owed book'.payoutPerRoot book.payoutPerRoot roots = .ok payout ∧
      payout.toNat = share steps roots.toNat

theorem paid_apportioned (hlocked : book.lockedRoots = flood.roots) (hroots : flood.roots ≠ 0)
    (h : book.paid start flood amount = .ok book') : ∃ steps, book.Apportioned book' amount steps := by
  obtain ⟨available, _, havailable, -, ⟨hzero, -⟩ | ⟨-, perRoot, unallocated, index, _, hsteps, hrest,
    hindex, rfl⟩⟩ := paid_stages h
  · exact absurd hzero hroots
  rw [← hlocked] at hsteps hrest hroots
  have hpos : 0 < book.lockedRoots.toNat := Nat.pos_of_ne_zero fun h₀ => hroots (Unsigned.ext h₀)
  have hlt : unallocated.toNat * precision.toNat < book.lockedRoots.toNat := by
    rw [Nat.eq_sub_of_add_eq hrest]
    exact rest_lt hsteps hpos
  refine ⟨perRoot.toNat, hindex, ?_, hlt, fun hfine => ?_, ?_, ?_, fun roots hle => ?_⟩
  · rw [Nat.add_comm, hrest, havailable]
  · -- A whole unit would be more than the roots.
    refine Unsigned.ext (Nat.lt_one_iff.mp ?_)
    refine Nat.lt_of_mul_lt_mul_right (a := precision.toNat) ?_
    rw [Nat.one_mul]
    exact hlt.trans_le hfine
  · intro holdings hsum
    rw [← hsum]
    exact sum_shares_le _ _
  · intro holdings hsum
    rw [← hsum]
    exact allotment_le_add_length _ _
  · have hfits : share perRoot.toNat roots.toNat < 2 ^ 128 :=
      ((share_le_allotment hle).trans (allotment_le hsteps)).trans_lt available.toNat_lt
    refine ⟨⟨_, hfits⟩, bind_eq_ok.mpr ⟨perRoot, Unsigned.sub_eq_ok.mpr ?_, ?_⟩, rfl⟩
    · rw [Nat.add_comm]
      exact hindex.symm
    · exact mulDiv_eq_ok.mpr ⟨precision_pos.ne', rfl⟩

end FloodBook

open FloodBook (Apportioned)

namespace Action

/-- **A payout is accounted for.**  On any ledger whose flood is on over some roots, let a payout
succeed.  The payout per root is raised by some steps; what these are worth on the locked roots,
rounded up, makes up, with what is now left over, what was left over before and the payout.  The rest
is too small for another step, and it is nothing while the roots are no more than the precision.
However the locked roots are held, the holders are owed no more than what is set aside for these
steps, and that less one unit for each of them at least. -/
theorem payouts_apportioned {ledger : Ledger} {amount : Amount} {out : Outcome Unit}
    (hlocked : ledger.floodBook.lockedRoots ≠ 0) (h : payFlood amount ledger = .ok out) :
    ∃ steps, ledger.floodBook.Apportioned out.ledger.floodBook amount steps := by
  obtain ⟨start, flood, book, _, hon, hf, hpaid, -, rfl⟩ := payFlood_stages h
  have hroots : ledger.floodBook.lockedRoots = flood.roots := by
    rw [FloodBook.lockedRoots, hon, Option.bind_some, FloodBook.flood_eq_ok.mp hf]
  exact FloodBook.paid_apportioned hroots (hroots ▸ hlocked) hpaid

end Action

namespace Vault

/-- So much is deposited that the roots are three times the precision, and a flood begins. -/
def crowdRequests : List Request :=
  [.whitelist 1 ⟨10000, 3, some ⟨2, true⟩⟩ .unit,
    .call (.deposit 8 1 300000000000000),
    .call (.advanceEpoch ⟨12, true, 0, 0⟩)]

/-- A payout of four units makes one step, which is worth three of them; the fourth is left over. -/
theorem payouts_apportioned_crowd :
    let ledger := (run crowdRequests sample).2.ledger
    ledger.floodBook.lockedRoots ≠ 0 ∧
      (Action.payFlood 4 ledger).toOption.map (·.ledger.floodBook.unallocated) = some 1 ∧
        ∃ out, Action.payFlood 4 ledger = .ok out ∧
          ∃ steps, ledger.floodBook.Apportioned out.ledger.floodBook 4 steps := by
  have hlocked : (run crowdRequests sample).2.ledger.floodBook.lockedRoots ≠ 0 := by decide +kernel
  have hok : (Action.payFlood 4 (run crowdRequests sample).2.ledger).toOption.isSome = true := by
    decide +kernel
  obtain ⟨out, hout⟩ := exists_ok hok
  exact ⟨hlocked, by decide +kernel, out, hout, Action.payouts_apportioned hlocked hout⟩

end Vault

end StalkLedger
