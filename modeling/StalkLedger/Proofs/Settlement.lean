import Mathlib.Tactic.Positivity
import StalkLedger.Proofs.Arithmetic
import StalkLedger.Flow.Flood

/-!
# What an account is owed of the floods

In units of a payout divided by the precision, what an account has not been paid yet is a whole
number: the steps of the payout per root that it has not settled, times the roots they are paid on
(`FloodBook.owing`).  Settling pays this out and rounds down at most three times: for the flood that
was joined and is over, for what lies before the flood that is on, and for the flood that is on
(`FloodBook.settle_spec`).

What is needed for this is that floods do not overlap (`FloodBook.Sound`), and that no checkpoint is
beyond the flood that is joined or about to be (`FloodBook.Carries`).
-/

namespace StalkLedger

/-! ### Rounding -/

/-- The scale of the payout per root, as a whole number. -/
@[irreducible] def FloodBook.scale : ℤ := FloodBook.precision.toNat

theorem FloodBook.precision_pos : 0 < FloodBook.precision.toNat := by decide

theorem FloodBook.scale_pos : 0 < FloodBook.scale := by
  rw [scale]
  exact Int.natCast_pos.mpr precision_pos

open FloodBook (scale scale_pos precision_pos)

/-- An amount in scaled units has been rounded down some times: at each time less than a whole unit
was lost. -/
def Rounded (times : ℕ) (owed owed' : ℤ) : Prop :=
  owed' ≤ owed ∧ owed ≤ owed' + times * (scale - 1)

namespace Rounded

variable {m n : ℕ} {a b c : ℤ}

theorem refl (n : ℕ) (a : ℤ) : Rounded n a a := by
  have hscale := scale_pos
  exact ⟨le_rfl, le_add_of_nonneg_right (mul_nonneg (Int.natCast_nonneg n) (by omega))⟩

theorem trans (h : Rounded m a b) (h' : Rounded n b c) : Rounded (m + n) a c := by
  refine ⟨h'.1.trans h.1, ?_⟩
  have hsum := h.2.trans (add_le_add_left h'.2 (m * (scale - 1)))
  push_cast
  linarith

/-- What is rounded down fewer times is within the same bound. -/
theorem mono (h : Rounded m a b) (hle : m ≤ n) : Rounded n a b := by
  refine ⟨h.1, h.2.trans (add_le_add_right (mul_le_mul_of_nonneg_right ?_ ?_) b)⟩
  · exact_mod_cast hle
  · exact Int.sub_nonneg_of_le scale_pos

theorem add_left (h : Rounded n a b) (c : ℤ) : Rounded n (c + a) (c + b) :=
  ⟨by linarith [h.1], by linarith [h.2]⟩

theorem add_right (h : Rounded n a b) (c : ℤ) : Rounded n (a + c) (b + c) :=
  ⟨by linarith [h.1], by linarith [h.2]⟩

/-- Division by the precision rounds down once. -/
theorem quotient (n : ℕ) : Rounded 1 n (scale * (n / FloodBook.precision.toNat : ℕ)) := by
  have hle := Nat.mul_div_le n FloodBook.precision.toNat
  have hlt : n < FloodBook.precision.toNat * (n / FloodBook.precision.toNat) +
      FloodBook.precision.toNat := Nat.lt_mul_div_succ n precision_pos
  zify at hle hlt
  rw [Rounded, Nat.cast_one, one_mul, scale]
  push_cast
  exact ⟨hle, by linarith⟩

end Rounded

namespace FloodShare

/-- **One payment** of a share succeeds if its claimable amount stays in range, and rounds down
once. -/
theorem payUpTo_spec {share : FloodShare} {index : Amount} (roots : Amount)
    (hle : share.checkpoint ≤ index)
    (hfits : scale * share.claimable.toNat +
      (index.toNat - share.checkpoint.toNat) * roots.toNat < scale * 2 ^ 128) :
    ∃ claimable : Amount,
      share.payUpTo index roots = .ok { share with claimable, checkpoint := index } ∧
        Rounded 1 (scale * share.claimable.toNat +
          (index.toNat - share.checkpoint.toNat) * roots.toNat) (scale * claimable.toNat) := by
  have hsteps : (index.toNat : ℤ) - share.checkpoint.toNat =
      (index.monus share.checkpoint).toNat := (Nat.cast_sub hle).symm
  rw [hsteps, ← Nat.cast_mul] at hfits ⊢
  obtain ⟨payout, hpayout⟩ : ∃ payout, payout =
      (index.monus share.checkpoint).toNat * roots.toNat / FloodBook.precision.toNat := ⟨_, rfl⟩
  have hrounded := Rounded.quotient ((index.monus share.checkpoint).toNat * roots.toNat)
  rw [← hpayout] at hrounded
  have hsum : share.claimable.toNat + payout < 2 ^ 128 := by
    have hscaled : scale * (share.claimable.toNat + payout : ℤ) < scale * 2 ^ 128 := by
      rw [mul_add]
      exact (add_le_add_right hrounded.1 _).trans_lt hfits
    exact_mod_cast lt_of_mul_lt_mul_left hscaled scale_pos.le
  refine ⟨⟨share.claimable.toNat + payout, hsum⟩, ?_, ?_⟩
  · have howed : owed index share.checkpoint roots =
        .ok ⟨payout, (Nat.le_add_left _ _).trans_lt hsum⟩ :=
      bind_eq_ok.mpr ⟨index.monus share.checkpoint, Unsigned.sub_eq_ok.mpr (Nat.sub_add_cancel hle),
        mulDiv_eq_ok.mpr ⟨by decide, hpayout⟩⟩
    exact bind_eq_ok.mpr ⟨_, howed, bind_eq_ok.mpr ⟨_, Unsigned.add_eq_ok.mpr rfl, rfl⟩⟩
  · rw [Nat.cast_add, mul_add]
    exact hrounded.add_left _

end FloodShare

/-! ### Books and shares -/

namespace FloodBook

/-- The payout per root at which a flood has been paid last. -/
def endOf (book : FloodBook) (start : Epoch) : ℤ :=
  (book.floods.get? start).elim 0 (·.endIndex.toNat)

/-- The roots on which the flood of an epoch is paid to a share. -/
def rate (start : Epoch) (roots : Amount) (share : FloodShare) : Amount :=
  if share.trackedFlood = some start then share.rootsSnapshot else roots

/-- What a share on some roots has not been paid yet, in scaled units. -/
def pending (book : FloodBook) (roots : Amount) (share : FloodShare) : ℤ :=
  match share.trackedFlood with
  | none => (book.payoutPerRoot.toNat - share.checkpoint.toNat) * roots.toNat
  | some start =>
    (book.endOf start - share.checkpoint.toNat) * share.rootsSnapshot.toNat +
      (book.payoutPerRoot.toNat - book.endOf start) * roots.toNat

/-- What a share on some roots is owed, paid or not, in scaled units. -/
def owing (book : FloodBook) (roots : Amount) (share : FloodShare) : ℤ :=
  scale * share.claimable.toNat + book.pending roots share

/-- Floods are recorded with the epochs they began in, one after the other, and the flood that is on
ends where the payout per root is. -/
structure Sound (book : FloodBook) (epoch : Epoch) : Prop where
  active : ∀ {start}, book.active = some start →
    ∃ flood, book.floods.get? start = some flood ∧ flood.endIndex = book.payoutPerRoot
  record : ∀ {start flood}, book.floods.get? start = some flood →
    start ≤ epoch ∧ flood.startIndex ≤ flood.endIndex ∧ flood.endIndex ≤ book.payoutPerRoot
  order : ∀ {start current start' flood}, book.active = some start →
    book.floods.get? start = some current → book.floods.get? start' = some flood →
      start' ≠ start → flood.endIndex ≤ current.startIndex
  /-- There has been no flood in epoch zero, where accounts that were never touched are up to date. -/
  quiet : epoch = 0 → book.payoutPerRoot = 0 ∧ book.active = none

/-- A share has settled no further than it may: not beyond the flood it has joined, nor, if it has
joined none, beyond the beginning of the flood that is on. -/
structure Carries (book : FloodBook) (share : FloodShare) : Prop where
  checkpoint : share.checkpoint ≤ book.payoutPerRoot
  tracked : ∀ {start}, share.trackedFlood = some start →
    ∃ flood, book.floods.get? start = some flood ∧ share.checkpoint ≤ flood.endIndex
  untracked : share.trackedFlood = none → ∀ {start flood}, book.active = some start →
    book.floods.get? start = some flood → share.checkpoint ≤ flood.startIndex

variable {book : FloodBook} {epoch start : Epoch} {roots : Amount} {share share' : FloodShare}

/-- A flood is found where it is recorded. -/
theorem flood_eq_ok {flood : Flood} :
    book.flood start = .ok flood ↔ book.floods.get? start = some flood := by
  unfold FloodBook.flood
  cases book.floods.get? start with
  | none => exact ⟨nofun, nofun⟩
  | some record => exact ⟨fun h => by cases h; rfl, fun h => by cases h; rfl⟩

/-- A recorded flood ends where its record says. -/
theorem endOf_eq {flood : Flood} (h : book.floods.get? start = some flood) :
    book.endOf start = flood.endIndex.toNat := by
  rw [endOf, h, Option.elim_some]

/-- A share that has joined no flood is owed the steps since its checkpoint on the roots it has; -/
theorem pending_of_none (h : share.trackedFlood = none) : book.pending roots share =
    (book.payoutPerRoot.toNat - share.checkpoint.toNat) * roots.toNat := by
  rw [pending, h]

/-- one that has joined a flood is owed the steps up to its end on the roots it had then, and those
since on the roots it has. -/
theorem pending_of_some {flood : Flood} (h : share.trackedFlood = some start)
    (hf : book.floods.get? start = some flood) : book.pending roots share =
      (flood.endIndex.toNat - share.checkpoint.toNat) * share.rootsSnapshot.toNat +
        (book.payoutPerRoot.toNat - flood.endIndex.toNat) * roots.toNat := by
  rw [pending, h]
  dsimp only
  rw [endOf_eq hf]

/-- What is between two indices is not less than nothing. -/
theorem stretch_nonneg {a b : Amount} (h : a ≤ b) (roots : Amount) :
    0 ≤ ((b.toNat : ℤ) - a.toNat) * roots.toNat :=
  mul_nonneg (sub_nonneg.mpr (Int.ofNat_le.mpr h)) (Int.natCast_nonneg _)

/-- No share is owed less than nothing. -/
theorem Sound.pending_nonneg (h : book.Sound epoch) (hs : book.Carries share) (roots : Amount) :
    0 ≤ book.pending roots share := by
  cases ht : share.trackedFlood with
  | none =>
    rw [pending_of_none ht]
    exact stretch_nonneg hs.checkpoint roots
  | some start =>
    obtain ⟨flood, hf, hle⟩ := hs.tracked ht
    rw [pending_of_some ht hf]
    exact add_nonneg (stretch_nonneg hle _) (stretch_nonneg (h.record hf).2.2 _)

/-- A share is settled: it has been paid up to the payout per root, and has joined the flood that is
on, with the roots it is paid on. -/
structure Settled (book : FloodBook) (roots : Amount) (share share' : FloodShare) : Prop where
  tracked : share'.trackedFlood = book.active
  checkpoint : share'.checkpoint = book.payoutPerRoot
  snapshot : ∀ {start}, book.active = some start → share'.rootsSnapshot = rate start roots share
  rounded : Rounded 3 (book.owing roots share) (scale * share'.claimable.toNat)

/-! ### Settling -/

/-- A share leaves a flood that is over, and is paid for it. -/
theorem leave_spec (hb : book.Sound epoch) (hs : book.Carries share)
    (hfits : book.owing roots share < scale * 2 ^ 128) :
    ∃ left, book.leave share = .ok left ∧ book.Carries left ∧
      Rounded 1 (book.owing roots share) (book.owing roots left) ∧
        (left.trackedFlood = none ∨ left.trackedFlood = book.active) ∧
          ∀ start, book.active = some start → rate start roots left = rate start roots share := by
  unfold leave
  cases ht : share.trackedFlood with
  | none => exact ⟨share, rfl, hs, .refl 1 _, .inl ht, fun _ _ => rfl⟩
  | some start =>
    dsimp only
    by_cases hactive : book.active = some start
    · rw [if_pos hactive]
      exact ⟨share, rfl, hs, .refl 1 _, .inr (ht.trans hactive.symm), fun _ _ => rfl⟩
    rw [if_neg hactive]
    -- The flood is over: its own stretch is paid on the snapshot, and what came after it is left.
    obtain ⟨flood, hf, hle⟩ := hs.tracked ht
    obtain ⟨-, -, hend⟩ := hb.record hf
    have hrest := stretch_nonneg hend roots
    rw [owing, pending_of_some ht hf, ← add_assoc] at hfits
    obtain ⟨claimable, hpaid, hrounded⟩ := FloodShare.payUpTo_spec share.rootsSnapshot hle
      (lt_of_le_of_lt (le_add_of_nonneg_right hrest) hfits)
    refine ⟨_, bind_eq_ok.mpr ⟨flood, flood_eq_ok.mpr hf, bind_eq_ok.mpr ⟨_, hpaid, rfl⟩⟩,
      ⟨hend, nofun, ?_⟩, ?_, .inl rfl, ?_⟩
    · intro _ start' current hon hcurrent
      refine hb.order hon hcurrent hf ?_
      rintro rfl
      exact hactive hon
    · rw [owing, pending_of_some ht hf, ← add_assoc]
      exact hrounded.add_right _
    · intro start' hon
      rw [rate, rate, ht, if_neg nofun, if_neg]
      rintro heq
      exact hactive (hon.trans heq.symm)

/-- A share joins the flood that is on, and is paid for what was before. -/
theorem join_spec (hb : book.Sound epoch) (hs : book.Carries share) (hon : book.active = some start)
    (htracked : share.trackedFlood = none ∨ share.trackedFlood = book.active)
    (hfits : book.owing roots share < scale * 2 ^ 128) :
    ∃ joined, book.join start roots share = .ok joined ∧ joined.trackedFlood = some start ∧
      joined.checkpoint ≤ book.payoutPerRoot ∧ joined.rootsSnapshot = rate start roots share ∧
        Rounded 1 (book.owing roots share) (book.owing roots joined) := by
  obtain ⟨current, hcurrent, hend⟩ := hb.active hon
  unfold join
  rcases htracked with ht | ht
  · rw [ht]
    dsimp only
    obtain ⟨-, hstart, -⟩ := hb.record hcurrent
    rw [hend] at hstart
    have hle := hs.untracked ht hon hcurrent
    have hrest := stretch_nonneg hstart roots
    -- What lies before the flood is paid on the roots, and so is the flood, by the new snapshot.
    have hsplit : book.pending roots share =
        ((current.startIndex.toNat : ℤ) - share.checkpoint.toNat) * roots.toNat +
          (book.payoutPerRoot.toNat - current.startIndex.toNat) * roots.toNat := by
      rw [pending_of_none ht]
      ring
    rw [owing, hsplit, ← add_assoc] at hfits
    obtain ⟨claimable, hpaid, hrounded⟩ := FloodShare.payUpTo_spec roots hle
      (lt_of_le_of_lt (le_add_of_nonneg_right hrest) hfits)
    refine ⟨_, bind_eq_ok.mpr ⟨current, flood_eq_ok.mpr hcurrent, bind_eq_ok.mpr ⟨_, hpaid, rfl⟩⟩,
      rfl, hstart, ?_, ?_⟩
    · rw [rate, ht, if_neg nofun]
    · rw [owing, hsplit, owing, pending_of_some rfl hcurrent, hend, sub_self, zero_mul, add_zero,
        ← add_assoc]
      exact hrounded.add_right _
  · rw [ht, hon]
    refine ⟨share, rfl, ht.trans hon, hs.checkpoint, ?_, .refl 1 _⟩
    rw [rate, if_pos (ht.trans hon)]

/-- **Settling** a share succeeds as long as what it is owed is in range; it rounds down at most three
times. -/
theorem settle_spec (hb : book.Sound epoch) (hs : book.Carries share)
    (hfits : book.owing roots share < scale * 2 ^ 128) :
    ∃ share', book.settle roots share = .ok share' ∧ book.Settled roots share share' := by
  obtain ⟨left, hleave, hcarries, hrounded, htracked, hrate⟩ := leave_spec hb hs hfits
  have hfits₁ := hrounded.1.trans_lt hfits
  cases hon : book.active with
  | none =>
    have hnone : left.trackedFlood = none := by
      rw [hon] at htracked
      exact htracked.elim id id
    have howing : book.owing roots left = _ := congrArg (_ + ·) (pending_of_none hnone)
    obtain ⟨claimable, hpaid, hrounded₁⟩ :=
      FloodShare.payUpTo_spec roots hcarries.checkpoint (howing ▸ hfits₁)
    refine ⟨{ left with claimable, checkpoint := book.payoutPerRoot },
      bind_eq_ok.mpr ⟨left, hleave, ?_⟩, hnone.trans hon.symm, rfl, ?_, ?_⟩
    · rw [hon]
      exact hpaid
    · intro start hsome
      rw [hon] at hsome
      cases hsome
    · rw [← howing] at hrounded₁
      exact (hrounded.trans hrounded₁).mono (by decide)
  | some start =>
    obtain ⟨joined, hjoin, hstart, hle, hsnapshot, hrounded₁⟩ :=
      join_spec hb hcarries hon htracked hfits₁
    have hfits₂ := hrounded₁.1.trans_lt hfits₁
    obtain ⟨current, hcurrent, hend⟩ := hb.active hon
    -- The flood that is on ends where the payout per root is, so only its own stretch is left.
    have howing : book.owing roots joined = scale * joined.claimable.toNat +
        (book.payoutPerRoot.toNat - joined.checkpoint.toNat) * joined.rootsSnapshot.toNat := by
      rw [owing, pending_of_some hstart hcurrent, hend, sub_self, zero_mul, add_zero]
    obtain ⟨claimable, hpaid, hrounded₂⟩ :=
      FloodShare.payUpTo_spec joined.rootsSnapshot hle (howing ▸ hfits₂)
    refine ⟨{ joined with claimable, checkpoint := book.payoutPerRoot },
      bind_eq_ok.mpr ⟨left, hleave, ?_⟩, hstart.trans hon.symm, rfl, ?_, ?_⟩
    · rw [hon]
      exact bind_eq_ok.mpr ⟨joined, hjoin, hpaid⟩
    · intro start' hsome
      obtain rfl := Option.some.inj (hon.symm.trans hsome)
      exact hsnapshot.trans (hrate _ hon)
    · rw [← howing] at hrounded₂
      exact (hrounded.trans hrounded₁).trans hrounded₂

/-! ### Settled shares -/

/-- A share that has been settled carries on. -/
theorem Sound.carries_of_settled (hb : book.Sound epoch) (ht : share.trackedFlood = book.active)
    (hc : share.checkpoint = book.payoutPerRoot) : book.Carries share := by
  refine ⟨Nat.le_of_eq (congrArg Unsigned.toNat hc), ?_, ?_⟩
  · intro start hstart
    obtain ⟨flood, hf, hend⟩ := hb.active (ht.symm.trans hstart)
    exact ⟨flood, hf, Nat.le_of_eq (congrArg Unsigned.toNat (hc.trans hend.symm))⟩
  · intro hnone start flood hstart
    rw [← ht, hnone] at hstart
    cases hstart

/-- Nothing is pending for a settled share, on whatever roots. -/
theorem Sound.owing_of_settled (hb : book.Sound epoch) (ht : share.trackedFlood = book.active)
    (hc : share.checkpoint = book.payoutPerRoot) (roots : Amount) :
    book.owing roots share = scale * share.claimable.toNat := by
  rw [owing]
  cases hstart : share.trackedFlood with
  | none => rw [pending_of_none hstart, hc, sub_self, zero_mul, add_zero]
  | some start =>
    obtain ⟨flood, hf, hend⟩ := hb.active (ht.symm.trans hstart)
    rw [pending_of_some hstart hf, hc, hend, sub_self, zero_mul, zero_mul, add_zero, add_zero]

/-- A share that has joined the flood that is on is paid on its snapshot, on whatever roots. -/
theorem rate_of_tracked (ht : share.trackedFlood = some start) (roots : Amount) :
    rate start roots share = share.rootsSnapshot := by
  rw [rate, if_pos ht]

end FloodBook

end StalkLedger
