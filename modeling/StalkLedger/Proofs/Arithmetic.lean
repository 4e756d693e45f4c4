import Mathlib.Tactic.Ring
import Mathlib.Tactic.Linarith
import StalkLedger.Growth

/-!
# Arithmetic on amounts is exact

`mulDiv` and `mulDivCeil` work on words of 128 bits.  Here their results are told in natural
numbers: no sum of limbs overflows (`toNat_product`), and the bit-by-bit division finds the
quotient and the remainder of the double word (`divide_eq_ok`).

**Exactness** (`mulDiv_eq_ok`, `mulDivCeil_eq_ok`).  A quotient is returned if and only if the
divisor is not zero and the exact quotient, rounded down or up, fits in a word; it is that quotient.

Growth is told in whole numbers too: what a value grows between two indices (`grownReward_eq_ok`),
and the index from which it would have grown an amount (`indexForGrown_eq_ok`).
-/

namespace StalkLedger

/-! ### Computations that may fail -/

section Except

variable {ε α β : Type}

/-- Computations that follow each other succeed if each of them does, -/
theorem bind_eq_ok {x : Except ε α} {f : α → Except ε β} {b : β} :
    x >>= f = .ok b ↔ ∃ a, x = .ok a ∧ f a = .ok b := by
  cases x with
  | error e => exact ⟨nofun, fun ⟨_, h, _⟩ => nomatch h⟩
  | ok a => exact ⟨fun h => ⟨a, rfl, h⟩, fun ⟨_, h, h'⟩ => by cases h; exact h'⟩

/-- and fail with the fault of the first that fails. -/
theorem bind_eq_error {x : Except ε α} {f : α → Except ε β} {e : ε} :
    x >>= f = .error e ↔ x = .error e ∨ ∃ a, x = .ok a ∧ f a = .error e := by
  cases x with
  | error e' => simp [bind, Except.bind]
  | ok a => simp [bind, Except.bind]

theorem ok_bind {a : α} {f : α → Except ε β} : Except.ok a >>= f = f a := rfl

theorem pure_eq_ok {a b : α} : (pure a : Except ε α) = .ok b ↔ a = b :=
  ⟨fun h => by cases h; rfl, fun h => by rw [h]; rfl⟩

/-- Whether there is a result can be evaluated without telling it. -/
theorem exists_ok {x : Except ε α} (h : x.toOption.isSome = true) : ∃ a, x = .ok a := by
  cases x with
  | error e => cases h
  | ok a => exact ⟨a, rfl⟩

end Except

namespace Wide

/-! ### The product -/

/-- The lower half of a word is what it leaves when divided by a limb, -/
@[simp] theorem toNat_lowerHalf (w : Word) : (lowerHalf w).toNat = w.toNat % 2 ^ 64 := by
  have h : (0xFFFFFFFFFFFFFFFF#128).toNat = 2 ^ 64 - 1 := rfl
  rw [lowerHalf, BitVec.toNat_and, h, Nat.and_two_pow_sub_one_eq_mod]

/-- and the upper half is how often a limb goes into it. -/
@[simp] theorem toNat_upperHalf (w : Word) : (upperHalf w).toNat = w.toNat / 2 ^ 64 := by
  rw [upperHalf, BitVec.toNat_ushiftRight, Nat.shiftRight_eq_div_pow]

/-- The product of two halves fits in a word. -/
theorem toNat_mul_of_lt {u v : Word} (hu : u.toNat < 2 ^ 64) (hv : v.toNat < 2 ^ 64) :
    (u * v).toNat = u.toNat * v.toNat := by
  rw [BitVec.toNat_mul]
  refine Nat.mod_eq_of_lt ?_
  calc u.toNat * v.toNat ≤ (2 ^ 64 - 1) * (2 ^ 64 - 1) :=
        Nat.mul_le_mul (Nat.le_pred_of_lt hu) (Nat.le_pred_of_lt hv)
    _ < 2 ^ 128 := by decide

/-- The lower half fits in a limb, -/
theorem toNat_lowerHalf_lt (w : Word) : (lowerHalf w).toNat < 2 ^ 64 := by
  rw [toNat_lowerHalf]
  exact Nat.mod_lt _ (by decide)

/-- and so does the upper half. -/
theorem toNat_upperHalf_lt (w : Word) : (upperHalf w).toNat < 2 ^ 64 := by
  rw [toNat_upperHalf]
  have := w.isLt
  omega

/-- Two words put side by side: the low bits of one, and above them those of the other. -/
theorem toNat_lowerHalf_or_shiftLeft (u v : Word) :
    (lowerHalf u ||| (v <<< 64)).toNat = u.toNat % 2 ^ 64 + v.toNat % 2 ^ 64 * 2 ^ 64 := by
  have hv : v.toNat <<< 64 % 2 ^ 128 = (v.toNat % 2 ^ 64) <<< 64 := by
    rw [Nat.shiftLeft_eq, Nat.shiftLeft_eq]
    omega
  rw [BitVec.toNat_or, BitVec.toNat_shiftLeft, toNat_lowerHalf, hv, Nat.or_comm,
    ← Nat.shiftLeft_add_eq_or_of_lt (Nat.mod_lt _ (by decide)), Nat.shiftLeft_eq, Nat.add_comm]

/-- The partial products of a number written with two limbs, put together with their carries. -/
theorem limbs_recombine {x y z w : Nat} (hx : x < 2 ^ 128)
    (h : x + (y + z) * 2 ^ 64 + w * 2 ^ 128 < 2 ^ 128 * 2 ^ 128) :
    (((w + y / 2 ^ 64) % 2 ^ 128 + z / 2 ^ 64) % 2 ^ 128 +
        ((x / 2 ^ 64 + y % 2 ^ 64) % 2 ^ 128 + z % 2 ^ 64) % 2 ^ 128 / 2 ^ 64) % 2 ^ 128 * 2 ^ 128 +
      (x % 2 ^ 64 +
        ((x / 2 ^ 64 + y % 2 ^ 64) % 2 ^ 128 + z % 2 ^ 64) % 2 ^ 128 % 2 ^ 64 * 2 ^ 64) =
    x + (y + z) * 2 ^ 64 + w * 2 ^ 128 := by
  -- Each product is split into its halves, so that the quotients and remainders can be read off.
  obtain ⟨x₁, x₀, hx₀, rfl⟩ : ∃ x₁ x₀, x₀ < 2 ^ 64 ∧ x = x₁ * 2 ^ 64 + x₀ :=
    ⟨x / 2 ^ 64, x % 2 ^ 64, Nat.mod_lt _ (by decide), by omega⟩
  obtain ⟨y₁, y₀, hy₀, rfl⟩ : ∃ y₁ y₀, y₀ < 2 ^ 64 ∧ y = y₁ * 2 ^ 64 + y₀ :=
    ⟨y / 2 ^ 64, y % 2 ^ 64, Nat.mod_lt _ (by decide), by omega⟩
  obtain ⟨z₁, z₀, hz₀, rfl⟩ : ∃ z₁ z₀, z₀ < 2 ^ 64 ∧ z = z₁ * 2 ^ 64 + z₀ :=
    ⟨z / 2 ^ 64, z % 2 ^ 64, Nat.mod_lt _ (by decide), by omega⟩
  have hx₁ : x₁ < 2 ^ 64 := by omega
  have div {q r : Nat} (hr : r < 2 ^ 64) : (q * 2 ^ 64 + r) / 2 ^ 64 = q := by omega
  have mod {q r : Nat} (hr : r < 2 ^ 64) : (q * 2 ^ 64 + r) % 2 ^ 64 = r := by omega
  rw [div hx₀, div hy₀, div hz₀, mod hx₀, mod hy₀, mod hz₀]
  rw [Nat.mod_eq_of_lt (a := x₁ + y₀) (by omega), Nat.mod_eq_of_lt (a := x₁ + y₀ + z₀) (by omega)]
  -- The middle column is carried over as `m₁`; its own bound keeps the high column in a word.
  obtain ⟨m₁, m₀, hm₀, hm⟩ : ∃ m₁ m₀, m₀ < 2 ^ 64 ∧ x₁ + y₀ + z₀ = m₁ * 2 ^ 64 + m₀ :=
    ⟨(x₁ + y₀ + z₀) / 2 ^ 64, (x₁ + y₀ + z₀) % 2 ^ 64, Nat.mod_lt _ (by decide), by omega⟩
  rw [hm, div hm₀, mod hm₀]
  have hhigh : w + y₁ + z₁ + m₁ < 2 ^ 128 := by omega
  rw [Nat.mod_eq_of_lt (a := w + y₁) (by omega), Nat.mod_eq_of_lt (a := w + y₁ + z₁) (by omega),
    Nat.mod_eq_of_lt hhigh]
  omega

/-- **The product is exact**: no sum of limbs overflows. -/
theorem toNat_product (a b : Word) :
    (product a b).1.toNat * 2 ^ 128 + (product a b).2.toNat = a.toNat * b.toNat := by
  have hal := toNat_lowerHalf_lt a
  have hau := toNat_upperHalf_lt a
  have hbl := toNat_lowerHalf_lt b
  have hbu := toNat_upperHalf_lt b
  have hlt : a.toNat * b.toNat < 2 ^ 128 * 2 ^ 128 :=
    Nat.mul_lt_mul'' a.isLt b.isLt
  -- The four partial products, as natural numbers.
  have split : a.toNat * b.toNat =
      (lowerHalf a).toNat * (lowerHalf b).toNat +
        ((lowerHalf a).toNat * (upperHalf b).toNat + (upperHalf a).toNat * (lowerHalf b).toNat) *
          2 ^ 64 + (upperHalf a).toNat * (upperHalf b).toNat * 2 ^ 128 := by
    have ha : a.toNat = (lowerHalf a).toNat + (upperHalf a).toNat * 2 ^ 64 := by
      rw [toNat_lowerHalf, toNat_upperHalf]; omega
    have hb : b.toNat = (lowerHalf b).toNat + (upperHalf b).toNat * 2 ^ 64 := by
      rw [toNat_lowerHalf, toNat_upperHalf]; omega
    rw [ha, hb]
    ring
  rw [split] at hlt ⊢
  simp only [product, middle, BitVec.toNat_add, toNat_lowerHalf_or_shiftLeft, toNat_upperHalf,
    toNat_lowerHalf, toNat_mul_of_lt hal hbl, toNat_mul_of_lt hal hbu, toNat_mul_of_lt hau hbl,
    toNat_mul_of_lt hau hbu] at hlt ⊢
  refine limbs_recombine ?_ hlt
  rw [← toNat_lowerHalf, ← toNat_lowerHalf, ← toNat_mul_of_lt hal hbl]
  exact (lowerHalf a * lowerHalf b).isLt

/-! ### The quotient -/

/-- A word shifted up by a binary digit; the bit at the top is lost. -/
theorem toNat_shiftLeft_or {w digit : Word} (h : digit.toNat < 2) :
    ((w <<< 1) ||| digit).toNat = 2 * w.toNat % 2 ^ 128 + digit.toNat := by
  have hw : w.toNat <<< 1 % 2 ^ 128 = (w.toNat % 2 ^ 127) <<< 1 := by
    rw [Nat.shiftLeft_eq, Nat.shiftLeft_eq]
    omega
  rw [BitVec.toNat_or, BitVec.toNat_shiftLeft, hw, ← Nat.shiftLeft_add_eq_or_of_lt h,
    Nat.shiftLeft_eq]
  omega

/-- The top bit of a word tells whether it reaches the upper half of its range. -/
theorem ushiftRight_eq_one_iff (w : Word) : w >>> 127 = 1 ↔ 2 ^ 127 ≤ w.toNat := by
  have hw := w.isLt
  rw [← BitVec.toNat_inj, BitVec.toNat_ushiftRight, Nat.shiftRight_eq_div_pow,
    show (1 : Word).toNat = 1 from rfl]
  omega

/-- **One step of a division** brings a digit down: what was divided is doubled and gets the digit,
and the remainder stays below the divisor. -/
theorem step_spec {d digit : Word} {s : Division} (hdigit : digit.toNat < 2)
    (hr : s.remainder.toNat < d.toNat) (hq : 2 * s.quotient.toNat < 2 ^ 128) :
    (s.step d digit).remainder.toNat < d.toNat ∧
      (s.step d digit).quotient.toNat ≤ 2 * s.quotient.toNat + 1 ∧
      (s.step d digit).quotient.toNat * d.toNat + (s.step d digit).remainder.toNat =
        2 * (s.quotient.toNat * d.toNat + s.remainder.toNat) + digit.toNat := by
  have hd := d.isLt
  have hquot : (s.quotient <<< 1).toNat = 2 * s.quotient.toNat := by
    rw [BitVec.toNat_shiftLeft, Nat.shiftLeft_eq]
    omega
  have hquot₁ : (s.quotient <<< 1 ||| 1).toNat = 2 * s.quotient.toNat + 1 := by
    rw [toNat_shiftLeft_or (by decide), Nat.mod_eq_of_lt hq]
    rfl
  unfold Division.step
  simp only [ushiftRight_eq_one_iff, BitVec.le_def, toNat_shiftLeft_or hdigit]
  split
  next hfits =>
    have hsub : ((s.remainder <<< 1 ||| digit) - d).toNat =
        2 * s.remainder.toNat + digit.toNat - d.toNat := by
      rw [BitVec.toNat_sub, toNat_shiftLeft_or hdigit]
      omega
    simp only [hquot₁, hsub]
    refine ⟨by omega, le_rfl, ?_⟩
    rw [Nat.add_mul, Nat.mul_assoc, Nat.one_mul]
    omega
  next hfits =>
    rw [not_or] at hfits
    simp only [hquot, toNat_shiftLeft_or hdigit]
    refine ⟨by omega, by omega, ?_⟩
    rw [Nat.mul_assoc]
    omega

/-- A shifted and masked word is one of its binary digits. -/
theorem toNat_digit (low : Word) (n : Nat) :
    ((low >>> n) &&& 1).toNat = low.toNat / 2 ^ n % 2 := by
  rw [BitVec.toNat_and, BitVec.toNat_ushiftRight, Nat.shiftRight_eq_div_pow,
    show (1 : Word).toNat = 1 from rfl, Nat.and_one_is_mod]

/-- **A division run to its end**: the induction is on the digits still to bring down, and the
quotient has room for them. -/
theorem run_spec {d low : Word} (n : Nat) {s : Division} (hr : s.remainder.toNat < d.toNat)
    (hq : (s.quotient.toNat + 1) * 2 ^ n ≤ 2 ^ 128) :
    (Division.run d low n s).remainder.toNat < d.toNat ∧
      (Division.run d low n s).quotient.toNat * d.toNat + (Division.run d low n s).remainder.toNat =
        (s.quotient.toNat * d.toNat + s.remainder.toNat) * 2 ^ n + low.toNat % 2 ^ n := by
  induction n generalizing s with
  | zero => exact ⟨hr, by simp [Division.run, Nat.mod_one]⟩
  | succ n ih =>
    have hdigit : ((low >>> n) &&& 1).toNat < 2 := by
      rw [toNat_digit]
      exact Nat.mod_lt _ (by decide)
    have hpos : 1 ≤ 2 ^ n := Nat.one_le_two_pow
    have hroom : 2 * s.quotient.toNat < 2 ^ 128 := by
      rw [pow_succ] at hq
      nlinarith
    obtain ⟨hr', hq', heq⟩ := step_spec hdigit hr hroom
    have hroom' : ((s.step d ((low >>> n) &&& 1)).quotient.toNat + 1) * 2 ^ n ≤ 2 ^ 128 :=
      calc _ ≤ (2 * s.quotient.toNat + 1 + 1) * 2 ^ n := Nat.mul_le_mul_right _ (by omega)
        _ = (s.quotient.toNat + 1) * 2 ^ (n + 1) := by ring
        _ ≤ 2 ^ 128 := hq
    obtain ⟨hlt, hrun⟩ := ih hr' hroom'
    refine ⟨hlt, hrun.trans ?_⟩
    rw [heq, toNat_digit, Nat.mod_pow_succ]
    ring

/-- A quotient and a remainder below the divisor are *the* quotient and *the* remainder. -/
theorem ok_eq_ok_iff {d : Word} {n : Nat} {s t : Division} (hr : s.remainder.toNat < d.toNat)
    (h : s.quotient.toNat * d.toNat + s.remainder.toNat = n) :
    (.ok s : Except Fault Division) = .ok t ↔
      d.toNat ≠ 0 ∧ t.quotient.toNat = n / d.toNat ∧ t.remainder.toNat = n % d.toNat := by
  have hd : 0 < d.toNat := Nat.zero_lt_of_lt hr
  obtain ⟨hq, hm⟩ : n / d.toNat = s.quotient.toNat ∧ n % d.toNat = s.remainder.toNat :=
    (Nat.div_mod_unique hd).mpr ⟨by rw [Nat.mul_comm]; omega, hr⟩
  rw [hq, hm]
  constructor
  · rintro ⟨⟩
    exact ⟨hd.ne', rfl, rfl⟩
  · rintro ⟨-, eq, er⟩
    obtain ⟨q, r⟩ := t
    obtain rfl := BitVec.eq_of_toNat_eq eq
    obtain rfl := BitVec.eq_of_toNat_eq er
    rfl

/-- **Division is exact**: it gives the quotient and the remainder of the double word, if the
quotient fits in a word. -/
theorem divide_eq_ok {high low d : Word} {s : Division} :
    divide high low d = .ok s ↔ d.toNat ≠ 0 ∧
      s.quotient.toNat = (high.toNat * 2 ^ 128 + low.toNat) / d.toNat ∧
      s.remainder.toNat = (high.toNat * 2 ^ 128 + low.toNat) % d.toNat := by
  unfold divide
  simp only [← BitVec.toNat_inj, BitVec.le_def, show (0 : Word).toNat = 0 from rfl]
  split
  next hd => exact ⟨nofun, fun h => absurd hd h.1⟩
  next hd =>
    have hpos : 0 < d.toNat := Nat.pos_of_ne_zero hd
    split
    next hhigh =>
      rw [hhigh, Nat.zero_mul, Nat.zero_add]
      refine ok_eq_ok_iff ?_ ?_
      · rw [BitVec.toNat_umod]
        exact Nat.mod_lt _ hpos
      · rw [BitVec.toNat_umod, BitVec.toNat_udiv, Nat.mul_comm]
        exact Nat.div_add_mod _ _
    next =>
      split
      next hle =>
        refine ⟨nofun, fun ⟨_, hq, _⟩ => ?_⟩
        have hbig : 2 ^ 128 ≤ (high.toNat * 2 ^ 128 + low.toNat) / d.toNat :=
          (Nat.le_div_iff_mul_le hpos).mpr <|
            calc 2 ^ 128 * d.toNat ≤ 2 ^ 128 * high.toNat := Nat.mul_le_mul_left _ hle
              _ ≤ high.toNat * 2 ^ 128 + low.toNat := by omega
        exact absurd s.quotient.isLt (Nat.not_lt.mpr (hq ▸ hbig))
      next hlt =>
        obtain ⟨hr, hq⟩ : (Division.run d low 128 ⟨0, high⟩).remainder.toNat < d.toNat ∧ _ :=
          run_spec 128 (Nat.not_le.mp hlt) (by simp)
        refine ok_eq_ok_iff hr (hq.trans ?_)
        simp [Nat.mod_eq_of_lt low.isLt]

/-- **The long division is exact**, if it succeeds: quotient and remainder are those of the whole
product. -/
theorem mulDivMod_eq_ok {a b d : Word} {s : Division} :
    mulDivMod a b d = .ok s ↔ d.toNat ≠ 0 ∧
      s.quotient.toNat = a.toNat * b.toNat / d.toNat ∧
      s.remainder.toNat = a.toNat * b.toNat % d.toNat := by
  rw [mulDivMod, divide_eq_ok, toNat_product]

end Wide

/-! ### On amounts -/

/-- **Exactness, rounding down.** -/
theorem mulDiv_eq_ok {a b d c : Amount} :
    mulDiv a b d = .ok c ↔ d.toNat ≠ 0 ∧ c.toNat = a.toNat * b.toNat / d.toNat := by
  simp only [mulDiv, bind_eq_ok, Wide.mulDivMod_eq_ok, Unsigned.toNat_word, pure_eq_ok]
  constructor
  · rintro ⟨s, ⟨hd, hq, -⟩, rfl⟩
    exact ⟨hd, hq⟩
  · rintro ⟨hd, hc⟩
    have hr : a.toNat * b.toNat % d.toNat < 2 ^ 128 :=
      lt_trans (Nat.mod_lt _ (Nat.pos_of_ne_zero hd)) d.toNat_lt
    exact ⟨⟨c.word, BitVec.ofNatLT _ hr⟩, ⟨hd, hc, rfl⟩, rfl⟩

/-- Rounding up adds one where division leaves a remainder. -/
theorem add_pred_div_eq {n d : ℕ} (hd : d ≠ 0) :
    (n + (d - 1)) / d = n / d + if n % d = 0 then 0 else 1 := by
  have hpos := Nat.pos_of_ne_zero hd
  have hlt := Nat.mod_lt n hpos
  have hn : n + (d - 1) = (n % d + (d - 1)) + d * (n / d) := by
    have := Nat.mod_add_div n d
    omega
  rw [hn, Nat.add_mul_div_left _ _ hpos, Nat.add_comm]
  congr 1
  split
  · exact Nat.div_eq_of_lt (by omega)
  · exact Nat.div_eq_of_lt_le (by omega) (by omega)

/-- **Exactness, rounding up.** -/
theorem mulDivCeil_eq_ok {a b d c : Amount} :
    mulDivCeil a b d = .ok c ↔
      d.toNat ≠ 0 ∧ c.toNat = (a.toNat * b.toNat + (d.toNat - 1)) / d.toNat := by
  simp only [mulDivCeil, bind_eq_ok, Wide.mulDivMod_eq_ok, Unsigned.toNat_word]
  constructor
  · rintro ⟨s, ⟨hd, hq, hr⟩, h⟩
    have hzero : s.remainder = 0 ↔ a.toNat * b.toNat % d.toNat = 0 := by
      rw [← BitVec.toNat_inj, hr]
      exact Iff.rfl
    simp only [hzero] at h
    refine ⟨hd, ?_⟩
    rw [add_pred_div_eq hd, ← hq]
    split at h
    next h₀ =>
      rw [pure_eq_ok] at h
      rw [← h, if_pos h₀]
      rfl
    next h₀ =>
      rw [Unsigned.add_eq_ok] at h
      rw [h, if_neg h₀]
      rfl
  · rintro ⟨hd, hc⟩
    have hr : a.toNat * b.toNat % d.toNat < 2 ^ 128 :=
      lt_trans (Nat.mod_lt _ (Nat.pos_of_ne_zero hd)) d.toNat_lt
    rw [add_pred_div_eq hd] at hc
    have hq : a.toNat * b.toNat / d.toNat < 2 ^ 128 := by
      have := c.toNat_lt
      omega
    refine ⟨⟨BitVec.ofNatLT _ hq, BitVec.ofNatLT _ hr⟩, ⟨hd, rfl, rfl⟩, ?_⟩
    have hzero : BitVec.ofNatLT _ hr = 0 ↔ a.toNat * b.toNat % d.toNat = 0 := by
      rw [← BitVec.toNat_inj]
      exact Iff.rfl
    simp only [hzero]
    split at hc
    next h₀ =>
      rw [if_pos h₀, pure_eq_ok]
      exact Unsigned.ext hc.symm
    next h₀ =>
      rw [if_neg h₀, Unsigned.add_eq_ok]
      exact hc

/-! ### Growth -/

/-- **What a value grows**: itself, once for every step from its index up to the tip. -/
theorem grownReward_eq_ok {tip index : Index} {value grown : Amount} :
    grownReward tip index value = .ok grown ↔
      index.toInt ≤ tip.toInt ∧ tip.toInt - index.toInt < 2 ^ 127 ∧
        (grown.toNat : ℤ) = (tip.toInt - index.toInt) * value.toNat := by
  simp only [grownReward, bind_eq_ok, Signed.sub_eq_ok]
  constructor
  · rintro ⟨steps, hs, h⟩
    split at h
    · cases h
    next hneg =>
      rw [Signed.lt_iff, Signed.toInt_zero, not_lt] at hneg
      rw [Unsigned.checked_eq_ok] at h
      have hlt := steps.toInt_lt
      refine ⟨by omega, by omega, ?_⟩
      rw [h, Nat.cast_mul, Int.toNat_of_nonneg hneg, hs]
  · rintro ⟨hle, hlt, h⟩
    have hnn : 0 ≤ tip.toInt - index.toInt := by omega
    refine ⟨⟨tip.toInt - index.toInt, by omega, hlt⟩, rfl, ?_⟩
    rw [if_neg (by rw [Signed.lt_iff, Signed.toInt_zero]; exact not_lt.mpr hnn),
      Unsigned.checked_eq_ok]
    zify
    rw [h, Int.toNat_of_nonneg hnn]

/-- Growth is turned into an index by as many steps as it holds of the value, and carries that many
times the value. -/
theorem indexForGrown_eq_ok {tip : Index} {grown value : Amount} {b : Backdate} :
    indexForGrown tip grown value = .ok b ↔
      value.toNat ≠ 0 ∧ grown.toNat / value.toNat < 2 ^ 127 ∧
        b.index.toInt = tip.toInt - (grown.toNat / value.toNat : ℕ) ∧
        b.carried.toNat = grown.toNat / value.toNat * value.toNat := by
  have hzero : value = 0 ↔ value.toNat = 0 := by rw [← Unsigned.toNat_inj, Unsigned.toNat_zero]
  unfold indexForGrown
  split
  next h₀ => exact ⟨nofun, fun h => absurd (hzero.mp h₀) h.1⟩
  next h₀ =>
    simp only [bind_eq_ok, Unsigned.mul_eq_ok, Unsigned.gain_eq_ok, Signed.sub_eq_ok, pure_eq_ok,
      Unsigned.toNat_quotient]
    constructor
    · rintro ⟨carried, hc, steps, hs, index, hi, rfl⟩
      have hlt := steps.toInt_lt
      exact ⟨fun h => h₀ (hzero.mpr h), by omega, hs ▸ hi, hc⟩
    · rintro ⟨-, hlt, hi, hc⟩
      have hrange : ((grown.toNat / value.toNat : ℕ) : ℤ) < 2 ^ (128 - 1) := by exact_mod_cast hlt
      have hnn : -2 ^ (128 - 1) ≤ ((grown.toNat / value.toNat : ℕ) : ℤ) :=
        le_trans (by norm_num) (Int.natCast_nonneg _)
      exact ⟨b.carried, hc, ⟨(grown.toNat / value.toNat : ℕ), hnn, hrange⟩, rfl, b.index, hi, rfl⟩

end StalkLedger
