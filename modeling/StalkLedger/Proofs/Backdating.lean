import StalkLedger.Proofs.Arithmetic

/-!
# Turning growth back into an index

A value grows by itself with every step of its index; an amount of growth is turned back into an index
by dividing.

* **A backdate is told by growth alone** (`indexForGrown_eq_ok_iff`).  It is the index from which the
  value grows the amount, but for less than one more step, together with what it grows from there.
  So growth is led back to the index that it came from, with nothing forfeited
  (`indexForGrown_of_grownReward`), and no earlier index would do (`le_grown_iff`).
* **There is one unless the index leaves its range** (`exists_indexForGrown_iff`): the steps have to be
  an index themselves, and so has what is left of the tip without them.  The product of the steps and
  the value never overflows.

Together (`backdating_inverts_growth`): deriving an index is the exact inverse of growing.
-/

namespace StalkLedger

variable {tip index : Index} {grown value carried reward : Amount} {backdate : Backdate}

/-! ### A backdate by what grows from it -/

/-- What is grown from an index, by the number of steps from there up to the tip. -/
theorem grownReward_eq_ok_iff_exists : grownReward tip index value = .ok reward ↔
    ∃ steps : ℕ, steps < 2 ^ 127 ∧ index.toInt = tip.toInt - steps ∧
      reward.toNat = steps * value.toNat := by
  rw [grownReward_eq_ok]
  constructor
  · rintro ⟨hle, hlt, hreward⟩
    obtain ⟨steps, hsteps⟩ := Int.eq_ofNat_of_zero_le (sub_nonneg.mpr hle)
    rw [hsteps] at hlt hreward
    exact ⟨steps, by exact_mod_cast hlt, by omega, by exact_mod_cast hreward⟩
  · rintro ⟨steps, hsteps, hindex, hreward⟩
    have hback : tip.toInt - index.toInt = steps := by omega
    rw [hback]
    exact ⟨by omega, by exact_mod_cast hsteps, by exact_mod_cast hreward⟩

/-- **A backdate is told by growth alone**: from its index the value grows what is carried, and that is
all of the growth but for less than a step. -/
theorem indexForGrown_eq_ok_iff (hvalue : value.toNat ≠ 0) :
    indexForGrown tip grown value = .ok ⟨index, carried⟩ ↔
      grownReward tip index value = .ok carried ∧ carried.toNat ≤ grown.toNat ∧
        grown.toNat < carried.toNat + value.toNat := by
  rw [indexForGrown_eq_ok]
  constructor
  · rintro ⟨-, hsteps, hindex, hcarried⟩
    refine ⟨grownReward_eq_ok_iff_exists.mpr ⟨_, hsteps, hindex, hcarried⟩, ?_, ?_⟩
    · rw [hcarried]
      exact Nat.div_mul_le_self _ _
    · rw [hcarried]
      exact Nat.lt_div_mul_add (Nat.pos_of_ne_zero hvalue)
  · rintro ⟨hgrows, hle, hlt⟩
    obtain ⟨steps, hsteps, hindex, hcarried⟩ := grownReward_eq_ok_iff_exists.mp hgrows
    -- The steps from the index are the quotient, since one more would be too many.
    have hquotient : grown.toNat / value.toNat = steps := by
      refine Nat.div_eq_of_lt_le ?_ ?_
      · rwa [← hcarried]
      · rwa [Nat.succ_mul, ← hcarried]
    rw [hquotient]
    exact ⟨hvalue, hsteps, hindex, hcarried⟩

/-- **Growth is led back to the index that it came from**, and all of it is carried. -/
theorem indexForGrown_of_grownReward (hvalue : value.toNat ≠ 0)
    (h : grownReward tip index value = .ok grown) :
    indexForGrown tip grown value = .ok ⟨index, grown⟩ :=
  (indexForGrown_eq_ok_iff hvalue).mpr
    ⟨h, Nat.le_refl _, Nat.lt_add_of_pos_right (Nat.pos_of_ne_zero hvalue)⟩

/-- No earlier index would do: from all indices since the derived one, and from those alone, the value
grows no more than the amount. -/
theorem le_grown_iff (h : indexForGrown tip grown value = .ok backdate)
    (hreward : grownReward tip index value = .ok reward) :
    reward ≤ grown ↔ backdate.index ≤ index := by
  obtain ⟨hvalue, -, hback, -⟩ := indexForGrown_eq_ok.mp h
  obtain ⟨steps, -, hindex, hsteps⟩ := grownReward_eq_ok_iff_exists.mp hreward
  rw [Unsigned.le_iff, hsteps, ← Nat.le_div_iff_mul_le (Nat.pos_of_ne_zero hvalue), Signed.le_iff,
    hback, hindex]
  omega

/-! ### Where there is none -/

/-- Whether there is a backdate is a question of the range of indices alone. -/
theorem exists_indexForGrown_iff (hvalue : value.toNat ≠ 0) :
    (∃ backdate, indexForGrown tip grown value = .ok backdate) ↔
      grown.toNat / value.toNat ≤ 2 ^ 127 - 1 ∧
        -2 ^ 127 ≤ tip.toInt - (grown.toNat / value.toNat : ℕ) := by
  simp only [indexForGrown_eq_ok]
  constructor
  · rintro ⟨backdate, -, hsteps, hindex, -⟩
    have hrange := backdate.index.le_toInt
    rw [hindex] at hrange
    exact ⟨Nat.le_pred_of_lt hsteps, hrange⟩
  · rintro ⟨hsteps, hindex⟩
    have hbelow : tip.toInt - (grown.toNat / value.toNat : ℕ) < 2 ^ 127 :=
      lt_of_le_of_lt (sub_le_self _ (Int.natCast_nonneg _)) tip.toInt_lt
    -- What is carried is part of the growth, so that it is an amount.
    have hcarried : grown.toNat / value.toNat * value.toNat < 2 ^ 128 :=
      Nat.lt_of_le_of_lt (Nat.div_mul_le_self _ _) grown.toNat_lt
    exact ⟨⟨⟨_, hindex, hbelow⟩, ⟨_, hcarried⟩⟩, hvalue, Nat.lt_of_le_pred (by decide) hsteps, rfl,
      rfl⟩

/-- Where there is no backdate, there is no value to grow or the index is out of range. -/
theorem indexForGrown_eq_error {fault : Fault} (h : indexForGrown tip grown value = .error fault) :
    fault = if value = 0 then .divisionByZero else .overflow := by
  unfold indexForGrown at h
  split at h
  next hzero =>
    cases h
    rw [if_pos hzero]
  next hzero =>
    rw [if_neg hzero]
    rcases bind_eq_error.mp h with hmul | ⟨_, -, h⟩
    · exact (Unsigned.mul_eq_error.mp hmul).2
    rcases bind_eq_error.mp h with hgain | ⟨_, -, h⟩
    · exact (Signed.checked_eq_error.mp hgain).2
    rcases bind_eq_error.mp h with hsub | ⟨_, -, h⟩
    · exact (Signed.checked_eq_error.mp hsub).2
    · cases h

/-! ### There and back -/

/-- What an index that is derived from growth is to it. -/
structure Backdates (tip : Index) (grown value : Amount) (backdate : Backdate) : Prop where
  /-- It lies as many steps back as the value goes into the growth, -/
  index : backdate.index.toInt = tip.toInt - (grown.toNat / value.toNat : ℕ)
  /-- and this many times the value is carried: -/
  carried : backdate.carried.toNat = grown.toNat / value.toNat * value.toNat
  /-- all of the growth, -/
  carried_le : backdate.carried.toNat ≤ grown.toNat
  /-- but for less than a step. -/
  lt_carried : grown.toNat < backdate.carried.toNat + value.toNat
  /-- It is also what the value grows from the index up to the tip, -/
  regrown : grownReward tip backdate.index value = .ok backdate.carried
  /-- and from no earlier index would it grow as little as that. -/
  earliest : ∀ index reward, grownReward tip index value = .ok reward →
    (reward ≤ grown ↔ backdate.index ≤ index)

theorem backdates_of_indexForGrown (h : indexForGrown tip grown value = .ok backdate) :
    Backdates tip grown value backdate := by
  obtain ⟨hvalue, -, hindex, hcarried⟩ := indexForGrown_eq_ok.mp h
  obtain ⟨hregrown, hle, hlt⟩ := (indexForGrown_eq_ok_iff hvalue).mp h
  exact ⟨hindex, hcarried, hle, hlt, hregrown, fun _ _ => le_grown_iff h⟩

/-- **Deriving an index inverts growth.**  An index is derived if and only if the steps that make it up
are an index, and so is the tip without them; otherwise there is an overflow.  From the derived index
the value grows again what it carries, and growth from any index is led back to this index in full. -/
theorem backdating_inverts_growth (tip : Index) (grown value : Amount) (hvalue : 0 < value) :
    ((∃ backdate, indexForGrown tip grown value = .ok backdate) ↔
      grown.toNat / value.toNat ≤ 2 ^ 127 - 1 ∧
        -2 ^ 127 ≤ tip.toInt - (grown.toNat / value.toNat : ℕ)) ∧
    (∀ fault, indexForGrown tip grown value = .error fault → fault = .overflow) ∧
    (∀ backdate, indexForGrown tip grown value = .ok backdate →
      Backdates tip grown value backdate) ∧
    ∀ index ≤ tip, grownReward tip index value = .ok grown →
      indexForGrown tip grown value = .ok ⟨index, grown⟩ := by
  have hpos : value.toNat ≠ 0 := Nat.ne_of_gt hvalue
  have hzero : value ≠ 0 := fun h => hpos (by rw [h, Unsigned.toNat_zero])
  refine ⟨exists_indexForGrown_iff hpos, fun fault h => ?_, fun _ => backdates_of_indexForGrown,
    fun _ _ => indexForGrown_of_grownReward hpos⟩
  rw [indexForGrown_eq_error h, if_neg hzero]

/-- All that can be grown, at a value of two: from the last index below zero it is led back to the
smallest index of all, and one is forfeited.  What is carried is led back there too. -/
theorem backdating_inverts_growth_smallest :
    (0 : Amount) < 2 ∧ ∃ backdate,
      indexForGrown (.ofInt (-1)) (.ofNat (2 ^ 128 - 1)) 2 = .ok backdate ∧
        Backdates (.ofInt (-1)) (.ofNat (2 ^ 128 - 1)) 2 backdate ∧
        backdate.index = Signed.minimum ∧ backdate.index ≤ .ofInt (-1) ∧
        grownReward (.ofInt (-1)) backdate.index 2 = .ok backdate.carried ∧
        indexForGrown (.ofInt (-1)) backdate.carried 2 = .ok backdate := by
  have hvalue : (0 : Amount) < 2 := by decide
  obtain ⟨hexists, -, hback, -⟩ :=
    backdating_inverts_growth (.ofInt (-1)) (.ofNat (2 ^ 128 - 1)) 2 hvalue
  obtain ⟨backdate, h⟩ := hexists.mpr (by decide)
  have hbackdates := hback backdate h
  have hsmallest : backdate.index = Signed.minimum :=
    Signed.ext (hbackdates.index.trans (by decide))
  have hle : backdate.index ≤ .ofInt (-1) := by
    rw [hsmallest]
    decide
  obtain ⟨-, -, -, hagain⟩ := backdating_inverts_growth (.ofInt (-1)) backdate.carried 2 hvalue
  exact ⟨hvalue, backdate, h, hbackdates, hsmallest, hle, hbackdates.regrown,
    hagain backdate.index hle hbackdates.regrown⟩

end StalkLedger
