import StalkLedger.Proofs.Cover
import StalkLedger.Proofs.Frame
import StalkLedger.Proofs.Placement

/-!
# A position taken in parts

A removal of a part pays its share of the value that is left, rounded down, so what is left is worth
more for each unit of quantity than before, by less than one unit of value altogether.  The next part
is a share of that.  Here the parts are followed until nothing is asked for any more
(`SortedMap.takeEach`).

* **One part** (`SortedMap.take_remains`).  What is left is compared with the whole
  position, not with what was left before: its value is at least its share of the whole, and with
  each part the surplus grows by less than one unit (`Position.Remains`).
* **Part after part** (`SortedMap.takeEach_remains`).  The induction is on the quantities asked for.
* **Parts are linear** (`SortedMap.takeEach_linear`).  Together the parts pay no more than one removal
  would, and less by fewer units than there are parts; nothing is lost, and the last part pays all
  that is left.
-/

namespace StalkLedger

/-! ### Sums of quantities -/

/-- The sum of some amounts, which need not be an amount. -/
def Unsigned.total (amounts : List Amount) : ℕ := (amounts.map Unsigned.toNat).sum

@[simp] theorem Unsigned.total_nil : total [] = 0 := rfl

@[simp] theorem Unsigned.total_cons (amount : Amount) (amounts : List Amount) :
    total (amount :: amounts) = amount.toNat + total amounts := List.sum_cons

/-! ### What is left of a position -/

namespace Position

/-- What a rest is worth beyond its share of the position, counted in parts of a unit of value as
small as the quantity of the position makes them. -/
def surplus (position rest : Position) : ℤ :=
  rest.value.toNat * position.quantity.toNat - position.value.toNat * rest.quantity.toNat

/-- What a rest of a rest is worth beyond its share is made up of what it is worth beyond its share
of the rest, and of its own share in what the rest was worth beyond. -/
theorem surplus_trans (position rest rest' : Position) :
    rest.quantity.toNat * position.surplus rest' =
      position.quantity.toNat * rest.surplus rest' +
        rest'.quantity.toNat * position.surplus rest := by
  unfold surplus
  ring

/-- Where the part is rounded down, the rest is rounded up. -/
theorem surplus_of_part {position rest : Position} (part : Position) (hq : 0 < position.quantity.toNat)
    (hpart : part.value.toNat =
      position.value.toNat * part.quantity.toNat / position.quantity.toNat)
    (hquantity : rest.quantity.toNat + part.quantity.toNat = position.quantity.toNat)
    (hvalue : rest.value.toNat + part.value.toNat = position.value.toNat) :
    0 ≤ position.surplus rest ∧ position.surplus rest ≤ position.quantity.toNat - 1 := by
  have hle : part.value.toNat * position.quantity.toNat ≤
      position.value.toNat * part.quantity.toNat := hpart ▸ Nat.div_mul_le_self _ _
  have hlt : position.value.toNat * part.quantity.toNat <
      part.value.toNat * position.quantity.toNat + position.quantity.toNat :=
    hpart ▸ Nat.lt_div_mul_add hq
  have hsum : position.value.toNat * rest.quantity.toNat +
        position.value.toNat * part.quantity.toNat =
      rest.value.toNat * position.quantity.toNat +
        part.value.toNat * position.quantity.toNat := by
    rw [← Nat.mul_add, ← Nat.add_mul, hquantity, hvalue]
  unfold surplus
  zify at hle hlt hsum
  omega

/-- What is left of a position of which a quantity was taken in some parts, for a value. -/
structure Remains (position : Position) (parts quantity value : ℕ) (rest : Position) : Prop where
  quantity : rest.quantity.toNat + quantity = position.quantity.toNat
  value : rest.value.toNat + value = position.value.toNat
  /-- No value is left without a quantity. -/
  empty : rest.quantity = 0 → rest.value = 0
  /-- The rest is worth its share of the position, -/
  share : 0 ≤ position.surplus rest
  /-- and for each part it is worth more by less than one unit. -/
  drift : position.surplus rest ≤ parts * (position.quantity.toNat - 1)

namespace Remains

variable {position rest rest' : Position} {parts quantity value : ℕ}

/-- Nothing was taken. -/
theorem whole (hq : position.quantity ≠ 0) : position.Remains 0 0 0 position := by
  have hzero : position.surplus position = 0 := sub_self _
  exact ⟨rfl, rfl, fun h => absurd h hq, hzero.ge, by simp [hzero]⟩

theorem quantity_le (r : position.Remains parts quantity value rest) :
    rest.quantity.toNat ≤ position.quantity.toNat := by
  rw [← r.quantity]
  exact Nat.le_add_right _ _

/-- All that is left is taken. -/
theorem last (r : position.Remains parts quantity value rest) (hq : 0 < position.quantity.toNat) :
    position.Remains (parts + 1) (quantity + rest.quantity.toNat) (value + rest.value.toNat)
      .nothing := by
  have hzero : position.surplus .nothing = 0 := by simp [surplus, nothing]
  refine ⟨?_, ?_, fun _ => rfl, hzero.ge, ?_⟩
  · rw [← r.quantity]
    simp [nothing, add_comm]
  · rw [← r.value]
    simp [nothing, add_comm]
  · rw [hzero]
    have : (0 : ℤ) ≤ position.quantity.toNat - 1 := by omega
    positivity

/-- A part of what is left is taken. -/
theorem part {amount paid : Amount} (r : position.Remains parts quantity value rest)
    (hlt : amount.toNat < rest.quantity.toNat)
    (hpaid : paid.toNat = rest.value.toNat * amount.toNat / rest.quantity.toNat)
    (hq : rest'.quantity.toNat + amount.toNat = rest.quantity.toNat)
    (hv : rest'.value.toNat + paid.toNat = rest.value.toNat) :
    position.Remains (parts + 1) (quantity + amount.toNat) (value + paid.toNat) rest' := by
  have hpos : 0 < rest.quantity.toNat := Nat.zero_lt_of_lt hlt
  obtain ⟨hshare, hdrift⟩ := surplus_of_part ⟨amount, paid⟩ hpos hpaid hq hv
  have htrans := surplus_trans position rest rest'
  refine ⟨?_, ?_, fun hzero => ?_, ?_, ?_⟩
  · rw [← r.quantity, ← hq]
    ring
  · rw [← r.value, ← hv]
    ring
  · rw [← Unsigned.toNat_inj, Unsigned.toNat_zero] at hzero
    omega
  · refine nonneg_of_mul_nonneg_right ?_ (Nat.cast_pos.mpr hpos)
    have := r.share
    rw [htrans]
    positivity
  · refine le_of_mul_le_mul_left ?_ (Nat.cast_pos.mpr hpos : (0 : ℤ) < rest.quantity.toNat)
    calc (rest.quantity.toNat : ℤ) * position.surplus rest'
        = position.quantity.toNat * rest.surplus rest' +
            rest'.quantity.toNat * position.surplus rest := htrans
      _ ≤ position.quantity.toNat * (rest.quantity.toNat - 1) +
            rest.quantity.toNat * (parts * (position.quantity.toNat - 1)) := by
          have hle' : (rest'.quantity.toNat : ℤ) ≤ rest.quantity.toNat := by omega
          gcongr
          · exact r.share
          · exact r.drift
      _ ≤ rest.quantity.toNat * (position.quantity.toNat - 1) +
            rest.quantity.toNat * (parts * (position.quantity.toNat - 1)) := by
          have hle' : (rest.quantity.toNat : ℤ) ≤ position.quantity.toNat :=
            Nat.cast_le.mpr r.quantity_le
          linarith
      _ = rest.quantity.toNat * ((parts + 1 : ℕ) * (position.quantity.toNat - 1)) := by
          push_cast
          ring

/-- The surplus of what is left is what the parts fell short of their share. -/
theorem surplus_eq (r : position.Remains parts quantity value rest) :
    position.surplus rest =
      position.value.toNat * quantity - value * position.quantity.toNat := by
  rw [surplus, ← r.quantity, ← r.value]
  push_cast
  ring

/-- So the parts pay no more than the share of what they take, -/
theorem value_le (r : position.Remains parts quantity value rest)
    (hq : 0 < position.quantity.toNat) :
    value ≤ position.value.toNat * quantity / position.quantity.toNat := by
  rw [Nat.le_div_iff_mul_le hq]
  have := r.share
  rw [r.surplus_eq] at this
  zify
  linarith

/-- and fall short of it by less than one unit each. -/
theorem lt_value (r : position.Remains parts quantity value rest)
    (hq : 0 < position.quantity.toNat) (hparts : 0 < parts) :
    (position.value.toNat * quantity : ℚ) / position.quantity.toNat - parts < value := by
  have hlt : position.value.toNat * quantity < (value + parts) * position.quantity.toNat := by
    have := r.drift
    rw [r.surplus_eq] at this
    zify at hparts ⊢
    linarith
  rw [sub_lt_iff_lt_add, div_lt_iff₀ (Nat.cast_pos.mpr hq)]
  exact_mod_cast hlt

/-- As long as a quantity is left, value is left. -/
theorem value_pos (r : position.Remains parts quantity value rest) (hv : position.value ≠ 0)
    (hrest : 0 < rest.quantity.toNat) : 0 < rest.value.toNat := by
  have hshare := r.share
  have hpos : 0 < position.value.toNat * rest.quantity.toNat :=
    Nat.mul_pos (Unsigned.pos_of_ne_zero hv) hrest
  have hle : position.value.toNat * rest.quantity.toNat ≤
      rest.value.toNat * position.quantity.toNat := by
    rw [surplus, sub_nonneg] at hshare
    exact_mod_cast hshare
  exact Nat.pos_of_mul_pos_right (hpos.trans_le hle)

end Remains

end Position

/-! ### Part after part -/

namespace SortedMap

variable {μ : Type} [Key μ] {store : SortedMap (Slot μ) Position} {slot : Slot μ}
  {position rest : Position} {parts quantity value : ℕ}

/-- Take quantity after quantity out of the entry in a slot; the values taken, and the store without
them. -/
def takeEach (store : SortedMap (Slot μ) Position) (slot : Slot μ) :
    List Amount → Except Fault (List Amount × SortedMap (Slot μ) Position)
  | [] => .ok ([], store)
  | amount :: amounts => do
    let (value, store) ← store.take slot amount
    let (values, store) ← takeEach store slot amounts
    return (value :: values, store)

/-- A rest in a slot; a rest of nothing is not kept. -/
def Leaves (store : SortedMap (Slot μ) Position) (slot : Slot μ) (rest : Position) : Prop :=
  store.get? slot = if rest.quantity = 0 then none else some rest

/-- **One part** of what is left is paid, and the slot holds what is left then. -/
theorem take_remains {amount : Amount} (hs : store.Leaves slot rest)
    (r : position.Remains parts quantity value rest) (hne : amount ≠ 0)
    (hle : amount ≤ rest.quantity) :
    ∃ paid store' rest', store.take slot amount = .ok (paid, store') ∧ store'.Leaves slot rest' ∧
      position.Remains (parts + 1) (quantity + amount.toNat) (value + paid.toNat) rest' := by
  have hheld : rest.quantity ≠ 0 := by
    rintro hzero
    rw [hzero] at hle
    exact hne (Unsigned.ext (Nat.le_zero.mp hle))
  have hget : store.get? slot = some rest := hs.trans (if_neg hheld)
  obtain ⟨paid, store', ht⟩ := take_succeeds_of_get? hget hheld hle
  refine ⟨paid, store', ?_⟩
  obtain ⟨_, hget', hcases⟩ := take_eq_ok ht
  obtain rfl := Option.some.inj (hget.symm.trans hget')
  rcases hcases with ⟨rfl, rfl, rfl⟩ | ⟨hlt, hpaid, rest', hq, hv, rfl⟩
  · have hpos : 0 < rest.quantity.toNat := Unsigned.pos_of_ne_zero hheld
    exact ⟨.nothing, ht, get?_erase_self _ _, r.last (hpos.trans_le r.quantity_le)⟩
  · refine ⟨rest', ht, ?_, r.part hlt hpaid hq hv⟩
    have hleft : rest'.quantity ≠ 0 := by
      rintro hzero
      rw [hzero, Unsigned.toNat_zero] at hq
      omega
    rw [Leaves, get?_insert_self, if_neg hleft]

/-- **Part after part**: the induction is on the quantities asked for, and what is left covers those
that are still to come. -/
theorem takeEach_remains {amounts : List Amount} (hs : store.Leaves slot rest)
    (r : position.Remains parts quantity value rest) (hpos : ∀ amount ∈ amounts, amount ≠ 0)
    (hle : Unsigned.total amounts ≤ rest.quantity.toNat) :
    ∃ values store' rest', store.takeEach slot amounts = .ok (values, store') ∧
      store'.Leaves slot rest' ∧
      position.Remains (parts + amounts.length) (quantity + Unsigned.total amounts)
        (value + Unsigned.total values) rest' ∧
      ∀ other, other ≠ slot → store'.get? other = store.get? other := by
  induction amounts generalizing store rest parts quantity value with
  | nil => exact ⟨[], store, rest, rfl, hs, r, fun _ _ => rfl⟩
  | cons amount amounts ih =>
    obtain ⟨hne, hpos⟩ := List.forall_mem_cons.mp hpos
    rw [Unsigned.total_cons] at hle
    have hfits : amount ≤ rest.quantity := Unsigned.le_iff.mpr (by omega)
    obtain ⟨paid, store₁, rest₁, ht, hs₁, r₁⟩ := take_remains hs r hne hfits
    have hle₁ : Unsigned.total amounts ≤ rest₁.quantity.toNat := by
      have := r.quantity
      have := r₁.quantity
      omega
    obtain ⟨values, store₂, rest₂, hts, hs₂, r₂, hothers⟩ := ih hs₁ r₁ hpos hle₁
    refine ⟨paid :: values, store₂, rest₂, ?_, hs₂, ?_, fun other hother => ?_⟩
    · simp only [takeEach, bind_eq_ok, Prod.exists, pure_eq_ok, Prod.mk.injEq]
      exact ⟨paid, store₁, ht, values, store₂, hts, rfl, rfl⟩
    · rw [List.length_cons, Nat.add_comm amounts.length, Unsigned.total_cons, Unsigned.total_cons,
        ← Nat.add_assoc, ← Nat.add_assoc, ← Nat.add_assoc]
      exact r₂
    · rw [hothers other hother, get?_of_take ht hother]

/-- A value is paid for each quantity. -/
theorem length_of_takeEach {amounts values : List Amount} {store' : SortedMap (Slot μ) Position}
    (h : store.takeEach slot amounts = .ok (values, store')) : values.length = amounts.length := by
  induction amounts generalizing store values with
  | nil =>
    cases h
    rfl
  | cons amount amounts ih =>
    simp only [takeEach, bind_eq_ok, Prod.exists, pure_eq_ok, Prod.mk.injEq] at h
    obtain ⟨_, store₁, -, values, _, hts, rfl, rfl⟩ := h
    rw [List.length_cons, List.length_cons, ih hts]

/-- One removal pays the share of its quantity, rounded down, of the whole quantity too. -/
theorem pays_share {amount value : Amount} {store' : SortedMap (Slot μ) Position}
    (hget : store.get? slot = some position) (hq : position.quantity ≠ 0)
    (h : store.take slot amount = .ok (value, store')) :
    value.toNat = position.value.toNat * amount.toNat / position.quantity.toNat := by
  obtain ⟨_, hget', hcases⟩ := take_eq_ok h
  obtain rfl := Option.some.inj (hget.symm.trans hget')
  rcases hcases with ⟨rfl, rfl, -⟩ | ⟨-, hvalue, -⟩
  · exact (Nat.mul_div_cancel _ (Unsigned.pos_of_ne_zero hq)).symm
  · exact hvalue

/-- What the removals of some quantities out of a slot pay and leave, next to the position that was
there. -/
structure PaidInParts (store : SortedMap (Slot μ) Position) (slot : Slot μ) (position : Position)
    (amounts values : List Amount) (store' : SortedMap (Slot μ) Position) : Prop where
  /-- Together they pay no more than the share of their total, rounded down, -/
  total_le : Unsigned.total values ≤
    position.value.toNat * Unsigned.total amounts / position.quantity.toNat
  /-- which is what one removal of the total would pay. -/
  one_removal : ∃ total once store₁, total.toNat = Unsigned.total amounts ∧
    store.take slot total = .ok (once, store₁) ∧ Unsigned.total values ≤ once.toNat
  /-- They pay less than the exact share by fewer units than there are removals. -/
  lt_total : amounts ≠ [] →
    (position.value.toNat * Unsigned.total amounts : ℚ) / position.quantity.toNat - amounts.length <
      Unsigned.total values
  /-- The whole quantity pays the whole value, and the entry is gone. -/
  emptied : Unsigned.total amounts = position.quantity.toNat →
    Unsigned.total values = position.value.toNat ∧ store'.get? slot = none
  /-- Short of that, the entry that is left has the rest of the quantity, and the rest of the value is
  never nothing. -/
  left : Unsigned.total amounts < position.quantity.toNat →
    ∃ rest, store'.get? slot = some rest ∧
      rest.quantity.toNat = position.quantity.toNat - Unsigned.total amounts ∧
      rest.value.toNat + Unsigned.total values = position.value.toNat ∧ 0 < rest.value.toNat
  /-- No other entry changes. -/
  others : ∀ other, other ≠ slot → store'.get? other = store.get? other

/-- **Parts are linear**, and they are rounded down for the sake of those who stay. -/
theorem takeEach_linear {amounts : List Amount} (hget : store.get? slot = some position)
    (hq : position.quantity ≠ 0) (hv : position.value ≠ 0)
    (hne : ∀ amount ∈ amounts, amount ≠ 0)
    (hle : Unsigned.total amounts ≤ position.quantity.toNat) :
    ∃ values store', store.takeEach slot amounts = .ok (values, store') ∧
      values.length = amounts.length ∧
      PaidInParts store slot position amounts values store' := by
  have hpos : 0 < position.quantity.toNat := Unsigned.pos_of_ne_zero hq
  have hwhole : store.Leaves slot position := hget.trans (if_neg hq).symm
  obtain ⟨values, store', rest, hts, hs, r, hothers⟩ :=
    takeEach_remains hwhole (.whole hq) hne hle
  rw [Nat.zero_add, Nat.zero_add, Nat.zero_add] at r
  have hquantity := r.quantity
  refine ⟨values, store', hts, length_of_takeEach hts, r.value_le hpos, ?_, fun hsome => ?_,
    fun hall => ?_, fun hsome => ?_, hothers⟩
  · let total : Amount := ⟨Unsigned.total amounts, hle.trans_lt position.quantity.toNat_lt⟩
    have hfits : total ≤ position.quantity := hle
    obtain ⟨once, store₁, ht⟩ := take_succeeds_of_get? hget hq hfits
    refine ⟨total, once, store₁, rfl, ht, ?_⟩
    rw [pays_share hget hq ht]
    exact r.value_le hpos
  · exact r.lt_value hpos (List.length_pos_of_ne_nil hsome)
  · have hzero : rest.quantity = 0 := Unsigned.ext (by rw [Unsigned.toNat_zero]; omega)
    have hvalue := r.value
    rw [r.empty hzero, Unsigned.toNat_zero, Nat.zero_add] at hvalue
    exact ⟨hvalue, hs.trans (if_pos hzero)⟩
  · have hrest : rest.quantity ≠ 0 := by
      rintro hzero
      rw [hzero, Unsigned.toNat_zero] at hquantity
      omega
    exact ⟨rest, hs.trans (if_neg hrest), by omega, r.value,
      r.value_pos hv (Unsigned.pos_of_ne_zero hrest)⟩

/-- Of ten that are worth seven, three pay two at once, and nothing one by one. -/
theorem takeEach_linear_of_ten :
    ((∅ : SortedMap (Slot Index) Position).insert ⟨7, 1, 0⟩ ⟨10, 7⟩).get? ⟨7, 1, 0⟩ =
        some ⟨10, 7⟩ ∧
      (10 : Amount) ≠ 0 ∧ (7 : Amount) ≠ 0 ∧ (∀ amount ∈ ([1, 1, 1] : List Amount), amount ≠ 0) ∧
      Unsigned.total [1, 1, 1] ≤ (10 : Amount).toNat ∧
      ∃ values store', ((∅ : SortedMap (Slot Index) Position).insert ⟨7, 1, 0⟩ ⟨10, 7⟩).takeEach
          ⟨7, 1, 0⟩ [1, 1, 1] = .ok (values, store') ∧ values.length = 3 ∧
        PaidInParts ((∅ : SortedMap (Slot Index) Position).insert ⟨7, 1, 0⟩ ⟨10, 7⟩) ⟨7, 1, 0⟩
          ⟨10, 7⟩ [1, 1, 1] values store' :=
  ⟨by decide +kernel, by decide, by decide, by decide, by decide,
    takeEach_linear (by decide +kernel) (by decide) (by decide) (by decide) (by decide)⟩

end SortedMap

end StalkLedger
