import StalkLedger.Fault

/-!
# Checked arithmetic

Sums, differences and products that fail instead of leaving the range of their numbers.  Each
operation comes with the law that says when it succeeds and with what: `add_eq_ok` and its like.
-/

namespace StalkLedger

/-! ### Amounts -/

namespace Unsigned

variable {bits : Nat}

/-- The number `n`, or an overflow. -/
def checked (n : Nat) : Except Fault (Unsigned bits) :=
  if h : n < 2 ^ bits then .ok ⟨n, h⟩ else .error .overflow

/-- The sum, or an overflow. -/
def add (a b : Unsigned bits) : Except Fault (Unsigned bits) := checked (a.toNat + b.toNat)

/-- The product, or an overflow. -/
def mul (a b : Unsigned bits) : Except Fault (Unsigned bits) := checked (a.toNat * b.toNat)

/-- The difference, or an underflow. -/
def sub (a b : Unsigned bits) : Except Fault (Unsigned bits) :=
  if b ≤ a then .ok (a.monus b) else .error .underflow

/-- A result in range is exact, -/
theorem checked_eq_ok {n : Nat} {a : Unsigned bits} : checked n = .ok a ↔ a.toNat = n := by
  unfold checked
  split
  · exact ⟨fun h => by cases h; rfl, fun h => by subst h; rfl⟩
  next h => exact ⟨(fun e => by cases e), fun e => absurd (e ▸ a.toNat_lt) h⟩

/-- and a result that is out of range overflows. -/
theorem checked_eq_error {n : Nat} {f : Fault} :
    (checked n : Except Fault (Unsigned bits)) = .error f ↔ 2 ^ bits ≤ n ∧ f = .overflow := by
  unfold checked
  split
  next h => exact ⟨(fun e => by cases e), fun e => absurd h (Nat.not_lt.mpr e.1)⟩
  next h => exact ⟨fun e => by cases e; exact ⟨Nat.not_lt.mp h, rfl⟩, fun e => by rw [e.2]⟩

/-- A sum that is answered is exact, -/
theorem add_eq_ok {a b c : Unsigned bits} : a.add b = .ok c ↔ c.toNat = a.toNat + b.toNat :=
  checked_eq_ok

theorem add_eq_error {a b : Unsigned bits} {f : Fault} :
    a.add b = .error f ↔ 2 ^ bits ≤ a.toNat + b.toNat ∧ f = .overflow :=
  checked_eq_error

/-- and so is a product -/
theorem mul_eq_ok {a b c : Unsigned bits} : a.mul b = .ok c ↔ c.toNat = a.toNat * b.toNat :=
  checked_eq_ok

theorem mul_eq_error {a b : Unsigned bits} {f : Fault} :
    a.mul b = .error f ↔ 2 ^ bits ≤ a.toNat * b.toNat ∧ f = .overflow :=
  checked_eq_error

/-- and a difference. -/
theorem sub_eq_ok {a b c : Unsigned bits} : a.sub b = .ok c ↔ c.toNat + b.toNat = a.toNat := by
  unfold sub
  split
  next h =>
    rw [le_iff] at h
    constructor
    · intro e
      cases e
      exact Nat.sub_add_cancel h
    · intro e
      rw [show a.monus b = c from ext (by rw [toNat_monus]; omega)]
  next h =>
    rw [le_iff] at h
    exact ⟨nofun, fun e => by omega⟩

end Unsigned

/-! ### Indices -/

namespace Signed

variable {bits : Nat}

/-- The integer `i`, or an overflow. -/
def checked (i : Int) : Except Fault (Signed bits) :=
  match ofInt? bits i with
  | some a => .ok a
  | none => .error .overflow

/-- The sum, or an overflow. -/
def add (a b : Signed bits) : Except Fault (Signed bits) := checked (a.toInt + b.toInt)

/-- The difference, or an overflow. -/
def sub (a b : Signed bits) : Except Fault (Signed bits) := checked (a.toInt - b.toInt)

/-- The product, or an overflow. -/
def mul (a b : Signed bits) : Except Fault (Signed bits) := checked (a.toInt * b.toInt)

theorem checked_eq_ok {i : Int} {a : Signed bits} : checked i = .ok a ↔ a.toInt = i := by
  unfold checked
  split
  next b hb =>
    rw [ofInt?_eq_some_iff] at hb
    exact ⟨fun h => by cases h; exact hb.symm, fun h => by rw [ext (h.trans hb)]⟩
  next hn =>
    exact ⟨(fun e => by cases e), fun h => by
      rw [ofInt?_eq_some_iff.mpr h.symm] at hn
      cases hn⟩

theorem checked_eq_error {i : Int} {f : Fault} :
    (checked i : Except Fault (Signed bits)) = .error f ↔
      ¬ (-2 ^ (bits - 1) ≤ i ∧ i < 2 ^ (bits - 1)) ∧ f = .overflow := by
  unfold checked ofInt?
  split
  next b hb =>
    split at hb
    next h => exact ⟨(fun e => by cases e), fun e => absurd h e.1⟩
    next => cases hb
  next hn =>
    split at hn
    next => cases hn
    next h => exact ⟨fun e => by cases e; exact ⟨h, rfl⟩, fun e => by rw [e.2]⟩

theorem add_eq_ok {a b c : Signed bits} : a.add b = .ok c ↔ c.toInt = a.toInt + b.toInt :=
  checked_eq_ok

theorem sub_eq_ok {a b c : Signed bits} : a.sub b = .ok c ↔ c.toInt = a.toInt - b.toInt :=
  checked_eq_ok

theorem mul_eq_ok {a b c : Signed bits} : a.mul b = .ok c ↔ c.toInt = a.toInt * b.toInt :=
  checked_eq_ok

end Signed

/-! ### Differences of balances -/

namespace Unsigned

/-- The amount as a gain: itself, with a sign. -/
def gain (a : Amount) : Except Fault Index := Signed.checked a.toNat

/-- The amount as a loss: its negative.  Only amounts that are gains too are losses. -/
def loss (a : Amount) : Except Fault Index := do
  let gained ← a.gain
  Signed.checked (-gained.toInt)

/-- A gain that is in range is recorded exactly. -/
theorem gain_eq_ok {a : Amount} {i : Index} : a.gain = .ok i ↔ i.toInt = a.toNat :=
  Signed.checked_eq_ok

/-- By how much a balance changed, if both balances have a sign to spare. -/
def change (before after : Amount) : Except Fault Index := do
  let before ← before.gain
  let after ← after.gain
  after.sub before

end Unsigned

end StalkLedger
