import Mathlib.Algebra.BigOperators.Group.List.Basic
import Mathlib.Algebra.Order.BigOperators.Group.List
import Mathlib.Algebra.Order.Group.Int
import Mathlib.Algebra.BigOperators.Ring.List
import Mathlib.Tactic.Abel
import StalkLedger.SortedMap

/-!
# Sums over maps

The books are compared by their sums.  `SortedMap.sum` adds up a measure of the entries of a map;
putting a value under a key changes the sum by what the new entry measures, less what the entry it
replaces measured (`sum_insert`), and dropping an entry takes away what it measured (`sum_erase`).
-/

namespace StalkLedger

namespace Entries

variable {κ α : Type} [Key κ]

/-- What the entry under a key measures; nothing, if there is none. -/
def measureAt (f : κ → α → ℤ) (k : κ) (es : List (κ × α)) : ℤ := (get? k es).elim 0 (f k)

/-- An entry that is inserted counts in the place of the one that was there. -/
theorem sum_insert {es : List (κ × α)} (h : Ascending es) (f : κ → α → ℤ) (k : κ) (a : α) :
    ((insert k a es).map fun e => f e.1 e.2).sum =
      (es.map fun e => f e.1 e.2).sum + (f k a - measureAt f k es) := by
  induction es with
  | nil => simp [insert, measureAt, get?]
  | cons e es ih =>
    obtain ⟨he, hes⟩ := List.pairwise_cons.mp h
    unfold insert measureAt
    split
    next hlt =>
      rw [get?_eq_none_of_lt fun x hx => ?_]
      · simp only [List.map_cons, List.sum_cons, Option.elim_none]
        abel
      · rcases List.mem_cons.mp hx with rfl | hx
        · exact hlt
        · exact Nat.lt_trans hlt (he x hx)
    next =>
      split
      next heq =>
        obtain rfl := Key.rank_inj heq
        simp only [get?, if_true, List.map_cons, List.sum_cons, Option.elim_some]
        abel
      next hne =>
        simp only [get?, if_neg hne, List.map_cons, List.sum_cons, ih hes, measureAt]
        abel

/-- An entry that is erased no longer counts. -/
theorem sum_erase {es : List (κ × α)} (f : κ → α → ℤ) (k : κ) :
    ((erase k es).map fun e => f e.1 e.2).sum =
      (es.map fun e => f e.1 e.2).sum - measureAt f k es := by
  induction es with
  | nil => simp [erase, measureAt, get?]
  | cons e es ih =>
    unfold erase measureAt
    split
    next heq =>
      obtain rfl := Key.rank_inj heq
      simp only [get?, if_true, List.map_cons, List.sum_cons, Option.elim_some]
      abel
    next hne =>
      simp only [get?, if_neg hne, List.map_cons, List.sum_cons, ih, measureAt]
      abel

end Entries

namespace SortedMap

variable {κ α : Type} [Key κ]

/-- The sum of a measure over the entries. -/
def sum (m : SortedMap κ α) (f : κ → α → ℤ) : ℤ := (m.entries.map fun e => f e.1 e.2).sum

/-- What the entry under a key measures; nothing, if there is none. -/
def measureAt (m : SortedMap κ α) (f : κ → α → ℤ) (k : κ) : ℤ := (m.get? k).elim 0 (f k)

/-- **An entry put into a map** adds what it measures, in lieu of what was there. -/
theorem sum_insert (m : SortedMap κ α) (f : κ → α → ℤ) (k : κ) (a : α) :
    (m.insert k a).sum f = m.sum f + (f k a - m.measureAt f k) :=
  Entries.sum_insert m.ascending f k a

/-- **An entry dropped from a map** takes what it measured away. -/
theorem sum_erase (m : SortedMap κ α) (f : κ → α → ℤ) (k : κ) :
    (m.erase k).sum f = m.sum f - m.measureAt f k :=
  Entries.sum_erase f k

/-- What is found at a key counts there. -/
theorem measureAt_of_get? {m : SortedMap κ α} {k : κ} {a : α} (h : m.get? k = some a)
    (f : κ → α → ℤ) : m.measureAt f k = f k a := by
  rw [measureAt, h, Option.elim_some]

/-- A measure that gives nothing to a default may read the map with the default. -/
theorem measureAt_eq_getD {m : SortedMap κ α} {f : κ → α → ℤ} {k : κ} {a : α} (h : f k a = 0) :
    m.measureAt f k = f k ((m.get? k).getD a) := by
  unfold measureAt
  cases m.get? k with
  | none => exact h.symm
  | some => rfl

/-- Sums are the same if every entry counts the same, -/
theorem sum_congr {m : SortedMap κ α} {f g : κ → α → ℤ}
    (h : ∀ k a, m.get? k = some a → f k a = g k a) : m.sum f = m.sum g :=
  congrArg List.sum <| List.map_congr_left fun e he => h e.1 e.2 (mem_entries_iff.mp he)

/-- and zero if every entry counts nothing. -/
theorem sum_eq_zero {m : SortedMap κ α} {f : κ → α → ℤ}
    (h : ∀ k a, m.get? k = some a → f k a = 0) : m.sum f = 0 := by
  refine List.sum_eq_zero fun x hx => ?_
  obtain ⟨e, he, rfl⟩ := List.mem_map.mp hx
  exact h e.1 e.2 (mem_entries_iff.mp he)

theorem sum_add (m : SortedMap κ α) (f g : κ → α → ℤ) :
    (m.sum fun k a => f k a + g k a) = m.sum f + m.sum g :=
  List.sum_map_add

/-- A sum of natural numbers may be taken as one. -/
theorem sum_natCast (m : SortedMap κ α) (f : κ → α → ℕ) :
    (m.sum fun k a => (f k a : ℤ)) = ((m.entries.map fun e => f e.1 e.2).sum : ℕ) := by
  rw [sum]
  induction m.entries with
  | nil => rfl
  | cons e es ih => rw [List.map_cons, List.sum_cons, ih, List.map_cons, List.sum_cons, Nat.cast_add]

theorem sum_mul_left (m : SortedMap κ α) (c : ℤ) (f : κ → α → ℤ) :
    (m.sum fun k a => c * f k a) = c * m.sum f :=
  List.sum_map_mul_left ..

/-- The one key under which anything is measured measures all. -/
theorem sum_eq_measureAt [DecidableEq κ] {m : SortedMap κ α} {f : κ → α → ℤ} {k : κ}
    (h : ∀ k' a', m.get? k' = some a' → k' ≠ k → f k' a' = 0) : m.sum f = m.measureAt f k := by
  have hrest : (m.erase k).sum f = 0 := by
    refine sum_eq_zero fun k' a' hget => ?_
    rw [get?_erase] at hget
    split at hget
    · cases hget
    next hne => exact h k' a' hget hne
  rw [sum_erase] at hrest
  exact sub_eq_zero.mp hrest

/-- The one entry that measures anything measures all. -/
theorem sum_eq_single [DecidableEq κ] {m : SortedMap κ α} {f : κ → α → ℤ} {k : κ} {a : α}
    (hk : m.get? k = some a) (h : ∀ k' a', m.get? k' = some a' → k' ≠ k → f k' a' = 0) :
    m.sum f = f k a := by
  rw [sum_eq_measureAt h, measureAt_of_get? hk]

/-- Two maps may be summed up in either order. -/
theorem sum_comm {μ β : Type} [Key μ] (m : SortedMap κ α) (n : SortedMap μ β)
    (f : κ → α → μ → β → ℤ) :
    (m.sum fun k a => n.sum (f k a)) = n.sum fun l b => m.sum fun k a => f k a l b := by
  unfold sum
  induction m.entries with
  | nil => simp
  | cons e es ih => simp only [List.map_cons, List.sum_cons, ih, List.sum_map_add]

/-- If no entry counts below zero, neither does the sum. -/
theorem sum_nonneg {m : SortedMap κ α} {f : κ → α → ℤ}
    (h : ∀ k a, m.get? k = some a → 0 ≤ f k a) : 0 ≤ m.sum f := by
  refine List.sum_nonneg fun x hx => ?_
  obtain ⟨e, he, rfl⟩ := List.mem_map.mp hx
  exact h e.1 e.2 (mem_entries_iff.mp he)

theorem sum_le_sum {m : SortedMap κ α} {f g : κ → α → ℤ}
    (h : ∀ k a, m.get? k = some a → f k a ≤ g k a) : m.sum f ≤ m.sum g :=
  List.sum_le_sum fun e he => h e.1 e.2 (mem_entries_iff.mp he)

/-- An entry measures no more than all of them, if none measures less than nothing. -/
theorem le_sum {m : SortedMap κ α} {f : κ → α → ℤ} {k : κ} {a : α}
    (h : ∀ k a, m.get? k = some a → 0 ≤ f k a) (hk : m.get? k = some a) : f k a ≤ m.sum f := by
  refine List.single_le_sum (fun x hx => ?_) _ ?_
  · obtain ⟨e, he, rfl⟩ := List.mem_map.mp hx
    exact h e.1 e.2 (mem_entries_iff.mp he)
  · exact List.mem_map.mpr ⟨(k, a), mem_entries_iff.mpr hk, rfl⟩

/-- So it is under a key that there may be no entry for. -/
theorem measureAt_le_sum {m : SortedMap κ α} {f : κ → α → ℤ}
    (h : ∀ k a, m.get? k = some a → 0 ≤ f k a) (k : κ) : m.measureAt f k ≤ m.sum f := by
  cases hk : m.get? k with
  | none =>
    rw [measureAt, hk, Option.elim_none]
    exact sum_nonneg h
  | some a =>
    rw [measureAt_of_get? hk]
    exact le_sum h hk

end SortedMap

end StalkLedger
