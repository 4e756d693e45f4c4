import StalkLedger.Number

/-!
# Maps in the order of their keys

A map is the list of its entries with strictly ascending keys, so two maps with the same lookups are
the same map (`SortedMap.ext_get?`), and listing a map lists it in order.

Keys are compared by a number that determines them (`Key.rank`).  Pairs of keys are compared
lexicographically, because the rank of a pair writes the two ranks as two digits
(`Key.pairRank_lt_iff`).

Each operation has one law about lookups: `get?_empty`, `get?_insert`, `get?_erase`,
`get?_of_mapEach`.
-/

namespace StalkLedger

/-! ### Keys -/

/-- A type whose values are numbered, in the order in which maps list them. -/
class Key (κ : Type) where
  /-- How many numbers there are. -/
  size : Nat
  /-- The number of a key. -/
  rank : κ → Nat
  rank_lt : ∀ k, rank k < size
  rank_inj : ∀ {a b}, rank a = rank b → a = b

namespace Key

instance {bits : Nat} : Key (Unsigned bits) where
  size := 2 ^ bits
  rank n := n.toNat
  rank_lt n := n.toNat_lt
  rank_inj h := Unsigned.ext h

/-- How far a signed number is above the smallest one. -/
def offset {bits : Nat} (i : Signed bits) : Nat := (i.toInt + 2 ^ (bits - 1)).toNat

/-- It is never cut off at zero. -/
theorem natCast_offset {bits : Nat} (i : Signed bits) :
    (offset i : Int) = i.toInt + 2 ^ (bits - 1) := by
  have := i.le_toInt
  unfold offset
  omega

instance {bits : Nat} : Key (Signed bits) where
  size := 2 * 2 ^ (bits - 1)
  rank := offset
  rank_lt i := by
    have := natCast_offset i
    have := i.toInt_lt
    have e : ((2 * 2 ^ (bits - 1) : Nat) : Int) = 2 * 2 ^ (bits - 1) := by push_cast; rfl
    omega
  rank_inj {a b} h := by
    have ha := natCast_offset a
    have hb := natCast_offset b
    rw [h] at ha
    exact Signed.ext (by omega)

variable {κ μ : Type} [Key κ] [Key μ]

/-- Two ranks as the two digits of one number. -/
def pairRank (k : κ) (m : μ) : Nat := rank k * size μ + rank m

/-- Pairs are ordered by their first component, and by the second where the first are the same, -/
theorem pairRank_lt_iff {k k' : κ} {m m' : μ} :
    pairRank k m < pairRank k' m' ↔ rank k < rank k' ∨ rank k = rank k' ∧ rank m < rank m' := by
  have hm := rank_lt m
  have hm' := rank_lt m'
  unfold pairRank
  rcases Nat.lt_trichotomy (rank k) (rank k') with h | h | h
  · have := Nat.mul_le_mul_right (size μ) (Nat.succ_le_of_lt h)
    rw [Nat.succ_mul] at this
    exact ⟨fun _ => .inl h, fun _ => by omega⟩
  · rw [h]
    exact ⟨fun _ => .inr ⟨rfl, by omega⟩, fun h' => by omega⟩
  · have := Nat.mul_le_mul_right (size μ) (Nat.succ_le_of_lt h)
    rw [Nat.succ_mul] at this
    exact ⟨fun _ => by omega, fun h' => by omega⟩

/-- so a pair is known by its rank, -/
theorem pairRank_inj {k k' : κ} {m m' : μ} (h : pairRank k m = pairRank k' m') :
    k = k' ∧ m = m' := by
  have h₁ : pairRank k m < pairRank k' m' ↔ _ := pairRank_lt_iff
  have h₂ : pairRank k' m' < pairRank k m ↔ _ := pairRank_lt_iff
  exact ⟨rank_inj (by omega), rank_inj (by omega)⟩

/-- which fits where the ranks of both components fit. -/
theorem pairRank_lt (k : κ) (m : μ) : pairRank k m < size κ * size μ := by
  have hm := rank_lt m
  have := Nat.mul_le_mul_right (size μ) (Nat.succ_le_of_lt (rank_lt k))
  rw [Nat.succ_mul] at this
  unfold pairRank
  omega

instance : Key (κ × μ) where
  size := size κ * size μ
  rank p := pairRank p.1 p.2
  rank_lt p := pairRank_lt p.1 p.2
  rank_inj h := Prod.ext (pairRank_inj h).1 (pairRank_inj h).2

/-- A key is known by its rank. -/
theorem rank_eq_iff {a b : κ} : rank a = rank b ↔ a = b := ⟨rank_inj, fun h => h ▸ rfl⟩

end Key

open Key (rank rank_inj)

/-! ### Lists of entries -/

namespace Entries

variable {κ α : Type} [Key κ]

/-- The keys ascend strictly. -/
def Ascending (es : List (κ × α)) : Prop := es.Pairwise fun a b => rank a.1 < rank b.1

/-- The first value under a key. -/
def get? (k : κ) : List (κ × α) → Option α
  | [] => none
  | e :: es => if rank k = rank e.1 then some e.2 else get? k es

/-- Put a value in its place, in lieu of the value that is there. -/
def insert (k : κ) (a : α) : List (κ × α) → List (κ × α)
  | [] => [(k, a)]
  | e :: es =>
    if rank k < rank e.1 then (k, a) :: e :: es
    else if rank k = rank e.1 then (k, a) :: es
    else e :: insert k a es

/-- Drop the first value under a key. -/
def erase (k : κ) : List (κ × α) → List (κ × α)
  | [] => []
  | e :: es => if rank k = rank e.1 then es else e :: erase k es

/-- Change every value by a function that may fail, from the first entry to the last. -/
def mapEach {ε : Type} (f : α → Except ε α) : List (κ × α) → Except ε (List (κ × α))
  | [] => .ok []
  | e :: es => do
    let a ← f e.2
    let es ← mapEach f es
    return (e.1, a) :: es

/-- After an insertion there is the new entry and, at most, the old ones, -/
theorem mem_insert {k : κ} {a : α} {es : List (κ × α)} {x : κ × α} (h : x ∈ insert k a es) :
    x = (k, a) ∨ x ∈ es := by
  induction es with
  | nil => simpa [insert] using h
  | cons e es ih =>
    unfold insert at h
    split at h
    · simpa using h
    · split at h
      · rcases List.mem_cons.mp h with h | h
        · exact .inl h
        · exact .inr (List.mem_cons_of_mem _ h)
      · rcases List.mem_cons.mp h with h | h
        · exact .inr (h ▸ List.mem_cons_self)
        · exact (ih h).imp_right (List.mem_cons_of_mem _)

/-- and the keys still ascend. -/
theorem Ascending.insert {es : List (κ × α)} (h : Ascending es) (k : κ) (a : α) :
    Ascending (insert k a es) := by
  induction es with
  | nil => exact List.pairwise_singleton _ _
  | cons e es ih =>
    have ⟨he, hes⟩ := List.pairwise_cons.mp h
    unfold Entries.insert
    split
    next hlt =>
      refine List.pairwise_cons.mpr ⟨fun x hx => ?_, h⟩
      rcases List.mem_cons.mp hx with rfl | hx
      · exact hlt
      · exact Nat.lt_trans hlt (he x hx)
    next hge =>
      split
      next heq => exact List.pairwise_cons.mpr ⟨fun x hx => heq ▸ he x hx, hes⟩
      next hne =>
        refine List.pairwise_cons.mpr ⟨fun x hx => ?_, ih hes⟩
        rcases mem_insert hx with rfl | hx
        · show rank e.1 < rank k
          omega
        · exact he x hx

/-- Erasing only leaves entries out, -/
theorem erase_sublist (k : κ) (es : List (κ × α)) : (erase k es).Sublist es := by
  induction es with
  | nil => exact .slnil
  | cons e es ih =>
    unfold erase
    split
    · exact List.sublist_cons_self _ _
    · exact ih.cons_cons _

/-- so the keys still ascend. -/
theorem Ascending.erase {es : List (κ × α)} (h : Ascending es) (k : κ) : Ascending (erase k es) :=
  List.Pairwise.sublist (erase_sublist k es) h

omit [Key κ] in
/-- Changing every value succeeds if it does for the first entry and for the others. -/
theorem mapEach_cons_eq_ok {ε : Type} {f : α → Except ε α} {e : κ × α} {es es' : List (κ × α)} :
    mapEach f (e :: es) = .ok es' ↔
      ∃ a r, f e.2 = .ok a ∧ mapEach f es = .ok r ∧ es' = (e.1, a) :: r := by
  simp only [mapEach, bind, Except.bind, pure, Except.pure]
  cases f e.2 with
  | error => simp
  | ok a =>
    cases mapEach f es with
    | error => simp
    | ok r =>
      constructor
      · intro h
        cases h
        exact ⟨a, r, rfl, rfl, rfl⟩
      · rintro ⟨a', r', ha, hr, rfl⟩
        cases ha
        cases hr
        rfl

/-- A key has the changed value afterwards, if it had a value before. -/
theorem get?_of_mapEach {ε : Type} {f : α → Except ε α} {es es' : List (κ × α)}
    (h : mapEach f es = .ok es') (k : κ) :
    (get? k es = none ∧ get? k es' = none) ∨
      ∃ a a', get? k es = some a ∧ f a = .ok a' ∧ get? k es' = some a' := by
  induction es generalizing es' with
  | nil => cases h; exact .inl ⟨rfl, rfl⟩
  | cons e es ih =>
    obtain ⟨a', r, ha, hr, rfl⟩ := mapEach_cons_eq_ok.mp h
    simp only [get?]
    split
    · exact .inr ⟨e.2, a', rfl, ha, rfl⟩
    · exact ih hr

/-- Changing the values leaves the keys as they are. -/
theorem rank_of_mapEach {ε : Type} {f : α → Except ε α} {es es' : List (κ × α)}
    (h : mapEach f es = .ok es') : es'.map (fun e => rank e.1) = es.map (fun e => rank e.1) := by
  induction es generalizing es' with
  | nil => cases h; rfl
  | cons e es ih =>
    obtain ⟨a, r, -, hr, rfl⟩ := mapEach_cons_eq_ok.mp h
    simp [ih hr]

/-- Entries ascend if their ranks do. -/
theorem ascending_iff {es : List (κ × α)} :
    Ascending es ↔ (es.map fun e => rank e.1).Pairwise (· < ·) :=
  List.pairwise_map.symm

/-- Changing the values leaves the entries in order. -/
theorem Ascending.of_mapEach {ε : Type} {f : α → Except ε α} {es es' : List (κ × α)}
    (hs : Ascending es) (h : mapEach f es = .ok es') : Ascending es' := by
  rw [ascending_iff, rank_of_mapEach h]
  exact ascending_iff.mp hs

/-- What is inserted is found at its key, and nothing else changes. -/
theorem get?_insert (k k' : κ) (a : α) (es : List (κ × α)) :
    get? k' (insert k a es) = if rank k' = rank k then some a else get? k' es := by
  induction es with
  | nil => rfl
  | cons e es ih =>
    unfold insert
    split
    · rfl
    · split
      next h => simp only [get?, ← h]; split <;> rfl
      next h =>
        simp only [get?, ih]
        split
        next h' => rw [if_neg (by omega)]
        next => rfl

/-- A key before all others is not there. -/
theorem get?_eq_none_of_lt {k : κ} {es : List (κ × α)} (h : ∀ e ∈ es, rank k < rank e.1) :
    get? k es = none := by
  induction es with
  | nil => rfl
  | cons e es ih =>
    have := h e List.mem_cons_self
    simp only [get?]
    rw [if_neg (by omega)]
    exact ih fun x hx => h x (List.mem_cons_of_mem _ hx)

/-- What is erased is not found any more, and nothing else changes. -/
theorem get?_erase {es : List (κ × α)} (h : Ascending es) (k k' : κ) :
    get? k' (erase k es) = if rank k' = rank k then none else get? k' es := by
  induction es with
  | nil => simp [erase, get?]
  | cons e es ih =>
    have ⟨he, hes⟩ := List.pairwise_cons.mp h
    unfold erase
    split
    next heq =>
      simp only [get?, ← heq]
      split
      next h' => exact get?_eq_none_of_lt fun x hx => by have := he x hx; omega
      next h' => rfl
    next hne =>
      simp only [get?, ih hes]
      split
      next h' => rw [if_neg (by omega)]
      next h' => rfl

/-- What is found at a key is an entry, -/
theorem mem_of_get?_eq_some {k : κ} {a : α} {es : List (κ × α)} (h : get? k es = some a) :
    (k, a) ∈ es := by
  induction es with
  | nil => cases h
  | cons e es ih =>
    simp only [get?] at h
    split at h
    next heq =>
      cases h
      rw [rank_inj heq]
      exact List.mem_cons_self
    next => exact List.mem_cons_of_mem _ (ih h)

/-- and if the keys ascend, every entry is found. -/
theorem get?_eq_some_of_mem {k : κ} {a : α} {es : List (κ × α)} (hs : Ascending es)
    (h : (k, a) ∈ es) : get? k es = some a := by
  induction es with
  | nil => cases h
  | cons e es ih =>
    have ⟨he, hes⟩ := List.pairwise_cons.mp hs
    simp only [get?]
    rcases List.mem_cons.mp h with rfl | h
    · rw [if_pos rfl]
    · have := he _ h
      rw [if_neg (by simp only at this; omega)]
      exact ih hes h

/-- Ascending lists with the same lookups are equal. -/
theorem eq_of_get?_eq {es es' : List (κ × α)} (hs : Ascending es) (hs' : Ascending es')
    (h : ∀ k, get? k es = get? k es') : es = es' := by
  induction es generalizing es' with
  | nil =>
    cases es' with
    | nil => rfl
    | cons e' es' => have := h e'.1; simp [get?] at this
  | cons e es ih =>
    have ⟨he, hes⟩ := List.pairwise_cons.mp hs
    cases es' with
    | nil => have := h e.1; simp [get?] at this
    | cons e' es' =>
      have ⟨he', hes'⟩ := List.pairwise_cons.mp hs'
      have hrank : rank e.1 = rank e'.1 := by
        have h₁ := h e.1
        have h₂ := h e'.1
        rcases Nat.lt_trichotomy (rank e.1) (rank e'.1) with hlt | heq | hgt
        · have hnone : get? e.1 (e' :: es') = none := get?_eq_none_of_lt fun x hx => by
            rcases List.mem_cons.mp hx with rfl | hx
            · exact hlt
            · exact Nat.lt_trans hlt (he' x hx)
          rw [hnone] at h₁
          simp [get?] at h₁
        · exact heq
        · have hnone : get? e'.1 (e :: es) = none := get?_eq_none_of_lt fun x hx => by
            rcases List.mem_cons.mp hx with rfl | hx
            · exact hgt
            · exact Nat.lt_trans hgt (he x hx)
          rw [hnone] at h₂
          simp [get?] at h₂
      have hval : e.2 = e'.2 := by
        have h₁ := h e.1
        simpa [get?, hrank] using h₁
      have hhead : e = e' := Prod.ext (rank_inj hrank) hval
      subst hhead
      rw [ih hes hes' fun k => ?_]
      by_cases hk : rank k = rank e.1
      · rw [get?_eq_none_of_lt fun x hx => by have := he x hx; omega,
          get?_eq_none_of_lt fun x hx => by have := he' x hx; omega]
      · simpa [get?, hk] using h k

end Entries

/-! ### Maps -/

/-- A finite map, as its entries in the order of their keys. -/
structure SortedMap (κ α : Type) [Key κ] where
  entries : List (κ × α)
  ascending : Entries.Ascending entries

namespace SortedMap

variable {κ α : Type} [Key κ]

instance [DecidableEq κ] [DecidableEq α] : DecidableEq (SortedMap κ α) := fun m m' =>
  if h : m.entries = m'.entries then
    .isTrue (by cases m; cases m'; cases h; rfl)
  else
    .isFalse fun e => h (e ▸ rfl)

/-- The map without entries. -/
def empty : SortedMap κ α := ⟨[], List.Pairwise.nil⟩

instance : EmptyCollection (SortedMap κ α) := ⟨empty⟩

instance : Inhabited (SortedMap κ α) := ⟨empty⟩

/-- The value under a key. -/
def get? (m : SortedMap κ α) (k : κ) : Option α := Entries.get? k m.entries

/-- Put a value under a key, in lieu of the value that is there. -/
def insert (m : SortedMap κ α) (k : κ) (a : α) : SortedMap κ α :=
  ⟨Entries.insert k a m.entries, m.ascending.insert k a⟩

/-- Drop what is under a key. -/
def erase (m : SortedMap κ α) (k : κ) : SortedMap κ α :=
  ⟨Entries.erase k m.entries, m.ascending.erase k⟩

/-- Whether there is a value under a key. -/
def contains (m : SortedMap κ α) (k : κ) : Bool := (m.get? k).isSome

/-- The number of entries. -/
def size (m : SortedMap κ α) : Nat := m.entries.length

/-- The map of some entries, of which the last one under each key counts. -/
def ofList (es : List (κ × α)) : SortedMap κ α := es.foldl (fun m e => m.insert e.1 e.2) ∅

/-- Change every value by a function that may fail, in the order of the keys. -/
def mapEach {ε : Type} (f : α → Except ε α) (m : SortedMap κ α) : Except ε (SortedMap κ α) :=
  match h : Entries.mapEach f m.entries with
  | .ok es => .ok ⟨es, m.ascending.of_mapEach h⟩
  | .error e => .error e

@[ext] theorem ext_entries {m m' : SortedMap κ α} (h : m.entries = m'.entries) : m = m' := by
  cases m; cases m'; cases h; rfl

/-- Maps that have the same value at every key are the same. -/
theorem ext_get? {m m' : SortedMap κ α} (h : ∀ k, m.get? k = m'.get? k) : m = m' :=
  ext_entries (Entries.eq_of_get?_eq m.ascending m'.ascending h)

@[simp] theorem get?_empty (k : κ) : (∅ : SortedMap κ α).get? k = none := rfl

theorem get?_empty_ne_some (k : κ) (a : α) : (∅ : SortedMap κ α).get? k ≠ some a :=
  (Option.some_ne_none a).symm

/-- For maps the same is told of keys, not of their ranks. -/
theorem get?_insert (m : SortedMap κ α) (k k' : κ) (a : α) [DecidableEq κ] :
    (m.insert k a).get? k' = if k' = k then some a else m.get? k' := by
  simp only [get?, insert, Entries.get?_insert, Key.rank_eq_iff]

theorem get?_erase (m : SortedMap κ α) (k k' : κ) [DecidableEq κ] :
    (m.erase k).get? k' = if k' = k then none else m.get? k' := by
  simp only [get?, erase, Entries.get?_erase m.ascending, Key.rank_eq_iff]

@[simp] theorem get?_insert_self (m : SortedMap κ α) (k : κ) (a : α) :
    (m.insert k a).get? k = some a := by
  simp [get?, insert, Entries.get?_insert]

@[simp] theorem get?_erase_self (m : SortedMap κ α) (k : κ) : (m.erase k).get? k = none := by
  simp [get?, erase, Entries.get?_erase m.ascending]

theorem get?_insert_of_ne (m : SortedMap κ α) {k k' : κ} (h : k' ≠ k) (a : α) :
    (m.insert k a).get? k' = m.get? k' := by
  simp [get?, insert, Entries.get?_insert, Key.rank_eq_iff, h]

theorem get?_erase_of_ne (m : SortedMap κ α) {k k' : κ} (h : k' ≠ k) :
    (m.erase k).get? k' = m.get? k' := by
  simp [get?, erase, Entries.get?_erase m.ascending, Key.rank_eq_iff, h]

/-- What is under a key after each value was changed. -/
theorem get?_of_mapEach {ε : Type} {f : α → Except ε α} {m m' : SortedMap κ α}
    (h : m.mapEach f = .ok m') (k : κ) :
    (m.get? k = none ∧ m'.get? k = none) ∨
      ∃ a a', m.get? k = some a ∧ f a = .ok a' ∧ m'.get? k = some a' := by
  unfold mapEach at h
  split at h
  next es hes => cases h; exact Entries.get?_of_mapEach hes k
  next => cases h

/-- The entries of a map are the values at its keys. -/
theorem mem_entries_iff {m : SortedMap κ α} {k : κ} {a : α} :
    (k, a) ∈ m.entries ↔ m.get? k = some a :=
  ⟨Entries.get?_eq_some_of_mem m.ascending, Entries.mem_of_get?_eq_some⟩

end SortedMap

end StalkLedger
