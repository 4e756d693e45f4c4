import StalkLedger.Wire

/-!
# Reading through drafts

A map forgets how it was written: in which order its entries came, and which of them a later one
with the same key replaced.  A *draft* forgets nothing.  It is the value as the bytes have it, with
a list of entries in the place of every map, so it has one way of being written and what is read of
it is what would be written.  Reading a value is reading a draft and gathering its lists into maps.

`Wire.Drafting α δ` says that `δ` are drafts of the values `α`.  Draftings are built as the types
are: `Drafting.same` for types without maps, `Drafting.pair`, `Drafting.record`, `Drafting.list`
and `Drafting.map`.  From a drafting follow the laws of reading whole values:

* `Drafting.decode_eq_some_iff`: a value is read exactly from the bytes of its drafts;
* `Drafting.decode_front`, `Drafting.decode_append`: no part of such bytes, and nothing longer than
  them, is read;
* `Drafting.rewritten_eq_iff`: what is read is rewritten as it was just if the keys ascended.
-/

namespace StalkLedger

open Key (rank)

/-! ### Gathering entries -/

namespace Entries

variable {κ α β : Type} [Key κ]

theorem ascending_map {f : α → β} {es : List (κ × α)} :
    Ascending (es.map fun e => (e.1, f e.2)) ↔ Ascending es := by
  rw [ascending_iff, ascending_iff, List.map_map]
  rfl

/-- An entry above all others is put last. -/
theorem insert_of_lt {k : κ} {a : α} {es : List (κ × α)} (h : ∀ e ∈ es, rank e.1 < rank k) :
    insert k a es = es ++ [(k, a)] := by
  induction es with
  | nil => rfl
  | cons e es ih =>
    have he := h e List.mem_cons_self
    rw [insert, if_neg (by omega), if_neg (by omega),
      ih fun x hx => h x (List.mem_cons_of_mem _ hx)]
    rfl

/-- An entry that is put in its place is written no longer than it is beside the others. -/
theorem length_flatMap_insert_le {γ : Type} (write : κ × α → List γ) (k : κ) (a : α)
    (es : List (κ × α)) :
    ((insert k a es).flatMap write).length ≤ (es.flatMap write).length + (write (k, a)).length := by
  induction es with
  | nil => simp [insert]
  | cons e es ih =>
    unfold insert
    split
    · simp only [List.flatMap_cons, List.length_append]
      omega
    · split
      · simp only [List.flatMap_cons, List.length_append]
        omega
      · simp only [List.flatMap_cons, List.length_append]
        omega

end Entries

namespace SortedMap

variable {κ α : Type} [Key κ]

/-- Gathering entries, after some that are there already. -/
theorem foldl_insert_ind {P : List (κ × α) → SortedMap κ α → Prop} {m : SortedMap κ α}
    {done : List (κ × α)} (h : P done m)
    (step : ∀ es m e, P es m → P (es ++ [e]) (m.insert e.1 e.2)) (es : List (κ × α)) :
    P (done ++ es) (es.foldl (fun m e => m.insert e.1 e.2) m) := by
  induction es generalizing done m with
  | nil => rwa [List.append_nil]
  | cons e es ih =>
    have := ih (step done m e h)
    rwa [List.append_assoc] at this

/-- Entries are gathered one by one. -/
theorem ofList_ind {P : List (κ × α) → SortedMap κ α → Prop} (empty : P [] ∅)
    (step : ∀ es m e, P es m → P (es ++ [e]) (m.insert e.1 e.2)) (es : List (κ × α)) :
    P es (ofList es) :=
  foldl_insert_ind empty step es

/-- Every entry of a map was among those it was gathered from. -/
theorem mem_of_mem_ofList {es : List (κ × α)} {x : κ × α} (h : x ∈ (ofList es).entries) :
    x ∈ es := by
  refine ofList_ind (P := fun es m => x ∈ m.entries → x ∈ es) (fun h => h)
    (fun es m e ih h => ?_) es h
  rcases Entries.mem_insert h with rfl | h
  · exact List.mem_append_right _ List.mem_cons_self
  · exact List.mem_append_left _ (ih h)

/-- A map is written no longer than the entries it was gathered from. -/
theorem length_flatMap_ofList_le {γ : Type} (write : κ × α → List γ) (es : List (κ × α)) :
    ((ofList es).entries.flatMap write).length ≤ (es.flatMap write).length := by
  refine ofList_ind (P := fun es m => (m.entries.flatMap write).length ≤ (es.flatMap write).length)
    (Nat.le_refl 0) (fun es m e ih => ?_) es
  have := Entries.length_flatMap_insert_le write e.1 e.2 m.entries
  rw [List.flatMap_append, List.length_append, List.flatMap_singleton]
  exact Nat.le_trans this (Nat.add_le_add_right ih _)

/-- A map has no more entries than it was gathered from. -/
theorem size_ofList_le (es : List (κ × α)) : (ofList es).size ≤ es.length := by
  have := length_flatMap_ofList_le (fun e => [e]) es
  rwa [List.flatMap_singleton', List.flatMap_singleton'] at this

/-- Entries in the order of their keys are the entries of the map. -/
theorem entries_ofList {es : List (κ × α)} (h : Entries.Ascending es) :
    (ofList es).entries = es := by
  refine ofList_ind (P := fun es m => Entries.Ascending es → m.entries = es) (fun _ => rfl)
    (fun es m e ih h => ?_) es h
  obtain ⟨hes, -, hlt⟩ := List.pairwise_append.mp h
  show Entries.insert e.1 e.2 m.entries = es ++ [e]
  rw [ih hes]
  exact Entries.insert_of_lt fun x hx => hlt x hx e List.mem_cons_self

/-- A map is gathered from its entries. -/
theorem ofList_entries (m : SortedMap κ α) : ofList m.entries = m :=
  ext_entries (entries_ofList m.ascending)

end SortedMap

namespace Wire

/-- What is read off the front of some bytes, and the rest. -/
abbrev Reading (α : Type) := Option (α × List UInt8)

/-! ### Draftings -/

/-- How values are gathered from drafts, and written as drafts. -/
structure Drafting (α δ : Type) [Wire α] [Wire δ] where
  /-- The value that a draft is a draft of. -/
  gather : δ → α
  /-- The draft that a value is written as. -/
  draft : α → δ
  /-- Every list of the draft has a length that can be written. -/
  Countable : δ → Prop
  /-- Every list of the draft has its keys in ascending order. -/
  Ascending : δ → Prop
  /-- Reading a value is reading a draft of it. -/
  read_eq (bytes : List UInt8) :
    (read bytes : Reading α) = (read bytes : Reading δ).map fun d => (gather d.1, d.2)
  /-- Writing a value is writing its draft. -/
  write_eq (a : α) : write a = write (draft a)
  /-- What is written of a draft is read, and nothing else. -/
  read_eq_some_iff {bytes : List UInt8} {d : δ} {rest : List UInt8} :
    read bytes = some (d, rest) ↔ Countable d ∧ bytes = write d ++ rest
  gather_draft (a : α) : gather (draft a) = a
  /-- A draft is written anew as it was just if its keys ascend. -/
  draft_gather_iff {d : δ} : draft (gather d) = d ↔ Ascending d
  /-- Gathering makes no list longer. -/
  countable_draft_gather {d : δ} (h : Countable d) : Countable (draft (gather d))
  /-- Gathering makes no writing longer. -/
  length_write_le (d : δ) : (write (draft (gather d))).length ≤ (write d).length

namespace Drafting

variable {α β δ ε κ : Type} [Wire α] [Wire β] [Wire δ] [Wire ε]

/-- A type without maps is its own type of drafts. -/
def same (α : Type) [Wire α] [Lawful α] [Canonical α] : Drafting α α where
  gather a := a
  draft a := a
  Countable _ := True
  Ascending _ := True
  read_eq bytes := by cases (read bytes : Reading α) <;> rfl
  write_eq _ := rfl
  read_eq_some_iff {bytes a rest} :=
    ⟨fun h => ⟨trivial, Canonical.eq_write h⟩, fun h => h.2 ▸ Lawful.read_write a rest⟩
  gather_draft _ := rfl
  draft_gather_iff := iff_of_true rfl trivial
  countable_draft_gather h := h
  length_write_le _ := Nat.le_refl _

/-- A draft of a pair is a pair of drafts. -/
def pair (s : Drafting α δ) (t : Drafting β ε) : Drafting (α × β) (δ × ε) where
  gather d := (s.gather d.1, t.gather d.2)
  draft a := (s.draft a.1, t.draft a.2)
  Countable d := s.Countable d.1 ∧ t.Countable d.2
  Ascending d := s.Ascending d.1 ∧ t.Ascending d.2
  read_eq bytes := by
    simp only [read]
    rw [s.read_eq bytes]
    cases (read bytes : Reading δ) with
    | none => rfl
    | some d =>
      show ((read d.2 : Reading β) >>= fun b => pure ((s.gather d.1, b.1), b.2)) = _
      rw [t.read_eq d.2]
      show _ = Option.map _ ((read d.2 : Reading ε) >>= fun e => pure ((d.1, e.1), e.2))
      cases (read d.2 : Reading ε) <;> rfl
  write_eq a := by simp only [write, s.write_eq, t.write_eq]
  read_eq_some_iff {bytes d rest} := by
    simp only [read, write, Option.bind_eq_bind, Option.bind_eq_some_iff, Option.pure_def,
      Option.some.injEq, Prod.exists, Prod.mk.injEq, s.read_eq_some_iff, t.read_eq_some_iff,
      List.append_assoc]
    constructor
    · rintro ⟨x, r, ⟨hx, rfl⟩, y, r', ⟨hy, rfl⟩, rfl, rfl⟩
      exact ⟨⟨hx, hy⟩, rfl⟩
    · rintro ⟨⟨hx, hy⟩, rfl⟩
      exact ⟨_, _, ⟨hx, rfl⟩, _, _, ⟨hy, rfl⟩, rfl, rfl⟩
  gather_draft a := by simp only [s.gather_draft, t.gather_draft]
  draft_gather_iff {d} := by
    rw [Prod.ext_iff]
    exact and_congr s.draft_gather_iff t.draft_gather_iff
  countable_draft_gather h := ⟨s.countable_draft_gather h.1, t.countable_draft_gather h.2⟩
  length_write_le d := by
    simp only [write, List.length_append]
    exact Nat.add_le_add (s.length_write_le d.1) (t.length_write_le d.2)

/-- A draft of a record is a record whose parts are drafts of its parts. -/
def record {ρ τ : Type} [Record ρ α] [Record τ δ] (s : Drafting α δ) : Drafting ρ τ where
  gather d := Record.ofParts (s.gather (Record.parts d))
  draft a := Record.ofParts (s.draft (Record.parts a))
  Countable d := s.Countable (Record.parts d)
  Ascending d := s.Ascending (Record.parts d)
  read_eq bytes := by
    simp only [read, s.read_eq bytes, Option.map_map]
    cases (read bytes : Reading δ) with
    | none => rfl
    | some d => simp only [Option.map_some, Function.comp_apply, Record.parts_ofParts]
  write_eq a := by simp only [write, Record.parts_ofParts, s.write_eq]
  read_eq_some_iff {bytes d rest} := by
    simp only [read, write, Option.map_eq_some_iff, Prod.exists, Prod.mk.injEq,
      s.read_eq_some_iff]
    constructor
    · rintro ⟨x, r, ⟨hx, rfl⟩, rfl, rfl⟩
      rw [Record.parts_ofParts]
      exact ⟨hx, rfl⟩
    · rintro ⟨hd, rfl⟩
      exact ⟨_, _, ⟨hd, rfl⟩, Record.ofParts_parts d, rfl⟩
  gather_draft a := by
    rw [Record.parts_ofParts, s.gather_draft, Record.ofParts_parts]
  draft_gather_iff {d} := by
    rw [Record.parts_ofParts, ← s.draft_gather_iff]
    exact ⟨fun h => by rw [← Record.parts_ofParts (β := τ) (s.draft _), h],
      fun h => by rw [h, Record.ofParts_parts]⟩
  countable_draft_gather h := by
    rw [Record.parts_ofParts, Record.parts_ofParts]
    exact s.countable_draft_gather h
  length_write_le d := by
    simp only [write, Record.parts_ofParts]
    exact s.length_write_le _

/-! ### Lists and maps -/

/-- The values of some drafts, one after the other. -/
theorem readMany_eq (s : Drafting α δ) (n : Nat) (bytes : List UInt8) :
    (readMany n bytes : Reading (List α)) =
      (readMany n bytes : Reading (List δ)).map fun d => (d.1.map s.gather, d.2) := by
  induction n generalizing bytes with
  | zero => rfl
  | succ n ih =>
    simp only [readMany]
    rw [s.read_eq bytes]
    cases (read bytes : Reading δ) with
    | none => rfl
    | some d =>
      show ((readMany n d.2 : Reading (List α)) >>= fun as => pure (s.gather d.1 :: as.1, as.2)) = _
      rw [ih d.2]
      show _ = Option.map _ ((readMany n d.2 : Reading (List δ)) >>= fun ds =>
        pure (d.1 :: ds.1, ds.2))
      cases (readMany n d.2 : Reading (List δ)) <;> rfl

theorem readMany_eq_some_iff (s : Drafting α δ) {n : Nat} {bytes rest : List UInt8} {ds : List δ} :
    readMany n bytes = some (ds, rest) ↔
      ds.length = n ∧ (∀ d ∈ ds, s.Countable d) ∧ bytes = ds.flatMap write ++ rest := by
  induction n generalizing bytes ds with
  | zero =>
    simp only [readMany, Option.some.injEq, Prod.mk.injEq, List.length_eq_zero_iff]
    constructor
    · rintro ⟨rfl, rfl⟩
      exact ⟨rfl, by simp, rfl⟩
    · rintro ⟨rfl, -, rfl⟩
      exact ⟨rfl, rfl⟩
  | succ n ih =>
    simp only [readMany, Option.bind_eq_bind, Option.bind_eq_some_iff, Prod.exists, Option.pure_def,
      Option.some.injEq, Prod.mk.injEq, s.read_eq_some_iff]
    constructor
    · rintro ⟨d, r, ⟨hd, rfl⟩, ds, r', hr, rfl, rfl⟩
      obtain ⟨rfl, hds, rfl⟩ := ih.mp hr
      refine ⟨rfl, List.forall_mem_cons.mpr ⟨hd, hds⟩, ?_⟩
      rw [List.flatMap_cons, List.append_assoc]
    · rintro ⟨hl, hds, rfl⟩
      cases ds with
      | nil => cases hl
      | cons d ds =>
        obtain ⟨hd, hds⟩ := List.forall_mem_cons.mp hds
        refine ⟨d, _, ⟨hd, ?_⟩, ds, rest, ih.mpr ⟨Nat.succ.inj hl, hds, rfl⟩, rfl,
          rfl⟩
        rw [List.flatMap_cons, List.append_assoc]

/-- A list that is read in place of another is counted as long as it is. -/
theorem read_list_eq_some_iff (s : Drafting α δ) {bytes rest : List UInt8} {ds : List δ} :
    read bytes = some (ds, rest) ↔
      (ds.length < 2 ^ 32 ∧ ∀ d ∈ ds, s.Countable d) ∧ bytes = write ds ++ rest := by
  have hcount {c : Count} {r : List UInt8} : read bytes = some (c, r) ↔ bytes = write c ++ r :=
    (same Count).read_eq_some_iff.trans (and_iff_right trivial)
  show ((read bytes : Reading Count) >>= fun c => readMany c.1.toNat c.2) = _ ↔ _
  simp only [Option.bind_eq_bind, Option.bind_eq_some_iff, Prod.exists, hcount,
    s.readMany_eq_some_iff]
  constructor
  · rintro ⟨c, r, rfl, hl, hds, rfl⟩
    refine ⟨⟨hl ▸ c.toNat_lt, hds⟩, ?_⟩
    simp only [write, hl, Unsigned.ofNat_toNat, List.append_assoc]
  · rintro ⟨⟨hl, hds⟩, rfl⟩
    refine ⟨Unsigned.ofNat ds.length, _, ?_, ?_, hds, rfl⟩
    · simp only [write, List.append_assoc]
    · rw [Unsigned.toNat_ofNat, Nat.mod_eq_of_lt hl]

/-- Of two lists that one is written longer whose members are. -/
theorem length_write_list_le {as : List α} {ds : List δ}
    (h : (as.flatMap write).length ≤ (ds.flatMap write).length) :
    (write as).length ≤ (write ds).length := by
  simp only [write, List.length_append, length_digits]
  exact Nat.add_le_add_left h 4

theorem length_flatMap_write_le (s : Drafting α δ) (ds : List δ) :
    ((ds.map fun d => s.draft (s.gather d)).flatMap write).length ≤ (ds.flatMap write).length := by
  induction ds with
  | nil => exact Nat.le_refl 0
  | cons d ds ih =>
    simp only [List.map_cons, List.flatMap_cons, List.length_append]
    exact Nat.add_le_add (s.length_write_le d) ih

/-- A draft of a list is a list of drafts. -/
def list (s : Drafting α δ) : Drafting (List α) (List δ) where
  gather ds := ds.map s.gather
  draft as := as.map s.draft
  Countable ds := ds.length < 2 ^ 32 ∧ ∀ d ∈ ds, s.Countable d
  Ascending ds := ∀ d ∈ ds, s.Ascending d
  read_eq bytes := by
    show ((read bytes : Reading Count) >>= fun c => readMany c.1.toNat c.2) =
      Option.map _ ((read bytes : Reading Count) >>= fun c => readMany c.1.toNat c.2)
    cases (read bytes : Reading Count) with
    | none => rfl
    | some c => exact s.readMany_eq c.1.toNat c.2
  write_eq as := by
    show write (Unsigned.ofNat as.length : Count) ++ as.flatMap write =
      write (Unsigned.ofNat (as.map s.draft).length : Count) ++ (as.map s.draft).flatMap write
    rw [List.length_map, List.flatMap_map, funext s.write_eq]
  read_eq_some_iff := s.read_list_eq_some_iff
  gather_draft as := by
    rw [List.map_map]
    exact (List.map_congr_left fun a _ => s.gather_draft a).trans (List.map_id as)
  draft_gather_iff {ds} := by
    have h : (ds.map s.gather).map s.draft = ds.map id ↔ ∀ d ∈ ds, s.draft (s.gather d) = d := by
      rw [List.map_map]
      exact List.map_inj_left
    rw [List.map_id] at h
    exact h.trans (forall₂_congr fun _ _ => s.draft_gather_iff)
  countable_draft_gather {ds} h := by
    rw [List.map_map]
    refine ⟨by rw [List.length_map]; exact h.1, List.forall_mem_map.mpr fun d hd => ?_⟩
    exact s.countable_draft_gather (h.2 d hd)
  length_write_le ds := by
    rw [List.map_map]
    exact length_write_list_le (s.length_flatMap_write_le ds)

variable [Key κ] [Wire κ] [Lawful κ] [Canonical κ]

/-- Drafts of the entries of a map. -/
def entries (κ : Type) [Wire κ] [Lawful κ] [Canonical κ] (s : Drafting α δ) :
    Drafting (List (κ × α)) (List (κ × δ)) :=
  ((same κ).pair s).list

omit [Key κ] in
theorem entries_countable {s : Drafting α δ} {es : List (κ × δ)} :
    (s.entries κ).Countable es ↔ es.length < 2 ^ 32 ∧ ∀ e ∈ es, s.Countable e.2 :=
  and_congr_right' (forall₂_congr fun _ _ => and_iff_right trivial)

omit [Key κ] in
theorem entries_ascending {s : Drafting α δ} {es : List (κ × δ)} :
    (s.entries κ).Ascending es ↔ ∀ e ∈ es, s.Ascending e.2 :=
  forall₂_congr fun _ _ => and_iff_right trivial

theorem ascending_gather {s : Drafting α δ} {es : List (κ × δ)} :
    Entries.Ascending ((s.entries κ).gather es) ↔ Entries.Ascending es :=
  Entries.ascending_map

theorem ascending_draft {s : Drafting α δ} {es : List (κ × α)} :
    Entries.Ascending ((s.entries κ).draft es) ↔ Entries.Ascending es :=
  Entries.ascending_map

/-- A draft of a map is a list of entries in any order, of which several may have the same key. -/
def map (s : Drafting α δ) : Drafting (SortedMap κ α) (List (κ × δ)) where
  gather es := .ofList ((s.entries κ).gather es)
  draft m := (s.entries κ).draft m.entries
  Countable es := es.length < 2 ^ 32 ∧ ∀ e ∈ es, s.Countable e.2
  Ascending es := Entries.Ascending es ∧ ∀ e ∈ es, s.Ascending e.2
  read_eq bytes := by
    show Option.map _ (read bytes : Reading (List (κ × α))) = _
    rw [(s.entries κ).read_eq bytes, Option.map_map]
    rfl
  write_eq m := (s.entries κ).write_eq m.entries
  read_eq_some_iff := by
    intro bytes es rest
    rw [(s.entries κ).read_eq_some_iff, entries_countable]
  gather_draft m := by rw [(s.entries κ).gather_draft, SortedMap.ofList_entries]
  draft_gather_iff {es} := by
    rw [← entries_ascending, ← (s.entries κ).draft_gather_iff]
    constructor
    · intro h
      have hes : Entries.Ascending es := h ▸ ascending_draft.mpr (SortedMap.ascending _)
      rw [SortedMap.entries_ofList (ascending_gather.mpr hes)] at h
      exact ⟨hes, h⟩
    · rintro ⟨hes, h⟩
      rw [SortedMap.entries_ofList (ascending_gather.mpr hes), h]
  countable_draft_gather {es} h := by
    -- What is left of the entries was among them.
    obtain ⟨hlength, hmembers⟩ := entries_countable.mp
      ((s.entries κ).countable_draft_gather (entries_countable.mpr h))
    refine ⟨?_, List.forall_mem_map.mpr fun e he => ?_⟩
    · have hsize := SortedMap.size_ofList_le ((s.entries κ).gather es)
      rw [SortedMap.size, ← List.length_map (f := ((same κ).pair s).draft)] at hsize
      rw [← List.length_map (f := ((same κ).pair s).draft)] at hsize
      exact Nat.lt_of_le_of_lt hsize hlength
    · exact List.forall_mem_map.mp hmembers e (SortedMap.mem_of_mem_ofList he)
  length_write_le es := by
    refine Nat.le_trans (length_write_list_le ?_) ((s.entries κ).length_write_le es)
    show (List.flatMap write (List.map _ _)).length ≤ (List.flatMap write (List.map _ _)).length
    rw [List.flatMap_map, List.flatMap_map]
    exact SortedMap.length_flatMap_ofList_le _ _

/-! ### Whole values -/

variable {s : Drafting α δ}

theorem decode_draft_eq_some_iff (s : Drafting α δ) {bytes : List UInt8} {d : δ} :
    decode bytes = some d ↔ s.Countable d ∧ bytes = write d := by
  rw [Wire.decode_eq_some_iff, s.read_eq_some_iff, List.append_nil]

theorem decode_eq (s : Drafting α δ) (bytes : List UInt8) :
    (decode bytes : Option α) = (decode bytes : Option δ).map s.gather := by
  unfold decode
  rw [s.read_eq bytes]
  cases (read bytes : Reading δ) with
  | none => rfl
  | some d =>
    obtain ⟨d, rest⟩ := d
    cases rest <;> rfl

/-- A value is read exactly from the bytes of its drafts. -/
theorem decode_eq_some_iff (s : Drafting α δ) {bytes : List UInt8} {a : α} :
    decode bytes = some a ↔ ∃ d, decode bytes = some d ∧ s.gather d = a := by
  rw [s.decode_eq, Option.map_eq_some_iff]

/-- What is written is read back. -/
theorem decode_write (s : Drafting α δ) {a : α} (h : s.Countable (s.draft a)) :
    decode (write a) = some a :=
  s.decode_eq_some_iff.mpr
    ⟨s.draft a, s.decode_draft_eq_some_iff.mpr ⟨h, s.write_eq a⟩, s.gather_draft a⟩

/-- If some bytes are read, nothing longer is. -/
theorem decode_append (s : Drafting α δ) {bytes : List UInt8} {a : α} (h : decode bytes = some a)
    {tail : List UInt8} (htail : tail ≠ []) : (decode (bytes ++ tail) : Option α) = none := by
  obtain ⟨d, hd, -⟩ := s.decode_eq_some_iff.mp h
  obtain ⟨hcountable, rfl⟩ := s.decode_draft_eq_some_iff.mp hd
  have hread : (read (write d ++ tail) : Reading δ) = some (d, tail) :=
    s.read_eq_some_iff.mpr ⟨hcountable, rfl⟩
  rw [s.decode_eq, decode, hread]
  cases tail with
  | nil => exact absurd rfl htail
  | cons => rfl

/-- If some bytes are read, no shorter part of them is. -/
theorem decode_front (s : Drafting α δ) {front tail : List UInt8} {a : α}
    (h : decode (front ++ tail) = some a) (htail : tail ≠ []) :
    (decode front : Option α) = none := by
  cases hfront : (decode front : Option α) with
  | none => rfl
  | some b =>
    rw [s.decode_append hfront htail] at h
    cases h

/-- What is read is rewritten as it was just if the keys ascended. -/
theorem rewritten_eq_iff (s : Drafting α δ) {d : δ} (h : s.Countable d) :
    write (s.gather d) = write d ↔ s.Ascending d := by
  rw [← s.draft_gather_iff, s.write_eq]
  constructor
  · intro heq
    have hback : decode (write (s.draft (s.gather d))) = some (s.draft (s.gather d)) :=
      s.decode_draft_eq_some_iff.mpr ⟨s.countable_draft_gather h, rfl⟩
    rw [heq, s.decode_draft_eq_some_iff.mpr ⟨h, rfl⟩] at hback
    exact (Option.some.inj hback).symm
  · intro heq
    rw [heq]

/-- What is read is rewritten no longer than it was. -/
theorem length_rewritten_le (s : Drafting α δ) (d : δ) :
    (write (s.gather d)).length ≤ (write d).length := by
  rw [s.write_eq]
  exact s.length_write_le d

end Drafting

end Wire

end StalkLedger
