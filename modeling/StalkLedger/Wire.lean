import StalkLedger.SortedMap
import StalkLedger.Identifier

/-!
# Bytes on the wire

A type with a `Wire` instance has one way of being written as bytes.  Reading takes a value off the
front of some bytes and returns the rest.

* Numbers have a fixed width, least significant byte first, signed ones in two's complement;
  identifiers are their 32 bytes.
* A truth value is one byte, 0 or 1; an optional value is a byte 0, or a byte 1 and the value.
* Pairs, and everything built like them, are written one part after the other.
* A list is its length in four bytes and then its members; a map is the list of its entries.  A map
  that is read may have its keys in any order, and of several values under one key the last counts.

Two laws make writing and reading fit.  `Wire.Lawful`: what is written is read back, whatever
follows it.  `Wire.Canonical`: what is read is what would be written.  Every type here has both but
for lists and maps: those have to be short enough to be counted, and these in order.
-/

namespace StalkLedger

/-- A way of writing the values of a type as bytes. -/
class Wire (α : Type) where
  /-- The bytes of a value. -/
  write : α → List UInt8
  /-- The value at the front of some bytes, and what follows it. -/
  read : List UInt8 → Option (α × List UInt8)

namespace Wire

/-- What is written is read back. -/
class Lawful (α : Type) [Wire α] : Prop where
  read_write (a : α) (rest : List UInt8) : read (write a ++ rest) = some (a, rest)

/-- Only what would be written is read. -/
class Canonical (α : Type) [Wire α] : Prop where
  eq_write {bytes : List UInt8} {a : α} {rest : List UInt8} (h : read bytes = some (a, rest)) :
    bytes = write a ++ rest

/-- The value that some bytes write, if they write it and nothing more. -/
def decode {α : Type} [Wire α] (bytes : List UInt8) : Option α :=
  match read bytes with
  | some (a, []) => some a
  | _ => none

/-- Bytes are decoded if they are read to the end. -/
theorem decode_eq_some_iff {α : Type} [Wire α] {bytes : List UInt8} {a : α} :
    decode bytes = some a ↔ read bytes = some (a, []) := by
  unfold decode
  split
  next h => simp [h]
  next h => exact ⟨nofun, fun e => absurd e (h a)⟩

/-! ### Bytes -/

/-- The first `n` bytes, if there are that many, and the others. -/
def split : Nat → List UInt8 → Option (List UInt8 × List UInt8)
  | 0, bytes => some ([], bytes)
  | _ + 1, [] => none
  | n + 1, b :: bytes => (split n bytes).map fun (front, rest) => (b :: front, rest)

/-- A chunk of the right length is split off, -/
theorem split_append {n : Nat} {front : List UInt8} (h : front.length = n) (rest : List UInt8) :
    split n (front ++ rest) = some (front, rest) := by
  induction front generalizing n with
  | nil => subst h; rfl
  | cons b front ih => subst h; simp [split, ih rfl]

/-- and what is split off is such a chunk. -/
theorem eq_append_of_split {n : Nat} {bytes front rest : List UInt8}
    (h : split n bytes = some (front, rest)) : front.length = n ∧ bytes = front ++ rest := by
  induction n generalizing bytes front with
  | zero => cases h; exact ⟨rfl, rfl⟩
  | succ n ih =>
    cases bytes with
    | nil => cases h
    | cons b bytes =>
      simp only [split, Option.map_eq_some_iff, Prod.exists, Prod.mk.injEq] at h
      obtain ⟨front', rest', h, rfl, rfl⟩ := h
      obtain ⟨hl, rfl⟩ := ih h
      exact ⟨by simp [hl], rfl⟩

/-! ### Records -/

/-- A type whose values are made of parts, the parts being a value of another type. -/
class Record (β : Type) (α : outParam Type) where
  /-- The parts, in the order in which they are written. -/
  parts : β → α
  /-- The value made of some parts. -/
  ofParts : α → β
  ofParts_parts (b : β) : ofParts (parts b) = b
  parts_ofParts (a : α) : parts (ofParts a) = a

/-- A record is written as its parts are. -/
instance {α β : Type} [Record β α] [Wire α] : Wire β where
  write b := write (Record.parts b)
  read bytes := (read bytes).map fun (a, rest) => (Record.ofParts a, rest)

instance {α β : Type} [Record β α] [Wire α] [Lawful α] : Lawful β where
  read_write b rest := by
    simp only [read, write, Lawful.read_write, Option.map_some, Record.ofParts_parts]

instance {α β : Type} [Record β α] [Wire α] [Canonical α] : Canonical β where
  eq_write {bytes b rest} h := by
    simp only [read, Option.map_eq_some_iff, Prod.exists, Prod.mk.injEq] at h
    obtain ⟨a, r, ha, rfl, rfl⟩ := h
    simp only [write, Record.parts_ofParts, Canonical.eq_write ha]

/-! ### Numbers -/

/-- Naturals of `k` bytes, least significant byte first. -/
@[reducible] def unsigned (k : Nat) : Wire (Unsigned (8 * k)) where
  write n := digits k n.toNat
  read bytes := (split k bytes).map fun (front, rest) => (.ofNat (ofDigits front), rest)

theorem two_pow_eight_mul (k : Nat) : 2 ^ (8 * k) = 256 ^ k := Nat.pow_mul 2 8 k

/-- A number of some bytes is read back as it was written, -/
theorem lawful_unsigned (k : Nat) : @Lawful _ (unsigned k) :=
  @Lawful.mk _ (unsigned k) fun n rest => by
    have h := n.toNat_lt
    rw [two_pow_eight_mul] at h
    simp only [read, write, split_append (length_digits k n.toNat), Option.map_some, ofDigits_digits,
      Nat.mod_eq_of_lt h, Unsigned.ofNat_toNat]

/-- and there is only one way to write it. -/
theorem canonical_unsigned (k : Nat) : @Canonical _ (unsigned k) :=
  @Canonical.mk _ (unsigned k) fun {bytes n rest} h => by
    simp only [read, Option.map_eq_some_iff, Prod.exists, Prod.mk.injEq] at h
    obtain ⟨front, rest', hs, rfl, rfl⟩ := h
    obtain ⟨hl, rfl⟩ := eq_append_of_split hs
    have hlt := ofDigits_lt front
    rw [hl, ← two_pow_eight_mul] at hlt
    have hd := digits_ofDigits front
    rw [hl] at hd
    simp only [write, Unsigned.toNat_ofNat, Nat.mod_eq_of_lt hlt, hd]

instance : Wire Amount := unsigned 16

instance : Lawful Amount := lawful_unsigned 16

instance : Canonical Amount := canonical_unsigned 16

instance : Wire Epoch := unsigned 8

instance : Lawful Epoch := lawful_unsigned 8

instance : Canonical Epoch := canonical_unsigned 8

/-- Lengths of lists. -/
abbrev Count := Unsigned 32

instance : Wire Count := unsigned 4

instance : Lawful Count := lawful_unsigned 4

instance : Canonical Count := canonical_unsigned 4

/-- Identifiers are written as they are. -/
instance : Wire Identifier where
  write name := name.bytes
  read bytes := (split 32 bytes).map fun (front, rest) => (.ofBytes front, rest)

instance : Lawful Identifier where
  read_write name rest := by
    simp only [read, write, split_append (Identifier.length_bytes name), Option.map_some,
      Identifier.ofBytes_bytes]

instance : Canonical Identifier where
  eq_write {bytes name rest} h := by
    simp only [read, Option.map_eq_some_iff, Prod.exists, Prod.mk.injEq] at h
    obtain ⟨front, rest', hs, rfl, rfl⟩ := h
    obtain ⟨hl, rfl⟩ := eq_append_of_split hs
    simp only [write, Identifier.bytes_ofBytes hl]

/-- The amount with the same binary digits. -/
def ofIndex (i : Index) : Amount := .ofNat (i.toInt % 2 ^ 128).toNat

/-- The index with the same binary digits. -/
def toIndex (n : Amount) : Index := .ofInt n.toNat

/-- An index survives the way through its two's complement, -/
theorem toIndex_ofIndex (i : Index) : toIndex (ofIndex i) = i := by
  have h₁ : -2 ^ 127 ≤ i.toInt := i.le_toInt
  have h₂ : i.toInt < 2 ^ 127 := i.toInt_lt
  apply Signed.ext
  simp only [toIndex, ofIndex, Signed.toInt_ofInt, Unsigned.toNat_ofNat, Int.bmod]
  omega

/-- and so does an amount on the way back. -/
theorem ofIndex_toIndex (n : Amount) : ofIndex (toIndex n) = n := by
  have h : n.toNat < 2 ^ 128 := n.toNat_lt
  apply Unsigned.ext
  simp only [toIndex, ofIndex, Signed.toInt_ofInt, Unsigned.toNat_ofNat, Int.bmod]
  omega

/-- Indices are in two's complement. -/
instance : Record Index Amount where
  parts := ofIndex
  ofParts := toIndex
  ofParts_parts := toIndex_ofIndex
  parts_ofParts := ofIndex_toIndex

/-! ### Choices -/

instance : Wire Bool where
  write b := [if b then 1 else 0]
  read
    | 0 :: rest => some (false, rest)
    | 1 :: rest => some (true, rest)
    | _ => none

instance : Lawful Bool where
  read_write b rest := by cases b <;> rfl

instance : Canonical Bool where
  eq_write {bytes b rest} h := by
    simp only [read] at h
    split at h <;> cases h <;> rfl

instance {α : Type} [Wire α] : Wire (Option α) where
  write
    | none => [0]
    | some a => 1 :: write a
  read
    | 0 :: rest => some (none, rest)
    | 1 :: bytes => (read bytes).map fun (a, rest) => (some a, rest)
    | _ => none

instance {α : Type} [Wire α] [Lawful α] : Lawful (Option α) where
  read_write o rest := by
    cases o with
    | none => rfl
    | some a => simp only [read, write, List.cons_append, Lawful.read_write, Option.map_some]

instance {α : Type} [Wire α] [Canonical α] : Canonical (Option α) where
  eq_write {bytes o rest} h := by
    simp only [read] at h
    split at h
    · cases h; rfl
    · simp only [Option.map_eq_some_iff, Prod.exists, Prod.mk.injEq] at h
      obtain ⟨a, r, h, rfl, rfl⟩ := h
      simp only [write, List.cons_append, Canonical.eq_write h]
    · cases h

/-! ### Pairs and lists -/

instance {α β : Type} [Wire α] [Wire β] : Wire (α × β) where
  write p := write p.1 ++ write p.2
  read bytes := do
    let (a, bytes) ← read bytes
    let (b, rest) ← read bytes
    return ((a, b), rest)

instance {α β : Type} [Wire α] [Wire β] [Lawful α] [Lawful β] : Lawful (α × β) where
  read_write p rest := by
    simp [read, write, List.append_assoc, Lawful.read_write]

instance {α β : Type} [Wire α] [Wire β] [Canonical α] [Canonical β] : Canonical (α × β) where
  eq_write {bytes p rest} h := by
    simp only [read, Option.bind_eq_bind, Option.bind_eq_some_iff, Prod.exists, Option.pure_def,
      Option.some.injEq, Prod.mk.injEq] at h
    obtain ⟨a, r, ha, b, r', hb, rfl, rfl⟩ := h
    simp only [write, List.append_assoc, ← Canonical.eq_write hb, ← Canonical.eq_write ha]

/-- A given number of values, one after the other. -/
def readMany {α : Type} [Wire α] : Nat → List UInt8 → Option (List α × List UInt8)
  | 0, bytes => some ([], bytes)
  | n + 1, bytes => do
    let (a, bytes) ← read bytes
    let (as, rest) ← readMany n bytes
    return (a :: as, rest)

instance {α : Type} [Wire α] : Wire (List α) where
  write as := write (Unsigned.ofNat as.length : Count) ++ as.flatMap write
  read bytes := do
    let (count, bytes) ← (read bytes : Option (Count × List UInt8))
    readMany count.toNat bytes

/-! ### Maps -/

instance {κ α : Type} [Key κ] [Wire κ] [Wire α] : Wire (SortedMap κ α) where
  write m := write m.entries
  read bytes := (read bytes).map fun (entries, rest) => (.ofList entries, rest)

end Wire

end StalkLedger
