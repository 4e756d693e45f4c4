import StalkLedger.Wire.Event

/-!
# Which bytes are events

An event is a byte for its kind and parts of fixed width.  So the kind alone tells how many bytes an
event takes, and no bytes of that number are wrong: whatever they are, they write some parts.

* **Width** (`Wire.Fixed`).  Names, numbers and what is made of them are written as so many bytes, and
  any so many bytes write one.
* **Which bytes are read** (`ofBytes?_isSome_iff`): the number of a kind, and as many bytes after it as
  events of this kind have (`Kind.width`).
* **No event begins another** (`eq_of_toBytes_begins`).

So the bytes and the events they write belong to each other, one by one, and bytes that are cut off,
go on, or begin with anything but a kind are refused (`Event.codec_exact`).
-/

namespace StalkLedger

namespace Wire

/-! ### Fixed widths -/

/-- The values of a type take a fixed number of bytes, and any so many bytes write one. -/
class Fixed (α : Type) [Wire α] (width : outParam Nat) : Prop where
  length_write (a : α) : (write a).length = width
  exists_write {bytes : List UInt8} (h : bytes.length = width) : ∃ a : α, write a = bytes

/-- A number has as many bytes as its type says. -/
theorem fixed_unsigned (k : Nat) : @Fixed _ (unsigned k) k :=
  @Fixed.mk _ (unsigned k) k (fun n => length_digits k n.toNat) fun {bytes} h => by
    have hlt := ofDigits_lt bytes
    rw [h, ← two_pow_eight_mul] at hlt
    have hd := digits_ofDigits bytes
    rw [h] at hd
    refine ⟨.ofNat (ofDigits bytes), ?_⟩
    simp only [write, Unsigned.toNat_ofNat, Nat.mod_eq_of_lt hlt, hd]

instance : Fixed Amount 16 := fixed_unsigned 16

instance : Fixed Epoch 8 := fixed_unsigned 8

instance : Fixed Identifier 32 where
  length_write := Identifier.length_bytes
  exists_write h := ⟨.ofBytes _, Identifier.bytes_ofBytes h⟩

instance {α β : Type} {width : Nat} [Record β α] [Wire α] [Fixed α width] : Fixed β width where
  length_write b := Fixed.length_write (Record.parts b)
  exists_write h := by
    obtain ⟨a, rfl⟩ := Fixed.exists_write (α := α) h
    exact ⟨Record.ofParts a, congrArg write (Record.parts_ofParts a)⟩

instance {α β : Type} {m n : Nat} [Wire α] [Wire β] [Fixed α m] [Fixed β n] :
    Fixed (α × β) (m + n) where
  length_write p := by
    simp only [write, List.length_append, Fixed.length_write]
  exists_write {bytes} h := by
    have hfront : (bytes.take m).length = m := by rw [List.length_take]; omega
    have hback : (bytes.drop m).length = n := by rw [List.length_drop]; omega
    obtain ⟨a, ha⟩ := Fixed.exists_write (α := α) hfront
    obtain ⟨b, hb⟩ := Fixed.exists_write (α := β) hback
    refine ⟨(a, b), ?_⟩
    simp only [write, ha, hb, List.take_append_drop]

end Wire

namespace Event

open Wire

/-! ### Kinds on the wire -/

namespace Kind

/-- The number of a kind, in the order of declaration. -/
def number (kind : Kind) : UInt8 := .ofNat kind.ctorIdx

/-- The bytes that so many names, amounts or indices, and epochs take. -/
def room (names amounts epochs : Nat) : Nat := 32 * names + 16 * amounts + 8 * epochs

/-- The bytes that the parts of an event take. -/
def width : Kind → Nat
  | positionAdded | positionRemoved | positionTransferred => room 3 3 1
  | legacyPositionImported | legacyPositionMigrated => room 2 3 2
  | stalkChanged => room 1 4 1
  | planted => room 1 3 1
  | converted => room 3 7 1
  | floodStarted => room 0 1 1
  | floodPaid => room 0 2 2
  | floodEnded | epochAdvanced => room 0 0 2
  | floodPayoutClaimed => room 2 1 1
  | earnedRewardReceived => room 0 2 1
  | assetWhitelisted | accrualRateChanged => room 1 2 1
  | assetDewhitelisted => room 1 0 1

/-- A kind has a number below that of all kinds together. -/
theorem number_lt (kind : Kind) : kind.number.toNat < all.length := by
  cases kind <;> decide

end Kind

/-- An event begins with the number of its kind, and takes the room of its kind. -/
theorem toBytes_eq_cons (event : Event) : ∃ parts : List UInt8,
    event.toBytes = event.kind.number :: parts ∧ parts.length = event.kind.width := by
  cases event <;> exact ⟨_, rfl, Fixed.length_write _⟩

/-! ### Which bytes are read -/

/-- An event is read from the bytes that it is written in, and from no others. -/
theorem ofBytes?_eq_some_iff {bytes : List UInt8} {event : Event} :
    ofBytes? bytes = some event ↔ bytes = event.toBytes := by
  rw [ofBytes?, decode_eq_some_iff]
  constructor
  · intro h
    rw [Canonical.eq_write h, List.append_nil]
    rfl
  · rintro rfl
    have h := read_toBytes event []
    rwa [List.append_nil] at h

/-- As many bytes as the parts take are read, whatever they are. -/
theorem readParts_of_length {α : Type} {width : Nat} [Wire α] [Lawful α] [Fixed α width]
    (make : α → Event) {bytes : List UInt8} (h : bytes.length = width) :
    ∃ event, readParts make bytes = some (event, []) := by
  obtain ⟨parts, rfl⟩ := Fixed.exists_write (α := α) h
  have hread := readParts_write make parts []
  rw [List.append_nil] at hread
  exact ⟨_, hread⟩

/-- Bytes of the right width for a kind are read as an event of that kind. -/
theorem readKind_of_length {kind : Kind} {bytes : List UInt8} (h : bytes.length = kind.width) :
    ∃ event, readKind kind.number bytes = some (event, []) := by
  cases kind <;> simp only [Kind.number, Kind.ctorIdx, UInt8.reduceOfNat, readKind] <;>
    exact readParts_of_length _ h

/-- **Which bytes are events**: the number of a kind, and as many bytes after it as its parts take. -/
theorem ofBytes?_isSome_iff {bytes : List UInt8} :
    (∃ event, ofBytes? bytes = some event) ↔
      ∃ (kind : Kind) (parts : List UInt8), bytes = kind.number :: parts ∧
        parts.length = kind.width := by
  constructor
  · rintro ⟨event, h⟩
    obtain ⟨parts, hbytes, hlength⟩ := event.toBytes_eq_cons
    exact ⟨event.kind, parts, (ofBytes?_eq_some_iff.mp h).trans hbytes, hlength⟩
  · rintro ⟨kind, parts, rfl, hlength⟩
    obtain ⟨event, h⟩ := readKind_of_length hlength
    exact ⟨event, decode_eq_some_iff.mpr h⟩

/-- No event begins with another. -/
theorem eq_of_toBytes_begins {event event' : Event} (h : event.toBytes <+: event'.toBytes) :
    event = event' := by
  obtain ⟨rest, hrest⟩ := h
  have hread := read_toBytes event' []
  rw [List.append_nil, ← hrest, read_toBytes] at hread
  exact congrArg Prod.fst (Option.some.inj hread)

/-- **Events and their bytes.**  The bytes of an event are read as this event, and no other bytes are;
so two strings of bytes are never read as one event.  What is read is the number of a kind, in the
order of declaration, with as many bytes after it as the parts of this kind take: bytes that end
before an event does are refused, so are those that go on after it, and so is every first byte that is
the number of no kind. -/
theorem codec_exact :
    (∀ event, ofBytes? (toBytes event) = some event) ∧
    (∀ bytes event, ofBytes? bytes = some event ↔ bytes = toBytes event) ∧
    (∀ bytes bytes' event, ofBytes? bytes = some event → ofBytes? bytes' = some event →
      bytes = bytes') ∧
    (∀ bytes, (∃ event, ofBytes? bytes = some event) ↔
      ∃ (kind : Kind) (parts : List UInt8), bytes = kind.number :: parts ∧
        parts.length = kind.width) ∧
    (∀ event bytes, bytes <+: toBytes event → bytes ≠ toBytes event → ofBytes? bytes = none) ∧
    (∀ event bytes, toBytes event <+: bytes → bytes ≠ toBytes event → ofBytes? bytes = none) ∧
    ∀ number parts, Kind.all.length ≤ number.toNat → ofBytes? (number :: parts) = none := by
  refine ⟨fun event => ofBytes?_eq_some_iff.mpr rfl, fun _ _ => ofBytes?_eq_some_iff,
    fun bytes bytes' event h h' => ?_, fun _ => ofBytes?_isSome_iff, fun event bytes hle hne => ?_,
    fun event bytes hle hne => ?_, fun number parts hlarge => ?_⟩
  · rw [ofBytes?_eq_some_iff.mp h, ofBytes?_eq_some_iff.mp h']
  · refine Option.eq_none_iff_forall_ne_some.mpr fun event' h => hne ?_
    obtain rfl := ofBytes?_eq_some_iff.mp h
    rw [eq_of_toBytes_begins hle]
  · refine Option.eq_none_iff_forall_ne_some.mpr fun event' h => hne ?_
    obtain rfl := ofBytes?_eq_some_iff.mp h
    rw [eq_of_toBytes_begins hle]
  · refine Option.eq_none_iff_forall_ne_some.mpr fun event h => ?_
    obtain ⟨kind, _, hbytes, -⟩ := ofBytes?_isSome_iff.mp ⟨event, h⟩
    rw [(List.cons.inj hbytes).1] at hlarge
    exact Nat.not_lt.mpr hlarge kind.number_lt

/-- A rate that falls below zero: the 73 bytes are read, without the last or with one more they are
not, and neither are they after a byte that is too large. -/
theorem codec_exact_rate :
    let event : Event := .accrualRateChanged 1 2 (.ofInt (-3)) 12
    let parts : List UInt8 := event.toBytes.tail
    parts.length = 72 ∧ ofBytes? (16 :: parts) = some event ∧
      (event.toBytes.dropLast <+: event.toBytes ∧ event.toBytes.dropLast ≠ event.toBytes ∧
        ofBytes? event.toBytes.dropLast = none) ∧
      (event.toBytes <+: event.toBytes ++ [0] ∧ event.toBytes ++ [0] ≠ event.toBytes ∧
        ofBytes? (event.toBytes ++ [0]) = none) ∧
      Kind.all.length ≤ (17 : UInt8).toNat ∧ ofBytes? (17 :: parts) = none := by
  intro event parts
  obtain ⟨hread, -, -, -, htruncated, hextended, hunknown⟩ := codec_exact
  have hshort : event.toBytes.dropLast <+: event.toBytes := List.dropLast_prefix _
  have hshorter : event.toBytes.dropLast ≠ event.toBytes := by decide +kernel
  have hlong : event.toBytes <+: event.toBytes ++ [0] := List.prefix_append _ _
  have hlonger : event.toBytes ++ [0] ≠ event.toBytes := by decide +kernel
  exact ⟨by decide +kernel, hread event, ⟨hshort, hshorter, htruncated _ _ hshort hshorter⟩,
    ⟨hlong, hlonger, hextended _ _ hlong hlonger⟩, by decide, hunknown _ _ (by decide)⟩

end Event

end StalkLedger
