import StalkLedger.Number
import StalkLedger.Digits

/-!
# Identifiers

Accounts, assets and positions are named by 32 bytes.  An identifier is the number those bytes
write, most significant byte first, so that the order of the numbers is the order of the bytes.
-/

namespace StalkLedger

/-- A name of 32 bytes. -/
abbrev Identifier := Unsigned 256

/-- The name of an account. -/
abbrev AccountId := Identifier

/-- The name of an asset. -/
abbrev AssetId := Identifier

namespace Identifier

/-- The 32 bytes, most significant first. -/
def bytes (name : Identifier) : List UInt8 := (digits 32 name.toNat).reverse

/-- The identifier written by bytes, most significant first. -/
def ofBytes (bytes : List UInt8) : Identifier := .ofNat (ofDigits bytes.reverse)

/-- The first four bytes in hexadecimal: enough to tell accounts and assets apart in a message. -/
def short (name : Identifier) : String := hex (name.bytes.take 4) ++ ".."

@[simp] theorem length_bytes (name : Identifier) : name.bytes.length = 32 := by
  simp [bytes]

/-- A name is known by its bytes, -/
theorem ofBytes_bytes (name : Identifier) : ofBytes name.bytes = name := by
  have h : name.toNat < 256 ^ 32 := name.toNat_lt
  simp only [ofBytes, bytes, List.reverse_reverse, ofDigits_digits, Nat.mod_eq_of_lt h]
  exact Unsigned.ofNat_toNat name

/-- and any bytes of the right number are those of a name. -/
theorem bytes_ofBytes {bytes : List UInt8} (h : bytes.length = 32) :
    (ofBytes bytes).bytes = bytes := by
  have hl : bytes.reverse.length = 32 := by simpa using h
  have hlt : ofDigits bytes.reverse < 256 ^ 32 := by
    rw [← hl]
    exact ofDigits_lt _
  have hlt : ofDigits bytes.reverse < 2 ^ 256 := hlt
  have hd := digits_ofDigits bytes.reverse
  rw [hl] at hd
  simp only [Identifier.bytes, ofBytes, Unsigned.toNat_ofNat, Nat.mod_eq_of_lt hlt, hd,
    List.reverse_reverse]

end Identifier

end StalkLedger
