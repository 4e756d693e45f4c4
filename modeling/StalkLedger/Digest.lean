import StalkLedger.Digits

/-!
# The SHA-256 digest

The digest that names positions: the message is padded to whole blocks of 64 bytes, and each block
is mixed into a chain of eight words in 64 rounds.
-/

namespace StalkLedger

namespace Digest

/-! ### Words -/

/-- The word rotated to the right. -/
def rotate (w : UInt32) (n : UInt32) : UInt32 := (w >>> n) ||| (w <<< (32 - n))

/-- The word written by four bytes, most significant first. -/
def wordOf (bytes : List UInt8) : UInt32 := UInt32.ofNat (ofDigits bytes.reverse)

/-- The four bytes of a word, most significant first. -/
def bytesOf (w : UInt32) : List UInt8 := (digits 4 w.toNat).reverse

/-- The words of the rounds: the first 32 binary digits of the fractional parts of the cube roots of
the first 64 primes. -/
def roundWords : List UInt32 := [
  0x428a2f98, 0x71374491, 0xb5c0fbcf, 0xe9b5dba5, 0x3956c25b, 0x59f111f1, 0x923f82a4, 0xab1c5ed5,
  0xd807aa98, 0x12835b01, 0x243185be, 0x550c7dc3, 0x72be5d74, 0x80deb1fe, 0x9bdc06a7, 0xc19bf174,
  0xe49b69c1, 0xefbe4786, 0x0fc19dc6, 0x240ca1cc, 0x2de92c6f, 0x4a7484aa, 0x5cb0a9dc, 0x76f988da,
  0x983e5152, 0xa831c66d, 0xb00327c8, 0xbf597fc7, 0xc6e00bf3, 0xd5a79147, 0x06ca6351, 0x14292967,
  0x27b70a85, 0x2e1b2138, 0x4d2c6dfc, 0x53380d13, 0x650a7354, 0x766a0abb, 0x81c2c92e, 0x92722c85,
  0xa2bfe8a1, 0xa81a664b, 0xc24b8b70, 0xc76c51a3, 0xd192e819, 0xd6990624, 0xf40e3585, 0x106aa070,
  0x19a4c116, 0x1e376c08, 0x2748774c, 0x34b0bcb5, 0x391c0cb3, 0x4ed8aa4a, 0x5b9cca4f, 0x682e6ff3,
  0x748f82ee, 0x78a5636f, 0x84c87814, 0x8cc70208, 0x90befffa, 0xa4506ceb, 0xbef9a3f7, 0xc67178f2]

/-! ### Padding -/

/-- The message, a one bit, zeros up to eight bytes before the end of a block, and the length of the
message in bits. -/
def pad (message : List UInt8) : List UInt8 :=
  let n := message.length
  message ++ 0x80 :: List.replicate ((119 - n % 64) % 64) 0 ++ (digits 8 (8 * n)).reverse

/-- Pieces of `n` bytes each, `count` of them. -/
def pieces (n : Nat) : Nat → List UInt8 → List (List UInt8)
  | 0, _ => []
  | count + 1, bytes => bytes.take n :: pieces n count (bytes.drop n)

/-! ### Mixing -/

/-- The chain of eight words. -/
structure Chain where
  a : UInt32
  b : UInt32
  c : UInt32
  d : UInt32
  e : UInt32
  f : UInt32
  g : UInt32
  h : UInt32

/-- Where every chain starts: the square roots of the first eight primes. -/
def Chain.start : Chain :=
  ⟨0x6a09e667, 0xbb67ae85, 0x3c6ef372, 0xa54ff53a, 0x510e527f, 0x9b05688c, 0x1f83d9ab, 0x5be0cd19⟩

/-- The next word of a schedule, given the words so far, latest first. -/
def nextWord (latest : List UInt32) : UInt32 :=
  let w₂ := latest.getD 1 0
  let w₁₅ := latest.getD 14 0
  let mix₁ := rotate w₂ 17 ^^^ rotate w₂ 19 ^^^ (w₂ >>> 10)
  let mix₀ := rotate w₁₅ 7 ^^^ rotate w₁₅ 18 ^^^ (w₁₅ >>> 3)
  mix₁ + latest.getD 6 0 + mix₀ + latest.getD 15 0

/-- The schedule grown by `n` words, latest first. -/
def extend : Nat → List UInt32 → List UInt32
  | 0, latest => latest
  | n + 1, latest => extend n (nextWord latest :: latest)

/-- The 64 words that a block puts into the rounds. -/
def schedule (block : List UInt8) : List UInt32 :=
  (extend 48 ((pieces 4 16 block).map wordOf).reverse).reverse

/-- One round. -/
def Chain.round (s : Chain) (k w : UInt32) : Chain :=
  let mix₁ := rotate s.e 6 ^^^ rotate s.e 11 ^^^ rotate s.e 25
  let choice := (s.e &&& s.f) ^^^ (~~~s.e &&& s.g)
  let t₁ := s.h + mix₁ + choice + k + w
  let mix₀ := rotate s.a 2 ^^^ rotate s.a 13 ^^^ rotate s.a 22
  let majority := (s.a &&& s.b) ^^^ (s.a &&& s.c) ^^^ (s.b &&& s.c)
  ⟨t₁ + (mix₀ + majority), s.a, s.b, s.c, s.d + t₁, s.e, s.f, s.g⟩

/-- The word-wise sum of two chains. -/
def Chain.add (s t : Chain) : Chain :=
  ⟨s.a + t.a, s.b + t.b, s.c + t.c, s.d + t.d, s.e + t.e, s.f + t.f, s.g + t.g, s.h + t.h⟩

/-- The chain after one more block. -/
def Chain.absorb (s : Chain) (block : List UInt8) : Chain :=
  s.add ((roundWords.zip (schedule block)).foldl (fun t (k, w) => t.round k w) s)

/-- The bytes of a chain. -/
def Chain.bytes (s : Chain) : List UInt8 :=
  [s.a, s.b, s.c, s.d, s.e, s.f, s.g, s.h].flatMap bytesOf

end Digest

/-- The 32 bytes of the SHA-256 digest of a message. -/
def digest (message : List UInt8) : List UInt8 :=
  let padded := Digest.pad message
  ((Digest.pieces 64 (padded.length / 64) padded).foldl Digest.Chain.absorb
    Digest.Chain.start).bytes

end StalkLedger
