/-!
# SHA-256

The 256-bit digest over words of 32 bits:

* `padded`: the message, one marker bit, zeros, and the length in bits, to a multiple of 64 bytes.
* `schedule`: the 64 words that one block of 16 expands to.
* `compress`: 64 rounds over one block.
* `digest`: the chain value after all blocks, as 32 bytes.
-/

namespace EntityCache
namespace Hash
namespace Sha256

/-- The chain value: eight words. -/
structure Chain where
  a : UInt32
  b : UInt32
  c : UInt32
  d : UInt32
  e : UInt32
  f : UInt32
  g : UInt32
  h : UInt32

/-- Fractional bits of the square roots of the first eight primes. -/
def start : Chain :=
  ⟨0x6a09e667, 0xbb67ae85, 0x3c6ef372, 0xa54ff53a, 0x510e527f, 0x9b05688c, 0x1f83d9ab, 0x5be0cd19⟩

/-- Fractional bits of the cube roots of the first 64 primes. -/
def roundConstants : List UInt32 :=
  [0x428a2f98, 0x71374491, 0xb5c0fbcf, 0xe9b5dba5, 0x3956c25b, 0x59f111f1, 0x923f82a4, 0xab1c5ed5,
   0xd807aa98, 0x12835b01, 0x243185be, 0x550c7dc3, 0x72be5d74, 0x80deb1fe, 0x9bdc06a7, 0xc19bf174,
   0xe49b69c1, 0xefbe4786, 0x0fc19dc6, 0x240ca1cc, 0x2de92c6f, 0x4a7484aa, 0x5cb0a9dc, 0x76f988da,
   0x983e5152, 0xa831c66d, 0xb00327c8, 0xbf597fc7, 0xc6e00bf3, 0xd5a79147, 0x06ca6351, 0x14292967,
   0x27b70a85, 0x2e1b2138, 0x4d2c6dfc, 0x53380d13, 0x650a7354, 0x766a0abb, 0x81c2c92e, 0x92722c85,
   0xa2bfe8a1, 0xa81a664b, 0xc24b8b70, 0xc76c51a3, 0xd192e819, 0xd6990624, 0xf40e3585, 0x106aa070,
   0x19a4c116, 0x1e376c08, 0x2748774c, 0x34b0bcb5, 0x391c0cb3, 0x4ed8aa4a, 0x5b9cca4f, 0x682e6ff3,
   0x748f82ee, 0x78a5636f, 0x84c87814, 0x8cc70208, 0x90befffa, 0xa4506ceb, 0xbef9a3f7, 0xc67178f2]

def rotateRight (x n : UInt32) : UInt32 :=
  (x >>> n) ||| (x <<< (32 - n))

/-- A number as big-endian bytes, `width` of them. -/
def bigEndian (width n : Nat) : List UInt8 :=
  (List.range width).reverse.map (fun i => UInt8.ofNat (n / Nat.pow 256 i))

/-- The message with marker, zeros and length; the result fills whole blocks. -/
def padded (message : List UInt8) : List UInt8 :=
  let zeros := (119 - message.length % 64) % 64
  message ++ 0x80 :: (List.replicate zeros 0 ++ bigEndian 8 (8 * message.length))

/-- Big-endian words; a rest of fewer than four bytes is dropped. -/
def words : List UInt8 → List UInt32
  | b₀ :: b₁ :: b₂ :: b₃ :: rest =>
      (b₀.toUInt32 <<< 24 ||| b₁.toUInt32 <<< 16 ||| b₂.toUInt32 <<< 8 ||| b₃.toUInt32) ::
        words rest
  | _ =>
      []

/-- The next word of the schedule from the last sixteen, of which the oldest comes first. -/
def nextWord (window : Array UInt32) : UInt32 :=
  let w₀ := window.getD 0 0
  let w₁ := window.getD 1 0
  let w₉ := window.getD 9 0
  let w₁₄ := window.getD 14 0
  let s₀ := rotateRight w₁ 7 ^^^ rotateRight w₁ 18 ^^^ (w₁ >>> 3)
  let s₁ := rotateRight w₁₄ 17 ^^^ rotateRight w₁₄ 19 ^^^ (w₁₄ >>> 10)
  w₀ + s₀ + w₉ + s₁

/-- `count` words, starting with the sixteen of the window. -/
def schedule : (count : Nat) → (window : Array UInt32) → List UInt32
  | 0, _ =>
      []
  | count + 1, window =>
      window.getD 0 0 :: schedule count ((window.push (nextWord window)).extract 1 17)

def round (s : Chain) (k w : UInt32) : Chain :=
  let s₁ := rotateRight s.e 6 ^^^ rotateRight s.e 11 ^^^ rotateRight s.e 25
  let choice := (s.e &&& s.f) ^^^ (~~~s.e &&& s.g)
  let t₁ := s.h + s₁ + choice + k + w
  let s₀ := rotateRight s.a 2 ^^^ rotateRight s.a 13 ^^^ rotateRight s.a 22
  let majority := (s.a &&& s.b) ^^^ (s.a &&& s.c) ^^^ (s.b &&& s.c)
  ⟨t₁ + (s₀ + majority), s.a, s.b, s.c, s.d + t₁, s.e, s.f, s.g⟩

/-- One block of sixteen words. -/
def compress (s : Chain) (block : List UInt32) : Chain :=
  let t := ((roundConstants.zip (schedule 64 block.toArray)).foldl (fun s kw => round s kw.1 kw.2) s)
  ⟨s.a + t.a, s.b + t.b, s.c + t.c, s.d + t.d, s.e + t.e, s.f + t.f, s.g + t.g, s.h + t.h⟩

/-- All blocks in turn; `blocks` bounds their number. -/
def chain : (blocks : Nat) → Chain → List UInt32 → Chain
  | 0, s, _ =>
      s
  | blocks + 1, s, ws =>
      if ws.length < 16 then s else chain blocks (compress s (ws.take 16)) (ws.drop 16)

def Chain.bytes (s : Chain) : List UInt8 :=
  [s.a, s.b, s.c, s.d, s.e, s.f, s.g, s.h].flatMap (fun w => bigEndian 4 w.toNat)

/-- The digest of a message, 32 bytes. -/
def digest (message : List UInt8) : List UInt8 :=
  let ws := words (padded message)
  (chain (ws.length / 16) start ws).bytes

end Sha256
end Hash
end EntityCache
