import CHeader.Text.Quoted

/-
  The secure hash with digests of 256 bits.

  A message is padded to whole blocks of sixty-four bytes. Eight words are carried from block to
  block; each block is stretched to sixty-four words, one for each round.
-/

namespace CHeader

namespace Digest

-- Words

/- The eight words that are carried from block to block. -/
structure Words where
  a : UInt32
  b : UInt32
  c : UInt32
  d : UInt32
  e : UInt32
  f : UInt32
  g : UInt32
  h : UInt32
  deriving DecidableEq, Repr

def Words.first : Words :=
  { a := 0x6a09e667, b := 0xbb67ae85,
    c := 0x3c6ef372, d := 0xa54ff53a,
    e := 0x510e527f, f := 0x9b05688c,
    g := 0x1f83d9ab, h := 0x5be0cd19 }

def Words.add (x y : Words) : Words :=
  { a := x.a + y.a, b := x.b + y.b,
    c := x.c + y.c, d := x.d + y.d,
    e := x.e + y.e, f := x.f + y.f,
    g := x.g + y.g, h := x.h + y.h }

def Words.toList (x : Words) : List UInt32 := [x.a, x.b, x.c, x.d, x.e, x.f, x.g, x.h]

def roundConstants : List UInt32 :=
  [0x428a2f98, 0x71374491, 0xb5c0fbcf, 0xe9b5dba5, 0x3956c25b, 0x59f111f1, 0x923f82a4, 0xab1c5ed5,
   0xd807aa98, 0x12835b01, 0x243185be, 0x550c7dc3, 0x72be5d74, 0x80deb1fe, 0x9bdc06a7, 0xc19bf174,
   0xe49b69c1, 0xefbe4786, 0x0fc19dc6, 0x240ca1cc, 0x2de92c6f, 0x4a7484aa, 0x5cb0a9dc, 0x76f988da,
   0x983e5152, 0xa831c66d, 0xb00327c8, 0xbf597fc7, 0xc6e00bf3, 0xd5a79147, 0x06ca6351, 0x14292967,
   0x27b70a85, 0x2e1b2138, 0x4d2c6dfc, 0x53380d13, 0x650a7354, 0x766a0abb, 0x81c2c92e, 0x92722c85,
   0xa2bfe8a1, 0xa81a664b, 0xc24b8b70, 0xc76c51a3, 0xd192e819, 0xd6990624, 0xf40e3585, 0x106aa070,
   0x19a4c116, 0x1e376c08, 0x2748774c, 0x34b0bcb5, 0x391c0cb3, 0x4ed8aa4a, 0x5b9cca4f, 0x682e6ff3,
   0x748f82ee, 0x78a5636f, 0x84c87814, 0x8cc70208, 0x90befffa, 0xa4506ceb, 0xbef9a3f7, 0xc67178f2]

/- Turn the bits of a word to the right. -/
def turn (x n : UInt32) : UInt32 := (x >>> n) ||| (x <<< (32 - n))

-- Messages as blocks

/- The bytes of a number, the highest first. -/
def highFirst (count n : Nat) : List UInt8 :=
  (List.range count).map (fun k =>
    UInt8.ofNat (n / Nat.pow 256 (count - 1 - k)))

variable (message : List UInt8)

/- A message with a closing bit, zeros and its length in bits: whole blocks of sixty-four bytes. -/
def padded : List UInt8 :=
  let size := message.length
  let zeros := (119 - size % 64) % 64
  message ++ 0x80 :: List.replicate zeros 0 ++ highFirst 8 (8 * size)

def blockWords : List UInt8 → List UInt32
| p :: q :: r :: s :: rest =>
    ((p.toUInt32 <<< 24) ||| (q.toUInt32 <<< 16) |||
      (r.toUInt32 <<< 8) ||| s.toUInt32) :: blockWords rest
| _ => []

def nextWord (words : Array UInt32) : UInt32 :=
  let back (n : Nat) : UInt32 := words.getD (words.size - n) 0
  let x := back 15
  let y := back 2
  let low := turn x 7 ^^^ turn x 18 ^^^ (x >>> 3)
  let high := turn y 17 ^^^ turn y 19 ^^^ (y >>> 10)
  back 16 + low + back 7 + high

/- The sixty-four words of a block, one for each round. -/
def schedule (block : List UInt8) : List UInt32 :=
  ((List.range 48).foldl (fun words _ => words.push (nextWord words))
    (blockWords block).toArray).toList

-- Rounds

/- One round, with the sum of its constant and its word. -/
def step (x : Words) (added : UInt32) : Words :=
  let turned := turn x.e 6 ^^^ turn x.e 11 ^^^ turn x.e 25
  let chosen := (x.e &&& x.f) ^^^ (~~~x.e &&& x.g)
  let one := x.h + turned + chosen + added
  let spread := turn x.a 2 ^^^ turn x.a 13 ^^^ turn x.a 22
  let most := (x.a &&& x.b) ^^^ (x.a &&& x.c) ^^^ (x.b &&& x.c)
  { a := one + spread + most, b := x.a, c := x.b, d := x.c,
    e := x.d + one, f := x.e, g := x.f, h := x.g }

def compress (words : Words) (block : List UInt8) : Words :=
  words.add ((List.zipWith (· + ·) roundConstants (schedule block)).foldl step words)

/- The words after all blocks of so many. -/
def carry : Nat → Words → List UInt8 → Words
| 0, words, _ => words
| count + 1, words, bytes =>
    carry count (compress words (bytes.take 64)) (bytes.drop 64)

def sha256 : List UInt8 :=
  let bytes := padded message
  let words := carry (bytes.length / 64) Words.first bytes
  words.toList.flatMap (fun w => highFirst 4 w.toNat)

def sha256Text : String :=
  String.ofList ((sha256 message).flatMap (fun b =>
      Text.hexDigits 2 b.toNat))

end Digest

end CHeader
