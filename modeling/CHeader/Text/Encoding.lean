import CHeader.Text.Trim

/-
  Text encodings.

  Reading never fails on single bytes: every byte that is part of no character becomes the
  replacement character, and each faulty sequence of bytes counts as one warning. An unfinished
  sequence at the end of the input is left out.

  Key definitions include:
    * `Text.Encoding`
    * `Text.Encoding.ofName?`
    * `Text.Encoding.decode`
-/

namespace CHeader

namespace Text

-- Names

inductive Encoding where
  | utf8
  | utf8Marked
  | latin1
  | ascii
  | utf16
  | utf16Little
  | utf16Big
  deriving DecidableEq, Repr, Inhabited

namespace Encoding

/- A name in lower case with underscores between words. -/
def normalName (name : String) : String :=
  String.ofList (name.toList.map (fun c =>
      if c = '-' ∨ c = ' ' then '_' else c.toLower))

def ofName? (name : String) : Option Encoding :=
  let known : List (String × Encoding) := [("utf8", utf8), ("utf_8", utf8), ("u8", utf8),
      ("utf", utf8), ("cp65001", utf8), ("utf8_ucs2", utf8), ("utf8_ucs4", utf8),
      ("utf_8_sig", utf8Marked), ("latin_1", latin1), ("latin1", latin1),
      ("iso_8859_1", latin1), ("iso8859_1", latin1), ("iso8859", latin1), ("8859", latin1),
      ("cp819", latin1), ("latin", latin1), ("l1", latin1), ("ascii", ascii), ("us_ascii", ascii),
      ("646", ascii), ("utf_16", utf16), ("utf16", utf16), ("u16", utf16),
      ("utf_16_le", utf16Little), ("utf_16le", utf16Little),
      ("utf_16_be", utf16Big), ("utf_16be", utf16Big)]
  (known.find? (fun entry => entry.1 = normalName name)).map Prod.snd

-- Reading

/- Characters that were read, with the number of faulty sequences among them. -/
structure Decoded where
  chars : List Char
  warnings : Nat
  deriving Inhabited

def Decoded.prepend (chars : List Char) (warnings : Nat) (more : Decoded) : Decoded :=
  ⟨chars ++ more.chars, warnings + more.warnings⟩

/- The character shown for a byte that cannot be read. -/
def replacement : Char := Char.ofNat 0xFFFD

/- The place of a position in a row of so many items, where positions below zero count from the end. -/
def placeOf (count : Nat) (position : Int) : Nat :=
  if position < 0 then (position + count).toNat
  else min position.toNat count

/- What stands in place of the items from one position to another that cannot be read or written. -/
def replacementOf (count : Nat) (start stop : Int) : String :=
  String.ofList (List.replicate (placeOf count stop - placeOf count start) replacement)

/- How a sequence of bytes starts. -/
inductive Utf8Step where
  | char (c : Char) (size : Nat)
  | faulty (size : Nat)
  | unfinished

/- Whether a byte continues a character. -/
def continues (b : UInt8) : Bool := 0x80 ≤ b && b < 0xC0

/- The range of the second byte of a character. -/
def secondRange (first : UInt8) : UInt8 × UInt8 :=
  if first = 0xE0 then (0xA0, 0xBF)
  else if first = 0xED then (0x80, 0x9F)
  else if first = 0xF0 then (0x90, 0xBF)
  else if first = 0xF4 then (0x80, 0x8F)
  else (0x80, 0xBF)

/- The number of bytes of the character that a byte starts, or zero if it starts none. -/
def sizeFromFirst (first : UInt8) : Nat :=
  if first < 0x80 then 1
  else if first < 0xC2 then 0
  else if first < 0xE0 then 2
  else if first < 0xF0 then 3
  else if first < 0xF5 then 4
  else 0

/- The bits that a continuing byte adds. -/
def lowBits (b : UInt8) : Nat := b.toNat % 64

def utf8Step (first : UInt8) (rest : List UInt8) : Utf8Step :=
  let size := sizeFromFirst first
  let (low, high) := secondRange first
  if size = 1 then .char (Char.ofNat first.toNat) 1
  else if size = 0 then .faulty 1
  else
    match rest with
    | [] => .unfinished
    | b :: rest =>
        if b < low || high < b then .faulty 1
        else if size = 2 then
          .char (Char.ofNat (first.toNat % 32 * 64 + lowBits b)) 2
        else
          match rest with
          | [] => .unfinished
          | c :: rest =>
              if !continues c then .faulty 2
              else if size = 3 then
                .char (Char.ofNat (first.toNat % 16 * 4096 + lowBits b * 64 + lowBits c)) 3
              else
                match rest with
                | [] => .unfinished
                | d :: _ =>
                    if !continues d then .faulty 3
                    else
                      .char (Char.ofNat (first.toNat % 8 * 262144 + lowBits b * 4096 +
                          lowBits c * 64 + lowBits d))
                        4

/- Read bytes in the encoding of one to four bytes, with
  the number of bytes that are already used up. -/
def decodeUtf8 : Nat → List UInt8 → Decoded
| _, [] => ⟨[], 0⟩
| skip + 1, _ :: rest => decodeUtf8 skip rest
| 0, b :: rest =>
    match utf8Step b rest with
    | .char c size =>
        (decodeUtf8 (size - 1) rest).prepend [c] 0
    | .faulty size =>
        (decodeUtf8 (size - 1) rest).prepend (List.replicate size replacement) 1
    | .unfinished => ⟨[], 0⟩

def decodeLatin1 (bytes : List UInt8) : Decoded := ⟨bytes.map (fun b => Char.ofNat b.toNat), 0⟩

/- Read bytes below 128; every other byte is faulty. -/
def decodeAscii : List UInt8 → Decoded
| [] => ⟨[], 0⟩
| b :: rest =>
    if b < 0x80 then
      (decodeAscii rest).prepend [Char.ofNat b.toNat] 0
    else (decodeAscii rest).prepend [replacement] 1

def units (big : Bool) : List UInt8 → List Nat
| a :: b :: rest =>
    (if big then a.toNat * 256 + b.toNat
      else b.toNat * 256 + a.toNat) :: units big rest
| _ => []

/- Read units of sixteen bits. A pair of surrogates is one
  character; a lone one makes two faulty bytes. -/
def decodeUnits : List Nat → Decoded
| [] => ⟨[], 0⟩
| u :: rest =>
    if u < 0xD800 ∨ 0xDFFF < u then
      (decodeUnits rest).prepend [Char.ofNat u] 0
    else if 0xDC00 ≤ u then
      (decodeUnits rest).prepend [replacement, replacement] 1
    else
      match rest with
      | [] => ⟨[], 0⟩
      | v :: rest' =>
          if 0xDC00 ≤ v ∧ v ≤ 0xDFFF then
            (decodeUnits rest').prepend [Char.ofNat ((u - 0xD800) * 1024 + (v - 0xDC00) + 0x10000)]
              0
          else
            (decodeUnits (v :: rest')).prepend [replacement, replacement] 1

/- Read bytes in an encoding; there is no answer if a required byte order mark is missing. -/
def decode (encoding : Encoding) (bytes : List UInt8) : Option Decoded :=
  match encoding with
  | utf8 => some (decodeUtf8 0 bytes)
  | utf8Marked =>
      match bytes with
      | 0xEF :: 0xBB :: 0xBF :: rest =>
          some (decodeUtf8 0 rest)
      | _ => some (decodeUtf8 0 bytes)
  | latin1 => some (decodeLatin1 bytes)
  | ascii => some (decodeAscii bytes)
  | utf16 =>
      match bytes with
      | 0xFF :: 0xFE :: rest =>
          some (decodeUnits (units false rest))
      | 0xFE :: 0xFF :: rest =>
          some (decodeUnits (units true rest))
      | _ :: _ :: _ => none
      | _ => some ⟨[], 0⟩
  | utf16Little => some (decodeUnits (units false bytes))
  | utf16Big => some (decodeUnits (units true bytes))

-- Writing

/- A character in the encoding of one to four bytes. -/
def utf8Bytes (c : Char) : List UInt8 :=
  let n := c.toNat
  if n < 0x80 then [n.toUInt8]
  else if n < 0x800 then
    [(0xC0 + n / 64).toUInt8, (0x80 + n % 64).toUInt8]
  else if n < 0x10000 then
    [(0xE0 + n / 4096).toUInt8, (0x80 + n / 64 % 64).toUInt8, (0x80 + n % 64).toUInt8]
  else
    [(0xF0 + n / 262144).toUInt8, (0x80 + n / 4096 % 64).toUInt8, (0x80 + n / 64 % 64).toUInt8,
      (0x80 + n % 64).toUInt8]

def unitBytes (big : Bool) (u : Nat) : List UInt8 :=
  let high := (u / 256).toUInt8
  let low := (u % 256).toUInt8
  if big then [high, low] else [low, high]

/- A character in units of sixteen bits. -/
def utf16Bytes (big : Bool) (c : Char) : List UInt8 :=
  let n := c.toNat
  if n < 0x10000 then unitBytes big n
  else
    unitBytes big (0xD800 + (n - 0x10000) / 1024) ++ unitBytes big (0xDC00 + (n - 0x10000) % 1024)

def singleBytes? (limit : Nat) (cs : List Char) : Option (List UInt8) :=
  if cs.all (fun c => c.toNat < limit) then
    some (cs.map (fun c => c.toNat.toUInt8))
  else none

/- Write characters in an encoding, if it has them all. -/
def encode? (encoding : Encoding) (cs : List Char) : Option (List UInt8) :=
  match encoding with
  | utf8 => some (cs.flatMap utf8Bytes)
  | utf8Marked =>
      some ([0xEF, 0xBB, 0xBF] ++ cs.flatMap utf8Bytes)
  | latin1 => singleBytes? 256 cs
  | ascii => singleBytes? 128 cs
  | utf16 =>
      some ([0xFF, 0xFE] ++ cs.flatMap (utf16Bytes false))
  | utf16Little => some (cs.flatMap (utf16Bytes false))
  | utf16Big => some (cs.flatMap (utf16Bytes true))

end Encoding

end Text

end CHeader
