import CHeader.Text.Encoding
import CHeader.Text.Real
import CHeader.Value.Basic

/-
  Scalars in memory and as values.

  Integers are reduced to the width of their type. A text pointer refers to a block of its own that
  ends in a zero. A long double has a sign, fifteen bits of exponent and sixty-four of fraction, of
  which the highest is explicit.

  Key definitions include:
    * `Bytes.ofNat`
    * `Bytes.toNat`
    * `Extended.ofDouble`
-/

namespace CHeader

-- Bytes

namespace Bytes

/- The low bytes of a number, the lowest first. -/
def ofNat : Nat → Nat → List UInt8
| 0, _ => []
| count + 1, n => (n % 256).toUInt8 :: ofNat count (n / 256)

/- The number that bytes make, the lowest first. -/
def toNat : List UInt8 → Nat
| [] => 0
| b :: rest => b.toNat + 256 * toNat rest

/- A number as a whole number with sign of a width. -/
def signedOf (bits : Nat) (n : Nat) : Int :=
  let m := n % Nat.pow 2 bits
  if bits > 0 && m ≥ Nat.pow 2 (bits - 1) then
    (m : Int) - (Nat.pow 2 bits : Nat)
  else m

/- A whole number reduced to a width. -/
def reduce (bits : Nat) (n : Int) : Nat := (n % ((Nat.pow 2 bits : Nat) : Int)).toNat

theorem length_ofNat (count n : Nat) : (ofNat count n).length = count := by
  induction count generalizing n with
  | zero => rfl
  | succ count ih => simp [ofNat, ih]

/- Bytes give back the number they were made of, reduced to their width. -/
theorem toNat_ofNat (count n : Nat) : toNat (ofNat count n) = n % Nat.pow 256 count := by
  induction count generalizing n with
  | zero => simp [ofNat, toNat, Nat.mod_one]
  | succ count ih =>
    have h : (n % 256).toUInt8.toNat = n % 256 := by
      simp only [Nat.toUInt8, UInt8.toNat_ofNat']
      omega
    simp only [ofNat, toNat, ih, h]
    have hPow : Nat.pow 256 (count + 1) = 256 * Nat.pow 256 count := Nat.mul_comm _ _
    rw [hPow, Nat.mod_mul]

end Bytes

-- Long doubles

namespace Extended

/- The bytes of a real number as a long double. -/
def ofDouble (x : Float) : List UInt8 :=
  let bits := x.toBits.toNat
  let sign := bits / Nat.pow 2 63
  let exponent := bits / Nat.pow 2 52 % Nat.pow 2 11
  let fraction := bits % Nat.pow 2 52
  let (power, significand) :=
    if exponent = 0x7FF then
      (0x7FFF, Nat.pow 2 63 + fraction * Nat.pow 2 11)
    else if exponent = 0 then
      if fraction = 0 then (0, 0)
      else
        let shift := 63 - Nat.log2 fraction
        (16383 - 1022 - 52 + Nat.log2 fraction, fraction * Nat.pow 2 shift)
    else
      (exponent + 16383 - 1023, (Nat.pow 2 52 + fraction) * Nat.pow 2 11)
  Bytes.ofNat 8 significand ++ Bytes.ofNat 8 (sign * Nat.pow 2 15 + power)

/- A number of units rounded to the nearest multiple of a
  power of two, a tie to the even one, in such multiples. -/
def roundHalfEven (n shift : Nat) : Nat :=
  let quotient := n / Nat.pow 2 shift
  let rest := 2 * (n % Nat.pow 2 shift)
  if rest > Nat.pow 2 shift || (rest = Nat.pow 2 shift && quotient % 2 = 1)
  then quotient + 1
  else quotient

/- The real number nearest to a long double. -/
def toDouble (bytes : List UInt8) : Float :=
  let significand := Bytes.toNat (bytes.take 8)
  let top := Bytes.toNat ((bytes.drop 8).take 2)
  let sign : Nat := top / Nat.pow 2 15
  let power : Nat := top % Nat.pow 2 15
  let magnitude : Nat :=
    if power = 0x7FFF then
      0x7FF * Nat.pow 2 52 + significand / Nat.pow 2 11 % Nat.pow 2 52
    else if significand = 0 then 0
    else
      let high := Nat.log2 significand
      let exponent : Int := (power : Int) - 16383 - 63 + (high : Int)
      if exponent > 1023 then 0x7FF * Nat.pow 2 52
      else if exponent ≥ -1022 then
        let whole :=
          if high ≥ 52 then
            roundHalfEven significand (high - 52)
          else significand * Nat.pow 2 (52 - high)
        (exponent + 1022).toNat * Nat.pow 2 52 + whole
      else
        let shift := (16383 + 63 - (power : Int) - 1074).toNat
        roundHalfEven significand shift
  Float.ofBits (sign * Nat.pow 2 63 + magnitude).toUInt64

end Extended

-- Texts in memory

namespace OnHeap

/- Place bytes in memory with a zero at their end. -/
def storeBytes (bytes : List UInt8) : OnHeap Nat := store (bytes ++ [0])

def storeWide (s : String) : OnHeap Nat :=
  store ((s.toList.flatMap (fun c => Bytes.ofNat 4 c.toNat)) ++ Bytes.ofNat 4 0)

def loadBytes (address : Nat) : OnHeap (List UInt8) := do
  return ((← get).memory.readText 1 address).flatten

def loadWide (address : Nat) : OnHeap String := do
  let units := (← get).memory.readText 4 address
  return String.ofList (units.map (fun unit => Char.ofNat (Bytes.toNat unit)))

-- Scalars

/- A real number for a whole one, if it is not too large. -/
def realOfInt (n : Int) : Except Fault Float :=
  let x := Float.ofInt n
  if x.isInf then .error .overflow else .ok x

def realOf : Value → Except Fault Float
| .real x => .ok x
| .int n => realOfInt n
| .bool b => .ok (if b then 1.0 else 0.0)
| _ => .error .wrongKind

def intOf : Value → Except Fault Int
| .int n => .ok n
| .bool b => .ok (if b then 1 else 0)
| _ => .error .wrongKind

def encodeReal (kind : Scalar) (x : Float) : List UInt8 :=
  match kind with
  | .float => Bytes.ofNat 4 x.toFloat32.toBits.toNat
  | .longDouble => Extended.ofDouble x
  | _ => Bytes.ofNat 8 x.toBits.toNat

def encodeChar : Value → Except Fault (List UInt8)
| .bytes [b] => .ok [b]
| value => do
    match ← intOf value with
    | .ofNat n =>
        if n < 256 then .ok [n.toUInt8] else .error .wrongKind
    | _ => .error .wrongKind

/- Whether a value counts as true, given whether an object does. -/
def truthOf (objectTruth : Object → Bool) : Value → Bool
| .none => false
| .bool b => b
| .int n => n ≠ 0
| .real x => x != 0.0
| .text s => s ≠ ""
| .bytes b => !b.isEmpty
| .list items => !items.isEmpty
| .tuple items => !items.isEmpty
| .table entries => !entries.isEmpty
| .object object => objectTruth object
| _ => true

/- Whether a value counts as true: a scalar or pointer object does unless all its bytes are zero. -/
def truth (value : Value) : OnHeap Bool := do
  let heap ← get
  let bytesOf (object : Object) := heap.memory.read object.address
      (heap.types.extent object.type).size
  return truthOf (fun object =>
      match object.type with
      | .scalar _ | .pointer _ | .function _ _ =>
          (bytesOf object).any (· ≠ 0)
      | .array _ count => count ≠ 0
      | _ => true)
    value

/- The bytes of a scalar that hold a value. -/
def encodeScalar (kind : Scalar) (value : Value) : OnHeap (List UInt8) := do
  let address (n : Int) := Bytes.ofNat 8 (Bytes.reduce 64 n)
  match kind, value with
  | .bool, value =>
      return [if ← truth value then 1 else 0]
  | .char, value => encodeChar value
  | .wideChar, .text s =>
      match s.toList with
      | [c] => return Bytes.ofNat 4 c.toNat
      | _ => throw .wrongKind
  | .wideChar, _ => throw .wrongKind
  | .charPointer, .none => return address 0
  | .charPointer, .bytes b =>
      return address (← storeBytes b)
  | .wideCharPointer, .none => return address 0
  | .wideCharPointer, .text s =>
      return address (← storeWide s)
  | .voidPointer, .none => return address 0
  | kind, value =>
      if kind.isReal then
        return encodeReal kind (← realOf value)
      else
        let n ← intOf value
        return Bytes.ofNat kind.size (Bytes.reduce (8 * kind.size) n)

def decodeScalar (kind : Scalar) (bytes : List UInt8) : OnHeap Value := do
  let n := Bytes.toNat bytes
  match kind with
  | .bool => return .bool (n ≠ 0)
  | .char => return .bytes bytes
  | .wideChar =>
      return .text (String.singleton (Char.ofNat n))
  | .charPointer =>
      if n = 0 then return .none
      else return .bytes (← loadBytes n)
  | .wideCharPointer =>
      if n = 0 then return .none
      else return .text (← loadWide n)
  | .voidPointer =>
      if n = 0 then return .none else return .int n
  | .float =>
      return .real (Float32.ofBits n.toUInt32).toFloat
  | .double => return .real (Float.ofBits n.toUInt64)
  | .longDouble => return .real (Extended.toDouble bytes)
  | kind =>
      if kind.signed? = some true then
        return .int (Bytes.signedOf (8 * kind.size) n)
      else return .int n

end OnHeap

end CHeader
