import CHeader.Value.Scalar

/-
  Objects: making them, reading them and changing them.

  Making a scalar from text reads the text as a number, or takes its bytes where the type is one of
  text. A pointer is made from any object and refers to it. A record or array is made from the
  values of its first parts.

  Key definitions include:
    * `OnHeap.make`
    * `OnHeap.assign`
    * `OnHeap.load`
-/

namespace CHeader

namespace OnHeap

-- Values for scalars

def plainText? (bytes : List UInt8) : Option String :=
  if bytes.all (· < 128) then
    some (String.ofList (bytes.map (fun b => Char.ofNat b.toNat)))
  else none

def numberText? : Value → Option (Option String)
| .text s => some (some s)
| .bytes b => some (plainText? b)
| _ => none

variable (value : Value)

def readWhole : Except Fault Value :=
  match numberText? value with
  | none => .ok value
  | some text =>
      match text.bind Text.readInteger? with
      | some n => .ok (.int n)
      | none => .error .badValue

def readReal : Except Fault Value :=
  match numberText? value with
  | none => .ok value
  | some text =>
      match text.bind Text.readReal? with
      | some x => .ok (.real x)
      | none => .error .badValue

/- The number of a single character; other values stay. -/
def readOrdinal : Value → Except Fault Value
| .text s =>
    match s.toList with
    | [c] => .ok (.int c.toNat)
    | _ => .error .wrongKind
| .bytes b =>
    match b with
    | [x] => .ok (.int x.toNat)
    | _ => .error .wrongKind
| value => .ok value

def readBytes : Value → Value
| .text s => .bytes (s.toList.flatMap Text.Encoding.utf8Bytes)
| value => value

def charOf (n : Int) : Except Fault Value :=
  if n < -(Nat.pow 2 31) || n ≥ Nat.pow 2 31 then .error .overflow
  else if n < 0 || n ≥ 0x110000 then .error .badValue
  else .ok (.text (String.singleton (Char.ofNat n.toNat)))

variable (kind : Scalar)

def scalarSource (value : Value) : Except Fault Value :=
  match kind with
  | .char => do
      match value with
      | .int n => return readBytes (← charOf n)
      | .bool b => return readBytes (← charOf b.toNat)
      | value => return readBytes value
  | .signedChar | .unsignedChar => readOrdinal value
  | .short | .unsignedShort | .int | .unsignedInt
  | .long | .unsignedLong => readWhole value
  | .float | .double | .longDouble => readReal value
  | .charPointer => .ok (readBytes value)
  | .bool | .wideChar | .wideCharPointer
  | .voidPointer => .ok value

/- Whether a scalar without a value is made from zero. -/
def startsFromZero : Scalar → Bool
| .wideChar | .wideCharPointer | .voidPointer => false
| _ => true

-- Changing objects

def addressBytes (address : Nat) : List UInt8 := Bytes.ofNat 8 address

def copy (address : Nat) (object : Object) : OnHeap Unit := do
  let size := (← extentOf object.type).size
  write address (← read object.address size)

variable (type : CType)

def assign (address : Nat) (value : Value) : OnHeap Unit := do
  match value with
  | .object object =>
      if object.type == type then copy address object
      else
        match type, object.type with
        | .pointer target, .array item _ =>
            if item == target then
              write address (addressBytes object.address)
            else throw .wrongKind
        | _, _ => throw .wrongKind
  | value =>
      match type, value with
      | .scalar kind, value =>
          write address (← encodeScalar kind value)
      | .pointer _, .none => write address (addressBytes 0)
      | _, _ => throw .wrongKind

/- Put bits in a unit of memory. -/
def assignBits (address shift bits : Nat) (value : Value) : OnHeap Unit := do
  let n := Bytes.toNat (← encodeScalar kind value)
  let unit := Bytes.toNat (← read address kind.size)
  let low := unit % Nat.pow 2 shift
  let high := unit / Nat.pow 2 (shift + bits)
  write address (Bytes.ofNat kind.size (low + n % Nat.pow 2 bits * Nat.pow 2 shift +
      high * Nat.pow 2 (shift + bits)))

def assignText (address count : Nat) (value : Value) : OnHeap Unit := do
  let units : List (List UInt8) ←
    match kind, value with
    | .char, .bytes b => pure (b.map ([·]))
    | .wideChar, .text s =>
        pure (s.toList.map (fun c => Bytes.ofNat 4 c.toNat))
    | _, _ => throw .wrongKind
  if units.length > count then throw .badValue
  let ending :=
    if units.length < count then
      List.replicate kind.size 0
    else []
  write address (units.flatten ++ ending)

variable (object : Object)

def memberAddress (place : Place) : Nat := (object.address + place.offset).toNat

def assignMember (member : Member) (place : Place) (value : Value) :
    OnHeap Unit := do
  let address := memberAddress object place
  match member.type, place.bits with
  | .scalar .bool, _ => assign member.type address value
  | .scalar kind, some bits =>
      assignBits kind address place.shift bits value
  | .array (.scalar .char) count, _ =>
      assignText .char address count value
  | .array (.scalar .wideChar) count, _ =>
      assignText .wideChar address count value
  | type, _ => assign type address value

def membersOf (number : Nat) : OnHeap (List (Member × Place)) := do
  let record := (← get).types.record number
  return (record.members.getD []).zip record.places

-- Making objects

def assignMembers (object : Object) : List (Member × Place) → List Value → OnHeap Unit
| _, [] => pure ()
| [], _ :: _ => throw .wrongKind
| (member, place) :: rest, value :: values => do
    assignMember object member place value
    assignMembers object rest values

def assignItems (item : CType) (size : Nat) : Nat → Nat → List Value → OnHeap Unit
| _, _, [] => pure ()
| _, 0, _ :: _ => throw .outOfRange
| address, left + 1, value :: values => do
    assign item address value
    assignItems item size (address + size) left values

def blank : OnHeap Object := do
  fix type
  let address ← allocate (← extentOf type).size
  return { type := type, address := address }

def holding (address : Nat) : OnHeap Object := do
  let object ← blank type
  write object.address (addressBytes address)
  return object

def make (values : List Value) : OnHeap Object := do
  match type, values with
  | .scalar kind, [] =>
      let object ← blank type
      if startsFromZero kind then
        let value ← scalarSource kind (.int 0)
        write object.address (← encodeScalar kind value)
      return object
  | .scalar kind, [value] =>
      let value ← scalarSource kind value
      let bytes ← encodeScalar kind value
      let object ← blank type
      write object.address bytes
      return object
  | .pointer _, [] => blank type
  | .pointer _, [.object object] =>
      holding type object.address
  | .function _ _, [] => blank type
  | .function _ _, [.int n] =>
      holding type (Bytes.reduce 64 n)
  | .record number, values =>
      let object ← blank type
      assignMembers object (← membersOf number) values
      return object
  | .array item count, values =>
      let object ← blank type
      assignItems item (← extentOf item).size object.address count values
      return object
  | _, _ => throw .wrongKind

def reference : OnHeap Object := make (.pointer object.type) [.object object]

-- Reading objects

/- The number in bits of a unit of memory. -/
def loadBits (address shift bits : Nat) : OnHeap Value := do
  let unit := Bytes.toNat (← read address kind.size)
  let n := unit / Nat.pow 2 shift % Nat.pow 2 bits
  if kind.signed? = some true then
    return .int (Bytes.signedOf bits n)
  else return .int n

/- What a place of a type holds: the value of a scalar, and an object otherwise. -/
def load (address : Nat) : OnHeap Value := do
  match type with
  | .scalar kind =>
      decodeScalar kind (← read address kind.size)
  | type =>
      fix type
      return .object { type := type, address := address }

def loadMember (member : Member) (place : Place) : OnHeap Value := do
  let address := memberAddress object place
  match member.type, place.bits with
  | .scalar .bool, _ => load member.type address
  | .scalar kind, some bits =>
      loadBits kind address place.shift bits
  | .array (.scalar .char) count, _ =>
      return .bytes ((← read address count).takeWhile (· ≠ 0))
  | .array (.scalar .wideChar) count, _ =>
      let text ← loadWide address
      return .text (String.ofList (text.toList.take count))
  | type, _ => load type address

def loadMembers (number : Nat) : OnHeap (List Value) := do
  (← membersOf number).mapM (fun (member, place) => loadMember object member place)

def loadItems (item : CType) (count : Nat) : OnHeap (List Value) := do
  let size := (← extentOf item).size
  (List.range count).mapM (fun i => load item (object.address + i * size))

def target : OnHeap Nat := do
  return Bytes.toNat (← read object.address 8)

/- The object that a pointer refers to, or none. -/
def contents? : OnHeap (Option Object) := do
  match object.type with
  | .pointer type =>
      let address ← target object
      if address = 0 then return none
      else
        fix type
        return some { type := type, address := address }
  | _ => return none

def contents : OnHeap Object := do
  match object.type with
  | .pointer _ =>
      match ← contents? object with
      | some inner => return inner
      | none => throw .badValue
  | _ => throw .missingPart

-- Casts

def addressOf : OnHeap Nat := do
  match value with
  | .none => return 0
  | .int n => return Bytes.reduce 64 n
  | .bool b => return b.toNat
  | .bytes b => storeBytes b
  | .text s => storeWide s
  | .object object =>
      match object.type with
      | .scalar kind =>
          if kind.isAddress then target object
          else throw .badArgument
      | .pointer _ | .function _ _ => target object
      | .array _ _ => return object.address
      | _ => throw .badArgument
  | _ => throw .badArgument

def isCastTarget : CType → Bool
| .scalar kind => kind.isAddress
| .pointer _ | .function _ _ => true
| _ => false

def cast (type : CType) : OnHeap Object := do
  let address ← addressOf value
  if isCastTarget type then holding type address
  else throw .wrongKind

end OnHeap

end CHeader
