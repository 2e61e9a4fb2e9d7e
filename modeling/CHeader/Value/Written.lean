import CHeader.Text.Decimal
import CHeader.Text.Quoted
import CHeader.Text.Trim
import CHeader.Value.Basic

/-
  Values as text.

  Text and bytes are quoted, real numbers have the fewest digits that read back, and lists and
  tables show their items.
-/

namespace CHeader

-- Numbers

/- Real numbers are written with a point in place from one
  ten thousandth on and below ten to the sixteenth. -/
def realLayout : Decimal.Layout := { least := -4, most := 15, powerDigits := 2 }

def Scalar.shownName : Scalar → String
| .char => "c_char"
| .signedChar => "c_byte"
| .unsignedChar => "c_ubyte"
| .short => "c_short"
| .unsignedShort => "c_ushort"
| .int => "c_int"
| .unsignedInt => "c_uint"
| .long => "c_long"
| .unsignedLong => "c_ulong"
| .float => "c_float"
| .double => "c_double"
| .longDouble => "c_longdouble"
| .bool => "c_bool"
| .wideChar => "c_wchar"
| .charPointer => "c_char_p"
| .wideCharPointer => "c_wchar_p"
| .voidPointer => "c_void_p"

namespace Value

def writtenReal (x : Float) : String :=
  let bits := x.toBits.toNat
  let sign := if Nat.pow 2 63 ≤ bits then "-" else ""
  let size := bits % Nat.pow 2 63
  if x.isNaN then "nan"
  else if x.isInf then sign ++ "inf"
  else if size = 0 then sign ++ "0.0"
  else
    sign ++ String.ofList (Decimal.text realLayout (Decimal.shortest (Decimal.Binary.ofBits size)))

def writtenBool (b : Bool) : String :=
  if b then "True" else "False"

-- Values

def bracketed (first last : String) (items : List String) : String :=
  first ++ Text.joinWith ", " items ++ last

def writtenType : CType → String
| .scalar kind => "<class 'ctypes." ++ kind.shownName ++ "'>"
| _ => "<class>"

def written : Value → String
| .none => "None"
| .bool b => writtenBool b
| .int n => toString n
| .real x => writtenReal x
| .text s => Text.quoted s
| .bytes b => Text.quotedBytes b
| .list items =>
    bracketed "[" "]" (items.attach.map (fun ⟨item, _⟩ => item.written))
| .tuple [item] => "(" ++ item.written ++ ",)"
| .tuple items =>
    bracketed "(" ")" (items.attach.map (fun ⟨item, _⟩ => item.written))
| .table entries =>
    bracketed "\x7b" "\x7d" (entries.attach.map (fun ⟨(key, value), h⟩ =>
        have : sizeOf value < 1 + sizeOf entries := by
          have := List.sizeOf_lt_of_mem h
          simp at this
          omega
        ((key.map Text.quoted).getD "None") ++ ": " ++ value.written))
| .type t => writtenType t
| .library path => "<CDLL " ++ Text.quoted path ++ ">"
| .function f => "<function " ++ f.symbol ++ ">"
| .object _ => "<object>"
termination_by value => sizeOf value

-- Tokens

def writtenNames (names : List String) : String :=
  if names.isEmpty then "set()"
  else
    bracketed "\x7b" "\x7d" (names.eraseDups.map Text.quoted)

/- A token as text: what it stands for, how it is spelled, whether it is looked at again, and the
  macros it came from. -/
def writtenToken (value spelling live : Value) (names : List String) : String :=
  bracketed "Token[" "]" [value.written, spelling.written, live.written, writtenNames names]

end Value

end CHeader
