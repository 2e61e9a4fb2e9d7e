import CHeader.Data.Basic
import CHeader.Text.Real
import CHeader.Value.Written

/-
  Plain data as text in object notation.

  Reading cuts a text into tokens first. The tokens then run through a machine whose state is the
  lists and records that are still open; a text is refused where a token does not fit the place it
  stands at.

  Key definitions include:
    * `Json.tokens?`
    * `Json.State.step?`
    * `Json.read?`
-/

namespace CHeader

namespace Json

-- Tokens

/- The parts of a text; a plain value is one part. -/
inductive Token where
  | openList
  | closeList
  | openRecord
  | closeRecord
  | comma
  | colon
  | value (data : Data)
  deriving Inhabited

def isGap (c : Char) : Bool := c = ' ' || c = '\t' || c = '\n' || c = '\r'

/- The characters of numbers and names. -/
def isWordChar (c : Char) : Bool := c.isAlphanum || c = '+' || c = '-' || c = '.'

def fourDigits? (a b c d : Char) : Option Nat :=
  if [a, b, c, d].all (fun x => x.isDigit || "abcdefABCDEF".contains x) then
    Text.readInBase? 16 [a, b, c, d]
  else none

def escaped? : Char → Option Nat
| '"' => some 34
| '\\' => some 92
| '/' => some 47
| 'b' => some 8
| 'f' => some 12
| 'n' => some 10
| 'r' => some 13
| 't' => some 9
| _ => none

/- The code units of a quoted text up to its closing quote, and what follows it. -/
def quotedUnits? : List Char → Option (List Nat × List Char)
| [] => none
| '"' :: rest => some ([], rest)
| '\\' :: 'u' :: a :: b :: c :: d :: rest => do
    let unit ← fourDigits? a b c d
    let (units, rest) ← quotedUnits? rest
    return (unit :: units, rest)
| '\\' :: c :: rest => do
    let unit ← escaped? c
    let (units, rest) ← quotedUnits? rest
    return (unit :: units, rest)
| c :: rest =>
    if c = '\\' || c.toNat < 32 then none
    else do
      let (units, rest) ← quotedUnits? rest
      return (c.toNat :: units, rest)

/- The characters of code units; two units of a pair are one character. -/
def charsOfUnits : List Nat → List Char
| high :: low :: rest =>
    if 0xD800 ≤ high && high < 0xDC00 && 0xDC00 ≤ low && low < 0xE000 then
      Char.ofNat (0x10000 + (high - 0xD800) * 1024 + (low - 0xDC00)) :: charsOfUnits rest
    else oneChar high :: charsOfUnits (low :: rest)
| [unit] => [oneChar unit]
| [] => []
where
  /- Half of a pair alone has no character of its own. -/
  oneChar (unit : Nat) : Char :=
    if 0xD800 ≤ unit && unit < 0xE000 then Char.ofNat 0xFFFD
    else Char.ofNat unit

-- Numbers and names

def isPower : List Char → Bool
| [] => true
| c :: rest =>
    let digits :=
      match rest with
      | '+' :: more => more
      | '-' :: more => more
      | digits => digits
    (c = 'e' || c = 'E') && !digits.isEmpty && digits.all Char.isDigit

/- A number without sign. A number with a point or a power is real, and no other starts with a zero. -/
def unsigned? (isBelow : Bool) (cs : List Char) : Option Data :=
  let whole := cs.takeWhile Char.isDigit
  let rest := cs.dropWhile Char.isDigit
  let sign := if isBelow then "-" else ""
  let real : Option Data := (Text.readReal? (sign ++ String.ofList cs)).map .real
  if whole.isEmpty || (whole.length > 1 && whole.head? = some '0')
  then none
  else
    match rest with
    | [] =>
        (Text.readInteger? (sign ++ String.ofList cs)).map .int
    | '.' :: more =>
        let part := more.takeWhile Char.isDigit
        if part.isEmpty || !isPower (more.dropWhile Char.isDigit)
        then none
        else real
    | _ => if isPower rest then real else none

def word? (cs : List Char) : Option Data :=
  match String.ofList cs with
  | "null" => some .null
  | "true" => some (.bool true)
  | "false" => some (.bool false)
  | "NaN" => some (.real (0.0 / 0.0))
  | "Infinity" => some (.real (1.0 / 0.0))
  | "-Infinity" => some (.real (-1.0 / 0.0))
  | _ =>
      match cs with
      | '-' :: rest => unsigned? true rest
      | _ => unsigned? false cs

def mark? : Char → Option Token
| '[' => some .openList
| ']' => some .closeList
| '\x7b' => some .openRecord
| '\x7d' => some .closeRecord
| ',' => some .comma
| ':' => some .colon
| _ => none

def firstToken? (c : Char) (rest : List Char) : Option (Token × List Char) :=
  match mark? c with
  | some token => some (token, rest)
  | none =>
      if c = '"' then
        (quotedUnits? rest).map (fun (units, rest) =>
          (.value (.text (String.ofList (charsOfUnits units))), rest))
      else
        (word? (c :: rest.takeWhile isWordChar)).map (fun data =>
            (.value data, rest.dropWhile isWordChar))

-- Cutting a text into tokens

/- What follows a quoted text is shorter than the text. -/
theorem length_quotedUnits? : ∀ {units : List Nat} {rest : List Char},
    quotedUnits? cs = some (units, rest) → rest.length ≤ cs.length := by
  fun_induction quotedUnits? cs with
  | case1 => intro units rest h; cases h
  | case2 tail =>
      intro units rest h
      simp at h
      simp [← h.2]
  | case3 a b c d tail ih =>
      intro units rest h
      cases hDigits : fourDigits? a b c d with
      | none => simp [hDigits] at h
      | some n =>
          cases hTail : quotedUnits? tail with
          | none => simp [hDigits, hTail] at h
          | some pair =>
              simp [hDigits, hTail] at h
              have := ih hTail
              simp [← h.2] at this ⊢
              omega
  | case4 c tail _ ih =>
      intro units rest h
      cases hUnit : escaped? c with
      | none => simp [hUnit] at h
      | some n =>
          cases hTail : quotedUnits? tail with
          | none => simp [hUnit, hTail] at h
          | some pair =>
              simp [hUnit, hTail] at h
              have := ih hTail
              simp [← h.2] at this ⊢
              omega
  | case5 => intro units rest h; cases h
  | case6 c tail _ _ _ _ ih =>
      intro units rest h
      cases hTail : quotedUnits? tail with
      | none => simp [hTail] at h
      | some pair =>
          simp [hTail] at h
          have := ih hTail
          simp [← h.2] at this ⊢
          omega

/- What follows a token is no longer than what followed its first character. -/
theorem length_firstToken? (h : firstToken? c cs = some (token, rest)) :
    rest.length ≤ cs.length := by
  unfold firstToken? at h
  split at h
  · simp at h
    simp [← h.2]
  · split at h
    · cases hUnits : quotedUnits? cs with
      | none => simp [hUnits] at h
      | some pair =>
          have := length_quotedUnits? hUnits
          simp [hUnits] at h
          simpa [← h.2] using this
    · cases hWord : word? (c :: cs.takeWhile isWordChar) with
      | none => simp [hWord] at h
      | some data =>
          simp [hWord] at h
          rw [← h.2]
          exact (List.dropWhile_sublist _).length_le

def tokens? : List Char → Option (List Token)
| [] => some []
| c :: cs =>
    if isGap c then tokens? cs
    else
      match h : firstToken? c cs with
      | none => none
      | some (token, rest) =>
          have := length_firstToken? h
          (tokens? rest).map (token :: ·)
termination_by cs => cs.length

-- Reading

/- A list or a record that is still open; the last item is the first one here. -/
inductive Frame where
  | list (done : List Data)
  | record (done : List (String × Data)) (key : String)
  deriving Inhabited

inductive Place where
  | value
  | firstItem
  | firstKey
  | key
  | colon
  | afterValue
  deriving DecidableEq, Inhabited, Repr

structure State where
  frames : List Frame := []
  place : Place := .value
  result : Data := .null
  deriving Inhabited

/- Enter a field; a later one of a name replaces an earlier one. -/
def enterField (key : String) (data : Data) (done : List (String × Data)) : List (String × Data) :=
  if done.any (fun field => field.1 = key) then
    done.map (fun field =>
      if field.1 = key then (key, data) else field)
  else (key, data) :: done

variable (state : State)

def State.give (data : Data) : State :=
  match state.frames with
  | [] => { state with place := .afterValue, result := data }
  | .list done :: rest =>
      { state with
        frames := .list (data :: done) :: rest,
        place := .afterValue }
  | .record done key :: rest =>
      { state with
        frames := .record (enterField key data done) "" :: rest,
        place := .afterValue }

def State.close? (isList : Bool) : Option State :=
  match state.frames with
  | .list done :: rest =>
      if isList then
        some ({ state with frames := rest }.give (.list done.reverse))
      else none
  | .record done _ :: rest =>
      if isList then none
      else
        some ({ state with frames := rest }.give (.record done.reverse))
  | [] => none

def State.enter (frame : Frame) (place : Place) : State :=
  { state with frames := frame :: state.frames, place := place }

/- Name the field whose value follows. -/
def State.name? (key : String) : Option State :=
  match state.frames with
  | .record done _ :: rest =>
      some { state with
        frames := .record done key :: rest, place := .colon }
  | _ => none

def State.step? (token : Token) : Option State :=
  match state.place, token with
  | .value, .value data => some (state.give data)
  | .firstItem, .value data => some (state.give data)
  | .value, .openList => some (state.enter (.list []) .firstItem)
  | .firstItem, .openList =>
      some (state.enter (.list []) .firstItem)
  | .value, .openRecord =>
      some (state.enter (.record [] "") .firstKey)
  | .firstItem, .openRecord =>
      some (state.enter (.record [] "") .firstKey)
  | .firstItem, .closeList => state.close? true
  | .firstKey, .closeRecord => state.close? false
  | .firstKey, .value (.text key) => state.name? key
  | .key, .value (.text key) => state.name? key
  | .colon, .colon => some { state with place := .value }
  | .afterValue, .closeList => state.close? true
  | .afterValue, .closeRecord => state.close? false
  | .afterValue, .comma =>
      match state.frames with
      | .list _ :: _ => some { state with place := .value }
      | .record _ _ :: _ => some { state with place := .key }
      | [] => none
  | _, _ => none
def read? (s : String) : Option Data := do
  let tokens ← tokens? s.toList
  let state ← tokens.foldlM State.step? {}
  if state.frames.isEmpty && state.place = .afterValue then
    return state.result
  else none

-- Writing

def quotedChar (c : Char) : List Char :=
  if c = '"' then ['\\', '"']
  else if c = '\\' then ['\\', '\\']
  else if c = '\n' then ['\\', 'n']
  else if c.toNat < 32 then
    '\\' :: 'u' :: Text.hexDigits 4 c.toNat
  else [c]

def quote (s : String) : String := "\"" ++ String.ofList (s.toList.flatMap quotedChar) ++ "\""

/- A real number; those without digits have names. -/
def writeReal (x : Float) : String :=
  if x.isNaN then "NaN"
  else if x.isInf then (if x < 0 then "-Infinity" else "Infinity")
  else Value.writtenReal x

mutual

def write : Data → String
| .null => "null"
| .bool b => if b then "true" else "false"
| .int n => toString n
| .real x => writeReal x
| .text s => quote s
| .bytes b => quote (Text.quotedBytes b)
| .list items =>
    "[" ++ Text.joinWith ", " (writeItems items) ++ "]"
| .record fields =>
    "\x7b" ++ Text.joinWith ", " (writeFields fields) ++ "\x7d"

def writeItems : List Data → List String
| [] => []
| item :: rest => write item :: writeItems rest

def writeFields : List (String × Data) → List String
| [] => []
| (key, data) :: rest =>
    (quote key ++ ": " ++ write data) :: writeFields rest

end

end Json

end CHeader
