import CHeader.Fault
import CHeader.Text.Trim

/-
  Lexemes of C declarations.

  A lexeme takes one character and a number of further ones that is found first; the scan then drops
  these, so it ends. A text that has no lexeme at some place yields a fault there as its last
  lexeme, and the lexemes before it stand.

  Key definitions include:
    * `Declaration.Lexeme`
    * `Declaration.scan`
-/

namespace CHeader

namespace Declaration

/- The parts of a text that declarations are made of. -/
inductive Lexeme where
  /- An identifier or a keyword. -/
  | name (text : String)
  | integer (text : String)
  | real (text : String)
  | character (text : String)
  | string (text : String)
  /- An operator or a delimiter. -/
  | mark (text : String)
  /- The sign of a directive that is left in the text. -/
  | hash
  /- The text has no lexeme here. -/
  | fault (cause : Fault)
  deriving DecidableEq, Repr, Inhabited

-- Characters

variable (c : Char)

def beginsName : Bool := c.isAlpha || c = '_' || c = '$'

def insideName : Bool := beginsName c || c.isDigit

def isHex : Bool := c.isDigit || ('a' ≤ c && c ≤ 'f') || ('A' ≤ c && c ≤ 'F')

def isOctal : Bool := '0' ≤ c && c ≤ '7'

def countWhile (p : Char → Bool) (cs : List Char) : Nat := (cs.takeWhile p).length

-- Numbers

/- The length of an exponent with one of two letters. -/
def exponentLength? (low high : Char) : List Char → Option Nat
| c :: rest =>
    if c = low || c = high then
      let sign :=
        match rest with
        | '+' :: _ => 1
        | '-' :: _ => 1
        | _ => 0
      let digits := countWhile Char.isDigit (rest.drop sign)
      if digits = 0 then none else some (1 + sign + digits)
    else none
| [] => none

def realMarkLength : List Char → Nat
| c :: _ => if "FfLl".toList.contains c then 1 else 0
| [] => 0

variable (cs : List Char)

def realLength? : Option Nat :=
  let whole := countWhile Char.isDigit cs
  let body :=
    match cs.drop whole with
    | '.' :: rest =>
        let digits := countWhile Char.isDigit rest
        if whole = 0 && digits = 0 then none
        else
          let size := whole + 1 + digits
          some (size + (exponentLength? 'e' 'E' (cs.drop size)).getD 0)
    | rest =>
        if whole = 0 then none
        else (exponentLength? 'e' 'E' rest).map (whole + ·)
  body.map (fun n => n + realMarkLength (cs.drop n))

def beginsHex : List Char → Bool
| '0' :: c :: _ => c = 'x' || c = 'X'
| _ => false

def hexRealLength? : Option Nat :=
  if !beginsHex cs then none
  else
    let whole := countWhile isHex (cs.drop 2)
    let close (size : Nat) : Option Nat := (exponentLength? 'p' 'P' (cs.drop size)).map (fun e =>
        size + e + realMarkLength (cs.drop (size + e)))
    match cs.drop (2 + whole) with
    | '.' :: rest =>
        let digits := countWhile isHex rest
        if whole = 0 && digits = 0 then none
        else close (2 + whole + 1 + digits)
    | _ => if whole = 0 then none else close (2 + whole)

/- The endings that size an integer, longest first. -/
def integerMarks : List String :=
  ["ull", "Ull", "uLL", "ULL", "llu", "llU", "LLu", "LLU",
   "ll", "LL", "ul", "uL", "Ul", "UL", "lu", "lU", "Lu", "LU", "l", "L", "u", "U"]

def integerMarkLength : Nat :=
  match integerMarks.find? (fun mark => Text.startsWith cs mark.toList) with
  | some mark => mark.length
  | none => 0

/- The length of the integer that a text begins with, or none if its octal digits are faulty. -/
def integerLength? : Option Nat :=
  let marked (size : Nat) : Nat := size + integerMarkLength (cs.drop size)
  let hex := countWhile isHex (cs.drop 2)
  match cs with
  | '0' :: rest =>
      if beginsHex cs && hex ≠ 0 then some (marked (2 + hex))
      else
        let digits := countWhile isOctal rest
        match rest.drop digits with
        | '8' :: _ => none
        | '9' :: _ => none
        | _ => some (marked (1 + digits))
  | _ => some (marked (countWhile Char.isDigit cs))

-- Quoted text

/- Whether a character can follow a backslash. -/
def escapes : Bool :=
  c.isAlpha || (Text.decimalValue? c).isSome || "._~!=&^-\\?'\"".toList.contains c

/- The length of a text up to and with the closing double quote. -/
def stringLength? : List Char → Option Nat
| '"' :: _ => some 1
| '\\' :: c :: rest =>
    if escapes c then (stringLength? rest).map (2 + ·)
    else none
| c :: rest =>
    if c = '\n' || c = '\\' then none
    else (stringLength? rest).map (1 + ·)
| [] => none

/- The length of a character up to and with the closing single quote. -/
def characterLength? : List Char → Option Nat
| '\\' :: 'x' :: '\'' :: _ => some 3
| '\\' :: 'x' :: rest =>
    let digits := countWhile isHex rest
    match rest.drop digits with
    | '\'' :: _ => if digits = 0 then none else some (3 + digits)
    | _ => none
| '\\' :: c :: rest =>
    let digits := countWhile (fun d => (Text.decimalValue? d).isSome) (c :: rest)
    match (c :: rest).drop (max 1 digits) with
    | '\'' :: _ =>
        if escapes c then some (2 + max 1 digits) else none
    | _ => none
| c :: '\'' :: _ =>
    if c = '\'' || c = '\n' || c = '\\' then none else some 2
| _ => none

-- Directives

def isLineDirective : Bool :=
  let text := cs.dropWhile (fun c => c = ' ' || c = '\t')
  (match text with
    | c :: _ => (Text.decimalValue? c).isSome
    | [] => false) ||
  (Text.startsWith text "line".toList && (match text.drop 4 with
      | c :: _ => !Text.isWord c
      | [] => false))

def isPragma : Bool :=
  let text := cs.dropWhile (fun c => c = ' ' || c = '\t')
  Text.startsWith text "pragma".toList && (match text.drop 6 with
      | c :: _ => !Text.isWord c
      | [] => false)

/- The length of a decimal number with its ending. -/
def lineNumberLength : Nat :=
  let size :=
    match cs with
    | '0' :: _ => 1
    | _ => countWhile Char.isDigit cs
  if size = 0 then 0
  else size + integerMarkLength (cs.drop size)

/- What is wrong with the rest of a line that numbers lines, given the number read so far, the
  characters still to pass over, and whether the line is ended. -/
def lineDirectiveFault? (ended : Bool) : Nat → Option (List Char) → List Char → Option Fault
| _, number, [] =>
    if !ended then none
    else
      match number with
      | none => some .syntaxError
      | some digits =>
          if digits.all Char.isDigit then none
          else some .badValue
| skip + 1, number, _ :: rest =>
    lineDirectiveFault? ended skip number rest
| 0, number, c :: rest =>
    let size := lineNumberLength (c :: rest)
    if c = ' ' || c = '\t' then
      lineDirectiveFault? ended 0 number rest
    else if size ≠ 0 then
      lineDirectiveFault? ended (size - 1) (some (number.getD ((c :: rest).take size))) rest
    else if c = '"' then
      match stringLength? rest, number with
      | some n, some _ =>
          lineDirectiveFault? ended n number rest
      | _, _ => some .syntaxError
    else if Text.startsWith (c :: rest) "line".toList then
      lineDirectiveFault? ended 3 number rest
    else some .syntaxError

/- The characters a compiler directive passes over. -/
def pragmaMarks : List Char := " \t<>.-\x7b\x7d();=+-*/$%@&^~!?:,".toList

/- What is wrong with the rest of a compiler directive. -/
def pragmaFault? : Nat → List Char → Option Fault
| _, [] => none
| skip + 1, _ :: rest => pragmaFault? skip rest
| 0, c :: rest =>
    if insideName c || pragmaMarks.contains c then
      pragmaFault? 0 rest
    else if c = '"' then
      match stringLength? rest with
      | some n => pragmaFault? n rest
      | none => some .syntaxError
    else some .syntaxError

/- A directive after its sign: what it leaves in the text, and how many characters it takes. -/
def scanDirective : Option Lexeme × Nat :=
  let line := cs.takeWhile (· ≠ '\n')
  let ended := line.length < cs.length
  let size := line.length + (if ended then 1 else 0)
  if isLineDirective cs then
    ((lineDirectiveFault? ended 0 none line).map .fault, size)
  else if isPragma cs then
    ((pragmaFault? 0 line).map .fault, size)
  else (some .hash, 0)

-- Scan

/- Operators and delimiters, longer ones first. -/
def marks : List String :=
  ["...", "<<=", ">>=", "++", "--", "->", "&&", "||", "<<",
   ">>", "<=", ">=", "==", "!=", "+=", "-=", "*=", "/=",
   "%=", "&=", "|=", "^=", "+", "-", "*", "/", "%", "|",
   "&", "~", "^", "!", "<", ">", "=", "?", "(", ")", "[", "]", "\x7b", "\x7d", ",", ".", ";", ":"]

def lexemeOf (make : String → Lexeme) (cs : List Char) : Option Nat → Option Lexeme × Nat
| some n => (some (make (String.ofList (cs.take n))), n - 1)
| none => (some (.fault .syntaxError), 0)

def lexemeAfter (make : String → Lexeme) (start : Nat) (cs : List Char) (size : Option Nat) :
    Option Lexeme × Nat :=
  lexemeOf make cs (size.map (start + ·))

def scanNumber : Option Lexeme × Nat :=
  match realLength? cs with
  | some n => lexemeOf .real cs (some n)
  | none =>
      match hexRealLength? cs with
      | some n => lexemeOf .real cs (some n)
      | none => lexemeOf .integer cs (integerLength? cs)

/- The lexeme at a character, if it is not a blank, and the
  number of further characters that are taken. -/
def scanAt (rest : List Char) : Option Lexeme × Nat :=
  let cs := c :: rest
  if c = ' ' || c = '\t' || c = '\n' then (none, 0)
  else if c = '#' then scanDirective rest
  else if c.isDigit || (realLength? cs).isSome then
    scanNumber cs
  else if c = '\'' then
    lexemeAfter .character 1 cs (characterLength? rest)
  else if c = '"' then
    lexemeAfter .string 1 cs (stringLength? rest)
  else if c = 'L' && rest.head? = some '\'' then
    lexemeAfter .character 2 cs (characterLength? (rest.drop 1))
  else if c = 'L' && rest.head? = some '"' && (stringLength? (rest.drop 1)).isSome then
    lexemeAfter .string 2 cs (stringLength? (rest.drop 1))
  else if beginsName c then
    lexemeOf .name cs (some (1 + countWhile insideName rest))
  else
    lexemeOf .mark cs ((marks.find? (fun mark => Text.startsWith cs mark.toList)).map String.length)

def scan : List Char → List Lexeme
| [] => []
| c :: rest =>
    let (lexeme, more) := scanAt c rest
    match lexeme with
    | some (.fault cause) => [.fault cause]
    | some lexeme => lexeme :: scan (rest.drop more)
    | none => scan (rest.drop more)
termination_by cs => cs.length
decreasing_by
  all_goals simp only [List.length_drop, List.length_cons]
  all_goals omega

end Declaration

end CHeader
