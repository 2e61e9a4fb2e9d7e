import CHeader.Text.Trim

/-
  Recognition of directives.

  A directive line starts with a number sign between blanks. Its name counts only if a blank
  follows; without a name the line is an empty directive, provided a blank follows the number sign.
-/

namespace CHeader

namespace Source

-- Keywords

inductive Keyword where
  | includeFile
  | ifDefined
  | ifUndefined
  | ifTrue
  | define
  | undefine
  | error
  | warning
  | setLine
  | pragma
  | elseGroup
  | elseIf
  | endIf
  deriving DecidableEq, Repr

namespace Keyword

def spelling : Keyword → String
| includeFile => "include"
| ifDefined => "ifdef"
| ifUndefined => "ifndef"
| ifTrue => "if"
| define => "define"
| undefine => "undef"
| error => "error"
| warning => "warning"
| setLine => "line"
| pragma => "pragma"
| elseGroup => "else"
| elseIf => "elif"
| endIf => "endif"

def all : List Keyword :=
  [includeFile, ifDefined, ifUndefined, ifTrue, define,
    undefine, error, warning, setLine, pragma, elseGroup, elseIf, endIf]

def opensGroup : Keyword → Bool
| ifTrue | ifDefined | ifUndefined => true
| _ => false

end Keyword

-- Directives

/-
  A directive: its keyword if it has one, the text after the keyword, and the operand, which is that
  text without the blanks before it.
-/
structure Directive where
  keyword : Option Keyword
  afterKeyword : List Char
  operand : List Char
  deriving DecidableEq, Repr

def afterKeyword? (keyword : Keyword) (cs : List Char) : Option (List Char) :=
  if Text.startsWith cs keyword.spelling.toList then
    match cs.drop keyword.spelling.length with
    | c :: rest =>
        if Text.isBlank c then some (c :: rest) else none
    | [] => none
  else none

namespace Directive

def argument (directive : Directive) : String :=
  String.ofList (directive.operand.takeWhile (!Text.isSpace ·))

def operandText (directive : Directive) : String := String.ofList directive.operand

def ofChars? (cs : List Char) : Option Directive :=
  match cs.dropWhile Text.isBlank with
  | '#' :: rest =>
      let text := rest.dropWhile Text.isBlank
      let named := Keyword.all.findSome? (fun keyword =>
          (afterKeyword? keyword text).map (fun after =>
              (⟨some keyword, after, after.dropWhile Text.isBlank⟩ : Directive)))
      match named with
      | some directive => some directive
      | none =>
          if rest.length = text.length then none
          else some ⟨none, text, text⟩
  | _ => none

def ofLine? (line : String) : Option Directive := ofChars? line.toList

def operandOf (line : String) : String :=
  match ofLine? line with
  | some directive => directive.operandText
  | none => line

end Directive

-- Group marks in skipped text

/- What a line in skipped text does to the groups. -/
inductive GroupMark where
  | opens
  | closes
  deriving DecidableEq, Repr

def groupMark? (line : String) : Option GroupMark :=
  match Directive.ofLine? line with
  | some ⟨some .endIf, _, _⟩ => some .closes
  | some ⟨some keyword, _, _⟩ =>
      if keyword.opensGroup then some .opens else none
  | _ => none

end Source

end CHeader
