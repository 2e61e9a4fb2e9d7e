import CHeader.Text.CharClass

/-
  Trimming, cutting and searching of texts.

  All operations work on character lists, with wrappers on
  strings for the callers that hold strings.
-/

namespace CHeader

namespace Text

-- Ends of a text

def dropEnd (drop : Char → Bool) (cs : List Char) : List Char := (cs.reverse.dropWhile drop).reverse

def dropEnds (drop : Char → Bool) (cs : List Char) : List Char := dropEnd drop (cs.dropWhile drop)

def trim (s : String) : String := String.ofList (dropEnds isSpace s.toList)

def trimEnd (s : String) : String := String.ofList (dropEnd isSpace s.toList)

/- Drop the given number of characters from the start and one from the end. -/
def inner (drop : Nat) (s : String) : String := String.ofList (s.toList.drop drop).dropLast

-- Cutting

/- The fields between the occurrences of a separator. There
  is always one field more than separators. -/
def splitOnChar (sep : Char) : List Char → List (List Char)
| [] => [[]]
| c :: rest =>
    if c = sep then [] :: splitOnChar sep rest
    else
      match splitOnChar sep rest with
      | [] => [[c]]
      | field :: fields => (c :: field) :: fields

def fields (sep : Char) (s : String) : List String := (splitOnChar sep s.toList).map String.ofList

def startsWith : List Char → List Char → Bool
| _, [] => true
| [], _ :: _ => false
| c :: cs, p :: ps => c = p && startsWith cs ps

def findSub? (sub : List Char) : List Char → Option Nat
| [] => if sub.isEmpty then some 0 else none
| c :: cs =>
    if startsWith (c :: cs) sub then some 0
    else (findSub? sub cs).map (· + 1)

def countChar (c : Char) (s : String) : Nat := s.toList.count c

def hasStart (s : String) (start : String) : Bool := startsWith s.toList start.toList

def joinWith (sep : String) (parts : List String) : String :=
  match parts with
  | [] => ""
  | first :: rest =>
      rest.foldl (fun text part => text ++ sep ++ part) first

def concat (parts : List String) : String := parts.foldl (· ++ ·) ""

/- Replace every run of white space by one blank. -/
def collapseSpaces : List Char → List Char
| [] => []
| [c] => if isSpace c then [' '] else [c]
| c :: d :: rest =>
    if isSpace c then
      if isSpace d then collapseSpaces (d :: rest)
      else ' ' :: collapseSpaces (d :: rest)
    else c :: collapseSpaces (d :: rest)

-- Lines

def endsLine (c : Char) : Bool :=
  (10 ≤ c.toNat && c.toNat ≤ 13) || (28 ≤ c.toNat && c.toNat ≤ 30) ||
    c.toNat = 0x85 || c.toNat = 0x2028 || c.toNat = 0x2029

/-
  Cut a text after every line end. A carriage return and a line feed after it are one line end. The
  last line may lack an end; no line is empty.
-/
def cutLines (line : List Char) : List Char → List (List Char)
| [] => if line.isEmpty then [] else [line.reverse]
| '\r' :: '\n' :: rest =>
    ('\n' :: '\r' :: line).reverse :: cutLines [] rest
| c :: rest =>
    if endsLine c then
      (c :: line).reverse :: cutLines [] rest
    else cutLines (c :: line) rest

/- The lines of a text, each with its line end. -/
def splitLines (cs : List Char) : List String := (cutLines [] cs).map String.ofList

end Text

end CHeader
