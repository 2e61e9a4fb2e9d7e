import CHeader.Source.Session

/-
  File names by pattern.

  In a pattern `*` stands for any characters, `?` for one, and a set in brackets for one of its
  characters, or for one that is not if the set begins with `!`. A name that begins with a dot is
  only found by a pattern that does.
-/

namespace CHeader

namespace Source

namespace Glob

-- Patterns

inductive Part where
  | any
  | one
  | char (c : Char)
  | set (negated : Bool) (members : List Char)
  deriving DecidableEq, Repr

/- Whether a text is a pattern and not a plain name. -/
def isPattern (s : String) : Bool := s.toList.any (fun c => c = '*' || c = '?' || c = '[')

/- Whether a set has a character; a range is written with a dash. -/
def inSet (c : Char) : List Char → Bool
| low :: '-' :: high :: rest =>
    (low ≤ c && c ≤ high) || inSet c rest
| x :: rest => x = c || inSet c rest
| [] => false

/- The characters of a set, which has at least one, and how
  many characters it takes up to its closing bracket. -/
def setLength? (cs : List Char) : Option Nat :=
  match cs with
  | [] => none
  | _ :: rest =>
      let more := rest.takeWhile (· ≠ ']')
      if more.length < rest.length then some (more.length + 1)
      else none

/- The parts of a pattern, with the number of characters to pass over first. -/
def partsFrom : Nat → List Char → List Part
| _, [] => []
| skip + 1, _ :: rest => partsFrom skip rest
| 0, c :: rest =>
    if c = '*' then .any :: partsFrom 0 rest
    else if c = '?' then .one :: partsFrom 0 rest
    else if c = '[' then
      let negated := rest.head? = some '!'
      let start := if negated then 1 else 0
      match setLength? (rest.drop start) with
      | some n =>
          .set negated ((rest.drop start).take n) :: partsFrom (start + n + 1) rest
      | none => .char c :: partsFrom 0 rest
    else .char c :: partsFrom 0 rest

def fitsParts : List Part → List Char → Bool
| [], cs => cs.isEmpty
| .any :: rest, cs =>
    (List.range (cs.length + 1)).any (fun n => fitsParts rest (cs.drop n))
| .one :: rest, _ :: cs => fitsParts rest cs
| .char x :: rest, c :: cs => x = c && fitsParts rest cs
| .set negated members :: rest, c :: cs =>
    (inSet c members != negated) && fitsParts rest cs
| _ :: _, [] => false

def fits (pattern name : String) : Bool :=
  (!Text.hasStart name "." || Text.hasStart pattern ".") &&
    fitsParts (partsFrom 0 pattern.toList) name.toList

end Glob

-- Files

namespace World

def names (world : World) (dir : String) : List String :=
  let place := Path.reduce [] (Path.parts (Path.join world.workingDir dir))
  let below (parts : List String) : Option String :=
    if place.isPrefixOf parts then parts[place.length]?
    else none
  ((world.tree.files.map Prod.fst ++ world.tree.directories).filterMap below).eraseDups

/- The paths that fit a pattern in the last part. -/
def glob (world : World) (path : String) : List String :=
  if !Glob.isPattern path then
    if (world.node? path).isSome then [path] else []
  else
    let dir := Path.directory path
    let names := (world.names dir).filter (Glob.fits (Path.fileName path))
    names.map (fun name =>
      if dir = "" then name else Path.join dir name)

end World

end Source

end CHeader
