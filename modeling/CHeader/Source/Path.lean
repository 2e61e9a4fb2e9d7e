import CHeader.Text.Trim

/-
  Paths and file trees.

  A path is a text with slashes between its parts. A tree holds files under absolute paths, given by
  their parts, and the directories above them; further directories may be listed.
-/

namespace CHeader

namespace Source

-- Paths

namespace Path

variable (path : String)

def isAbsolute : Bool := Text.hasStart path "/"

def join (dir path : String) : String :=
  if isAbsolute path then path
  else if dir.isEmpty || dir.toList.getLast? = some '/' then
    dir ++ path
  else dir ++ "/" ++ path

def parts : List String := Text.fields '/' path

/- Remove empty parts, `.` and, with the part before it,
  `..`; the kept parts are given last one first. -/
def reduce : List String → List String → List String
| kept, [] => kept.reverse
| kept, part :: rest =>
    if part = "" ∨ part = "." then reduce kept rest
    else if part = ".." then reduce (kept.drop 1) rest
    else reduce (part :: kept) rest

/- The shortest spelling of a path from the root. -/
def absolute (workingDir path : String) : String :=
  "/" ++ Text.joinWith "/" (reduce [] (parts (join workingDir path)))

def directory : String :=
  let kept := (parts path).dropLast
  let head := Text.joinWith "/" kept
  if kept.all (·.isEmpty) then
    if kept.isEmpty then "" else head ++ "/"
  else String.ofList (Text.dropEnd (· = '/') head.toList)

def fileName : String := ((parts path).getLast?).getD ""

end Path

-- Trees

structure FileTree where
  files : List (List String × List UInt8) := []
  directories : List (List String) := []
  deriving DecidableEq, Inhabited

inductive Node where
  | file (bytes : List UInt8)
  | directory
  deriving Inhabited

namespace FileTree

variable (tree : FileTree)

def at? (parts : List String) : Option Node :=
  match tree.files.find? (fun entry => entry.1 = parts) with
  | some (_, bytes) => some (.file bytes)
  | none =>
      let above := tree.files.any (fun entry => parts.isPrefixOf entry.1) || tree.directories.any
          (fun dir => parts.isPrefixOf dir)
      if above then some .directory else none

def hasDirectory (parts : List String) : Bool :=
  match tree.at? parts with
  | some .directory => true
  | _ => false

/-
  Walk along the parts of a path. Every place that is left again has to be a directory; the place is
  kept with its last part first.
-/
def walk (tree : FileTree) : List String → List String → Option (List String)
| place, [] => some place.reverse
| place, part :: rest =>
    if tree.hasDirectory place.reverse then
      if part = "" ∨ part = "." then walk tree place rest
      else if part = ".." then walk tree (place.drop 1) rest
      else walk tree (part :: place) rest
    else none

def node? (workingDir path : String) : Option Node :=
  if path.isEmpty then none
  else
    (tree.walk [] (Path.parts (Path.join workingDir path))).bind tree.at?

def write (workingDir path : String) (bytes : List UInt8) : FileTree :=
  let place := Path.reduce [] (Path.parts (Path.join workingDir path))
  { tree with
    files := tree.files.filter (fun entry => entry.1 ≠ place) ++ [(place, bytes)] }

end FileTree

end Source

end CHeader
