import CHeader.Source.Path

/-
  Which places of a profile belong to the measured project.

  A place is told by the path of its file. Names that are no paths, the bench module itself, the
  tools that measure it and whatever was installed or built are left out.
-/

namespace CHeader

namespace Bench

-- Project files

/- Directories whose files are not the project's own. -/
def foreignDirectories : List String := ["vendor", "build", "site-packages"]

def toolStart : String := "_pti_"

def isUnnamed (name : String) : Bool := Text.hasStart name "<" || Text.hasStart name "~"

/- Whether a path leads to a file of the project in a
  directory, which is also the one that paths start from. -/
def isProjectFile (dir benchModule path : String) : Bool :=
  let full := Source.Path.absolute dir path
  let dir := Source.Path.absolute dir ""
  let below := Source.Path.parts (String.ofList (full.toList.drop (dir.length + 1)))
  !isUnnamed path && Text.hasStart full (dir ++ "/") &&
    full ≠ Source.Path.absolute dir benchModule &&
    !Text.hasStart (Source.Path.fileName full) toolStart &&
    !below.any foreignDirectories.contains

end Bench

end CHeader
