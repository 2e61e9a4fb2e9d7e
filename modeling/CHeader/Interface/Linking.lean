import CHeader.Interface.Basic
import CHeader.Source.Glob

/-
  Finding and loading libraries.

  A library is loaded by a path; a name without a slash is not looked for. A short name stands for
  the file that is installed under it. In directories of its own a library is looked for under its
  name and under its name after `lib`, with numbers of versions at the end.
-/

namespace CHeader

namespace Work

-- Files

/- Load a library file, if the path leads to one. A file that is loaded already is shared. -/
def loadFile? (path : String) : Work Bool := do
  let work ← get
  if !path.toList.contains '/' then return false
  let place := Source.Path.absolute work.world.workingDir path
  match Macro.lookup work.linker.images place with
  | none => return false
  | some image =>
      if work.loaded.any (fun l => l.name = path) then
        return true
      match work.loaded.find? (fun l => l.file = place) with
      | some loaded =>
          set { work with
              loaded := work.loaded ++ [{ loaded with name := path }] }
          return true
      | none =>
          let (memory, loaded) := image.load work.heap.memory path place
          set { work with
              loaded := work.loaded ++ [loaded],
              heap := { work.heap with memory := memory } }
          return true

/- Load a library file, and fail if the path leads to none; the library goes by its path. -/
def loadFile (path : String) : Work String := do
  if ← loadFile? path then return path
  else throw .cannotOpen

variable (name : String)

/- The file of a library: that which is installed under a short name, or the name itself. -/
def installedFile : Work String := do
  return (Macro.lookup (← get).linker.installed name).getD name

def loadNamed : Work String := do
  loadFile (← installedFile name)

-- Directories

def fileNames : List String :=
  let version := ".[0-9]*"
  [name ++ ".so", name ++ ".so" ++ version, name ++ ".so" ++ version ++ version ++ "lib" ++ name ++
     ".so",
   "lib" ++ name ++ ".so" ++ version, "lib" ++ name ++ ".so" ++ version ++ version]

def loadFirst : List String → Work (Option String)
| [] => return none
| path :: rest => do
    if ← loadFile? path then return some path
    else loadFirst rest

/- Find a library in directories and load it; if there is none, try the names by themselves. -/
def findLibrary (directories : List String) : Work (Option String) := do
  let world := (← get).world
  let found := directories.findSome? (fun dir =>
      (fileNames name).findSome? (fun file =>
        (world.glob (Source.Path.join dir file)).getLast?))
  match found with
  | some path => some <$> loadFile path
  | none => loadFirst (fileNames name)

def linkLibrary (directories : List String) : Work String := do
  let found ←
    if directories.isEmpty then pure none
    else findLibrary name directories
  match found with
  | some path => return path
  | none => loadNamed name

end Work

end CHeader
