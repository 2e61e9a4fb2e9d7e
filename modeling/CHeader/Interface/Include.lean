import CHeader.Interface.Build
import CHeader.Interface.Linking
import CHeader.Source.Installed
import CHeader.Source.MacroValues

/-
  From a header file to an interface.

  The header is preprocessed with the sizes of types defined as macros and with the bundled headers
  at the end of the search path, unless the path has the mark `^`. The text is read by a parser that
  is given. What it declares is added to the interface, and then the values of its macros under all
  names that are still free.
-/

namespace CHeader

namespace Work

-- Macros

/- The sizes of types in bits, as macros. -/
def sizeMacros : List (String × String) :=
  [("__CPP_CHAR_SIGNED", "1"), ("__CPP_CHAR_BITS", "8"), ("__CPP_SHORT_BITS", "16"),
   ("__CPP_INT_BITS", "32"), ("__CPP_LONG_BITS", "64"), ("__CPP_LONGLONG_BITS", "64"),
   ("__CPP_SIZE_BITS", "64"), ("__CPP_PTRDIFF_BITS", "64"), ("__CPP_INTPTR_BITS", "64"),
   ("__CPP_WCHAR_BITS", "32"), ("__CPP_ATOMIC_BITS", "32"), ("__CPP_CLOCK_BITS", "32"),
   ("__CPP_TIME_BITS", "64"), ("__CPP_WCTRANS_BITS", "32"), ("__CPP_WCTYPE_BITS", "32"),
   ("__CPP_WINT_BITS", "32")]

def removingMacros : List String := ["__asm__(x) ", "__asm(x) "]

/- The search path with the bundled headers, unless it has the mark that leaves them out. -/
def withBundled (bundled : String) (path : List String) : List String :=
  if path.contains "^" then path.erase "^"
  else path ++ [bundled]

-- Steps of the preprocessor

/- Do a step of the preprocessor on a session and take over what it adds to the log. -/
def onSession {α : Type} (session : Source.Session) (step : Source.Run α) :
    Work (α × Source.Session) := do
  let (result, after) := Id.run (StateT.run (ExceptT.run step) { session with log := [] })
  modify (fun work =>
    { work with log := work.log ++ after.log })
  match result with
  | .ok value => return (value, after)
  | .error fault => throw fault

variable (limit : Nat) (session : Source.Session)

def preprocessed (name : String) (path : List String)
    (encoding : Option String) :
    Work (String × Source.Session) := do
  let table := sizeMacros.foldl (fun table (name, text) => table.setText name text) session.table
  let (pieces, after) ←
    onSession { session with table := table } (do
      removingMacros.forM Source.defineMacro
      Source.preprocess limit name (withBundled session.world.bundledDir path) encoding)
  return (Text.concat pieces, after)

/- Remove the macros that hide words of the language. -/
def removeReserved : Work Source.Session := do
  let hidden := ["struct", "union", "enum"].filter session.table.contains
  hidden.forM (fun name =>
    report .warning ("File defines invalid macro: " ++ name))
  let table := hidden.foldl (fun table name => table.erase name) session.table
  return { session with table := table }

def addMacros (values : List (String × Expr.Operand)) : Work Unit :=
  values.forM (fun (name, value) => do
    if !(← hasItem name) then
      setItem name (Value.ofOperand value))

-- Headers

variable (parse : Declaration.Parser)

def interpret (name : String) (path : List String)
    (encoding : Option String) (libraries : List String) :
    Work Unit := do
  let (text, session) ←
    preprocessed limit session name path encoding
  let session ← removeReserved session
  let items ← lift (parse text)
  modifyIface (fun _ => { libraries := libraries })
  items.forM addItem
  let (values, _) ← onSession session (Source.macroValues limit)
  addMacros values

/- The library that every interface is bound to last. -/
def commonLibrary : String := "c"

def includeHeader (name : String) (libraries : List String)
    (path : List String) (link : List String) (encoding : Option String) :
    Work Unit := do
  let loaded ←
    (libraries ++ [commonLibrary]).mapM (fun library => linkLibrary library link)
  interpret limit session parse name (if path.isEmpty then ["."] else path) encoding loaded

end Work

end CHeader
