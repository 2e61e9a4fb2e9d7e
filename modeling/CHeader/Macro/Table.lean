import CHeader.Fault
import CHeader.Text.Trim

/-
  Macro tables.

  A table maps names to meanings in the order in which the names were first given; giving a name a
  new meaning keeps its place. Parameter lists and bodies of function-like macros are kept beside
  the names and outlive them, so a name that is given again as a function finds them.

  Names that begin with `__CPP` are reserved. Some of them stand for records of a run and have no
  text.
-/

namespace CHeader

namespace Macro

-- Bodies of function-like macros

/-
  A piece of a body: plain text, where a text of the form `${x}` stands for the expanded argument of
  parameter `x` and `${__x}` for the argument as written, or the operands of the joining or quoting
  operator named by the piece before.
-/
inductive Piece where
  | text (s : String)
  | operands (parts : List String)
  deriving DecidableEq, Repr, Inhabited

/- The parameters of a function-like macro: names from a
  definition, or the one parameter of a built-in macro. -/
inductive Params where
  | names (list : List String)
  | single (name : String)
  deriving DecidableEq, Repr, Inhabited

namespace Params

def toList : Params → List String
| names list => list
| single name => name.toList.map String.singleton

end Params

/- The body of a function-like macro: pieces from a
  definition, or the plain text of a built-in macro. -/
inductive Body where
  | pieces (list : List Piece)
  | plain (s : String)
  deriving DecidableEq, Repr, Inhabited

namespace Body

def toPieces : Body → List Piece
| pieces list => list
| plain s => [.text s]

def texts : Body → List String
| pieces list =>
    list.flatMap (fun piece =>
        match piece with
        | .text s => [s]
        | .operands parts => parts)
| plain s => s.toList.map String.singleton

end Body

-- Ordered maps

def lookup {α : Type} : List (String × α) → String → Option α
| [], _ => none
| (key, value) :: rest, name =>
    if key = name then some value else lookup rest name

/- Put a value under a key, at the place of the key or at the end if it is new. -/
def assign {α : Type} (name : String) (value : α) : List (String × α) → List (String × α)
| [] => [(name, value)]
| (key, old) :: rest =>
    if key = name then (name, value) :: rest
    else (key, old) :: assign name value rest

def remove {α : Type} (name : String) (map : List (String × α)) : List (String × α) :=
  map.filter (fun entry => entry.1 ≠ name)

-- Tables

/- What a name means: a text, a function whose parameters and body are kept beside the names, or a
  record of the run. -/
inductive Meaning where
  | text (s : String)
  | function
  | record
  deriving DecidableEq, Repr, Inhabited

structure Table where
  names : List (String × Meaning) := []
  params : List (String × Params) := []
  bodies : List (String × Body) := []
  deriving DecidableEq, Repr, Inhabited

def bodiesName : String := "__CPP_expansion__"

def paramsName : String := "__CPP_arguments__"

def quoteName : String := "__CPP_STRINGIFY__"

def joinName : String := "__CPP_MERGE__"

namespace Table

variable (table : Table)

variable (name : String)

def find? : Option Meaning := lookup table.names name

def contains : Bool := (table.find? name).isSome

def isFunction : Bool := table.find? name = some .function

def set (meaning : Meaning) : Table :=
  { table with names := assign name meaning table.names }

def setText (name text : String) : Table :=
  table.set name (.text text)

/- Take a name out; its parameters and body stay. -/
def erase : Table := { table with names := remove name table.names }

def openRecords : Table :=
  if table.contains paramsName then table
  else
    { (table.set bodiesName .record).set paramsName .record with params := [], bodies := [] }

def setParams (params : Params) : Table :=
  { table with params := assign name params table.params }

def setBody (body : Body) : Table :=
  { table with bodies := assign name body table.bodies }

/- A record of the run is there and is one. -/
def checkRecord (record : String) : Except Fault Unit :=
  match table.find? record with
  | some .record => .ok ()
  | some _ => .error .wrongKind
  | none => .error .missingName

/- What a record keeps of a name. -/
def recorded {α : Type} (table : Table) (record : String) (map : List (String × α))
    (name : String) : Except Fault α := do
  table.checkRecord record
  match lookup map name with
  | some value => .ok value
  | none => .error .missingName

def params! : String → Except Fault Params := table.recorded paramsName table.params

def body! : String → Except Fault Body := table.recorded bodiesName table.bodies

/- Whether a name is left out when a table is shown. -/
def isHidden : Bool := Text.hasStart name "__CPP_"

end Table

end Macro

end CHeader
