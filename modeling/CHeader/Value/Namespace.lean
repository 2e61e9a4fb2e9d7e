import CHeader.Macro.Table
import CHeader.Value.Written

/-
  Collections of names.

  A name can be asked for as an entry or as a part. Only the names that were entered are there,
  apart from one that stands for the collection itself.
-/

namespace CHeader

-- Names and values

structure Namespace where
  entries : List (String × Value) := []
  deriving Inhabited

namespace Namespace

def kind : String := "Namespace"

/- The name of the collection among its parts. -/
def selfName : String := "__dict__"

variable (names : Namespace)

def toTable : Value :=
  .table (names.entries.map (fun (name, value) => (some name, value)))

variable (name : String)

def entry : Except Fault Value :=
  match Macro.lookup names.entries name with
  | some value => .ok value
  | none => .error .missingName

def part : Except Fault Value :=
  match Macro.lookup names.entries name with
  | some value => .ok value
  | none =>
      if name = selfName then .ok names.toTable
      else .error (.missingAttribute kind name)

def enter (value : Value) : Namespace :=
  { entries := Macro.assign name value names.entries }

/- Give a name a value inside a table among the values. -/
def enterInside (name key : String) (value : Value) :
    Except Fault Namespace := do
  match ← names.entry name with
  | .table entries =>
      let others := entries.filter (fun entry => entry.1 ≠ some key)
      let isNew := others.length = entries.length
      let entries :=
        if isNew then entries ++ [(some key, value)]
        else
          entries.map (fun entry =>
            if entry.1 = some key then (some key, value)
            else entry)
      return names.enter name (.table entries)
  | _ => throw .wrongKind

def erase : Except Fault Namespace := do
  let _ ← names.entry name
  return { entries := Macro.remove name names.entries }

def written : String := kind ++ "(" ++ names.toTable.written ++ ")"

end Namespace

end CHeader
