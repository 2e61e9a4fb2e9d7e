import CHeader.Source.Process

/-
  Values of macros.

  A function-like macro is worth its expansion at its own parameter names. Any other macro is worth
  the value of its expansion: that of an earlier macro of the same spelling, or the value of the
  constant expression, or the text if it is none.
-/

namespace CHeader

namespace Source

-- Values

variable (limit : Nat)

/- The value of a macro, given those of earlier ones. -/
def macroValue (values : List (String × Expr.Operand)) (name : String) (meaning : Macro.Meaning) :
    Run Expr.Operand := do
  match meaning with
  | .function =>
      let params ← lift ((← getTable).params! name)
      let text ←
        expandLine limit (name ++ "(" ++ Text.joinWith ", " params.toList ++ ")")
      return .text text
  | _ =>
      let text ← expandLine limit name
      match Macro.lookup values text with
      | some value => return value
      | none =>
          match Expr.valueOfText text with
          | .ok value => return value
          | .error _ => return .text text

/- The values of entries of a table, after earlier ones. -/
def macroValuesFrom (values : List (String × Expr.Operand)) : List (String × Macro.Meaning) →
    Run (List (String × Expr.Operand))
| [] => pure values
| (name, meaning) :: rest => do
    if Macro.Table.isHidden name then
      macroValuesFrom values rest
    else
      let value ← macroValue limit values name meaning
      macroValuesFrom (Macro.assign name value values) rest

def macroValues : Run (List (String × Expr.Operand)) := do
  macroValuesFrom limit [] (← getTable).names

end Source

end CHeader
