import CHeader.Macro.Token
import CHeader.Source.Session

/-
  Macro expansion of lines.

  The tokens of a line are looked at from left to right. A name that stands for a text is replaced
  by the tokens of the text; a function-like macro is replaced together with the argument list after
  it. After a pass that replaced anything the tokens are grouped again and looked at once more. A
  call that is not finished on its line takes in the following lines.

  A closing parenthesis from outside can take the paint off the tokens before it, so that a line may
  expand for ever. How many passes may be nested depends on the stack of the machine, so the bound
  is an argument.

  Key definitions include:
    * `Macro.Expander`
    * `Macro.expandCall`
    * `Macro.scanTokens`
-/

namespace CHeader

namespace Macro

open Source (Run getTable nextLine linesLeft lift)

def quote (s : String) : String :=
  "\"" ++ String.ofList (s.toList.flatMap (fun c =>
      if c = '\\' ∨ c = '"' then ['\\', c] else [c])) ++
    "\""

-- Calls

/- The expansion of tokens of a line, of which an argument list may be open. -/
abbrev Expander := String → List Token → Bool → Run (List Token)

variable (expander : Expander)

def expandWith (line : String) : Run String := do
  let (list, opened) := tokens (← getTable) [] line
  return spell (← expander line list opened)

/-
  The arguments of a call by place name. Every argument has a place for itself as written; the
  expanded arguments follow. A list of variable arguments takes all arguments beyond the named ones.
-/
def bindArguments (params : List String) (written expanded : List String) :
    List (String × String) :=
  let names := params.map ("__" ++ ·) ++ params
  let values :=
    if params.contains "..." then
      let named := params.length - 1
      let all := written ++ expanded
      all.take named ++ [Text.joinWith "," ((all.take expanded.length).drop named)] ++
        expanded.take named ++
        [Text.joinWith "," (expanded.drop named)]
    else written ++ expanded
  names.zip values

def expandArguments (body : Body) (written params : List String) : Run (List String) :=
  (written.zip params).mapM (fun (argument, param) =>
      if body.texts.contains (place param) then
        expandWith expander argument
      else pure "")

/-
  The tokens that replace a call. The names with which the
  argument list is painted afterwards also paint its kin.
-/
def expandCall (name : String) (token : Token) :
    Run (List Token × List String) := do
  let inside := Text.inner 1 token.text
  let painted := addName name token.painted
  if name = quoteName then
    let text := quote (Text.trim inside)
    let list ← lift (fillPieces (← getTable) none painted [.text text])
    return (list, [name])
  else if name = joinName then
    let list ← lift (fillPieces (← getTable) none token.painted [.text inside])
    return (list, [])
  else
    let table ← getTable
    let body ← lift (table.body! name)
    let params := (← lift (table.params! name)).toList
    let (written, _) := splitArguments inside
    let expanded ←
      expandArguments expander body written params
    let table ← getTable
    let arguments := some (bindArguments params written expanded)
    let list ← lift (fillPieces table arguments painted body.toPieces)
    if params.contains "..." then
      let rest := (argument arguments "...").map (fun text => (tokens table [] text).1)
      return (← lift (spliceRest rest list), [name])
    else return (list, [name])

-- Further lines

/- Join lines to a text until no argument list is open; the number bounds the lines. -/
def joinUntilClosed : Nat → String → Run String
| 0, _ => throw .endOfLines
| count + 1, line => do
    let joined := Text.trimEnd line ++ (← nextLine)
    if (strands (← getTable) joined).2 then
      joinUntilClosed count joined
    else return joined

/- The next line that is not white space only; the number bounds the lines. -/
def nextSolidLine : Nat → Run String
| 0 => throw .endOfLines
| count + 1 => do
    let line ← nextLine
    if Text.isSpaceText line then nextSolidLine count
    else return line

-- One pass

/-
  The state of a pass: the text of the line, the number of tokens seen, the tokens so far with the
  last one first, whether anything was replaced, and the name of a function-like macro whose
  argument list may follow. The name is empty if the macro must not be expanded.
-/
structure Pass where
  line : String
  seen : Nat := 0
  done : List Token := []
  replaced : Bool := false
  awaiting : Option String := none
  deriving Inhabited

namespace Pass

def push (state : Pass) (token : Token) : Pass := { state with done := token :: state.done }

/- Drop the tokens from the last one that spells a name. -/
def dropName (state : Pass) (name : String) : Except Fault Pass :=
  match state.done.dropWhile (·.strand ≠ .text name) with
  | _ :: rest => .ok { state with done := rest }
  | [] => .error .outOfRange

/- Paint the tokens so far that are kin. -/
def paint (state : Pass) (kin : Nat) (names : List String) : Pass :=
  { state with done := paintKinAll kin names state.done }

end Pass

inductive PassResult where
  | finished (tokens : List Token)
  | scanned (state : Pass)

variable (ahead : String → Run String)

/-
  The line break after the name of a function-like macro. If the next line begins with a parenthesis
  it is joined to this one; otherwise it is processed by itself and its text follows the tokens so
  far.
-/
def lookAhead (state : Pass) :
    Run (List Token) := do
  let line ← nextSolidLine ((← linesLeft) + 1)
  match (Text.trim line).toList with
  | [] => throw .outOfRange
  | '(' :: _ =>
      let joined := Text.trimEnd state.line ++ " " ++ line
      let (list, opened) := tokens (← getTable) [] joined
      expander joined list opened
  | _ =>
      let text ← ahead line
      return state.done.reverse ++ [{ strand := .text text, text := text, live := false }]

/-
  Whether an argument list may still follow after a token that is none. White space leaves the name
  alone, another function-like macro takes its place, and anything else ends the wait.
-/
def awaitAfter (table : Table) (awaiting : String) (s : String) : Option String :=
  if s.toList.all (fun c => c = ' ' ∨ c = '\t') then
    some awaiting
  else if table.isFunction s then some s
  else none

/- The tokens of a joined line after those already seen, which are kin of the token before them. -/
def kinTokens (table : Table) (line : String) (seen : Nat) (token : Token) : List Token :=
  ((strands table line).1.drop (seen + 1)).map (fun strand =>
      { Token.ofStrand token.painted strand with
        kin := token.kin })

/-
  Look at the tokens of a line from left to right. If an argument list is open, the first
  function-like macro is handed over to be joined with further lines.
-/
def scanWith (expander : Expander) (ahead : String → Run String)
    (join : Option (Pass → Token → String → Run PassResult)) (state : Pass) (list : List Token) :
    Run PassResult :=
  match list with
  | [] => pure (.scanned state)
  | token :: rest => do
      let table ← getTable
      let next := { state with seen := state.seen + 1 }
      if !token.live then
        scanWith expander ahead join (next.push token) rest
      else
        match state.awaiting, token.strand with
        | some awaiting, .text s =>
            if s = "\n" then
              return .finished (← lookAhead expander ahead state)
            else
              scanWith expander ahead join { next.push token with
                  awaiting := awaitAfter table awaiting s }
                rest
        | some "", .call _ _ =>
            scanWith expander ahead join { next.push token.close with awaiting := none } rest
        | some name, .call _ _ =>
            let (replacement, names) ←
              expandCall expander name token
            let next ← lift ((next.paint token.kin names).dropName name)
            scanWith expander ahead join { next with
                done := replacement.reverse ++ next.done,
                replaced := true,
                awaiting := none }
              (paintKinAll token.kin names rest)
        | none, .call _ _ =>
            scanWith expander ahead join (next.push token) rest
        | none, .text s =>
            match table.find? s with
            | none =>
                scanWith expander ahead join (next.push token.close) rest
            | some meaning =>
                if token.painted.contains s then
                  scanWith expander ahead join { next.push token.close with
                      awaiting :=
                        if meaning = .function then some ""
                        else none }
                    rest
                else
                  match meaning with
                  | .record => throw .wrongKind
                  | .text body =>
                      let painted := addName s token.painted
                      let (replacement, _) := tokens table painted body
                      let next := next.paint token.kin [s]
                      scanWith expander ahead join { next with
                          done := replacement.reverse ++ next.done,
                          replaced := true }
                        (paintKin token.kin s rest)
                  | .function =>
                      match join with
                      | some join => join state token s
                      | none =>
                          scanWith expander ahead none { next.push token with
                              awaiting := some s }
                            rest
termination_by list.length
decreasing_by
  all_goals
    simp only [List.length_cons, length_paintKinAll, length_paintKin]
    omega

/- Take in further lines for the name of a function-like macro. No argument list is open after them. -/
def joinLines (state : Pass) (token : Token)
    (s : String) :
    Run PassResult := do
  let next := { state with seen := state.seen + 1 }
  let line ← joinUntilClosed ((← linesLeft) + 1) state.line
  let kin :=
    if token.kin = 0 then freshKin state.done
    else token.kin
  let token := { token with kin := kin }
  scanWith expander ahead none { next.push token with line := line, awaiting := some s }
    (kinTokens (← getTable) line state.seen token)

/- Look at the tokens of a line. The flag tells whether an argument list is open. -/
def scanTokens (opened : Bool) (state : Pass) (list : List Token) : Run PassResult :=
  scanWith expander ahead (if opened then some (joinLines expander ahead) else none) state list

theorem scanTokens_nil (opened : Bool) (state : Pass) :
    scanTokens expander ahead opened state [] = pure (.scanned state) := by
  rw [scanTokens, scanWith]

theorem scanTokens_cons (opened : Bool)
    (state : Pass) (token : Token) (rest : List Token) :
    scanTokens expander ahead opened state (token :: rest) = (do
      let table ← getTable
      let next := { state with seen := state.seen + 1 }
      if !token.live then
        scanTokens expander ahead opened (next.push token) rest
      else
        match state.awaiting, token.strand with
        | some awaiting, .text s =>
            if s = "\n" then
              return .finished (← lookAhead expander ahead state)
            else
              scanTokens expander ahead opened { next.push token with
                  awaiting := awaitAfter table awaiting s }
                rest
        | some "", .call _ _ =>
            scanTokens expander ahead opened { next.push token.close with awaiting := none } rest
        | some name, .call _ _ =>
            let (replacement, names) ←
              expandCall expander name token
            let next ← lift ((next.paint token.kin names).dropName name)
            scanTokens expander ahead opened { next with
                done := replacement.reverse ++ next.done,
                replaced := true,
                awaiting := none }
              (paintKinAll token.kin names rest)
        | none, .call _ _ =>
            scanTokens expander ahead opened (next.push token) rest
        | none, .text s =>
            match table.find? s with
            | none =>
                scanTokens expander ahead opened (next.push token.close) rest
            | some meaning =>
                if token.painted.contains s then
                  scanTokens expander ahead opened { next.push token.close with
                      awaiting :=
                        if meaning = .function then some ""
                        else none }
                    rest
                else
                  match meaning with
                  | .record => throw .wrongKind
                  | .text body =>
                      let painted := addName s token.painted
                      let (replacement, _) := tokens table painted body
                      let next := next.paint token.kin [s]
                      scanTokens expander ahead opened { next with
                          done := replacement.reverse ++ next.done,
                          replaced := true }
                        (paintKin token.kin s rest)
                  | .function =>
                      match opened with
                      | true => joinLines expander ahead state token s
                      | false =>
                          scanTokens expander ahead false { next.push token with
                              awaiting := some s }
                            rest) := by
  rw [scanTokens, scanWith]
  cases opened <;> rfl

/- Look at tokens once, and again after a replacement. -/
def expandOnce (line : String)
    (list : List Token) (opened : Bool) :
    Run (List Token) := do
  match ← scanTokens expander ahead opened { line := line } list with
  | .finished tokens => return tokens
  | .scanned state =>
      if state.replaced then
        let tokens := state.done.reverse
        let (grouped, opened) ←
          lift (regroup (← getTable) tokens)
        expander (spell tokens) grouped opened
      else return state.done.reverse

-- Nested passes

/- Expand tokens with a bound on the nested passes. -/
def expandTokens (ahead : String → Run String) : Nat → Expander
| 0 => fun _ _ _ => throw .tooDeep
| depth + 1 => expandOnce (expandTokens ahead depth) ahead

/- Expand a line with a bound on the nested passes. The second argument processes a line that was
  read while looking for an argument list. -/
def expandLine (limit : Nat) (ahead : String → Run String) (line : String) : Run String :=
  expandWith (expandTokens ahead limit) line

end Macro

end CHeader
