import CHeader.Macro.Define
import CHeader.Macro.Strand

/-
  Tokens: strands with the macros they came from.

  A token that came out of a macro is painted with its name, and a painted name is not expanded
  again. Tokens that were read from further lines of one call are kin: what paints one of them
  paints all.

  Key definitions include:
    * `Macro.Token`
    * `Macro.tokens`
    * `Macro.Arguments`
-/

namespace CHeader

namespace Macro

-- Tokens

/- A token: its strand, how it is written, whether it is still to be looked at, the names it is
  painted with, and its kin, which is zero if it has none. -/
structure Token where
  strand : Strand
  text : String
  live : Bool := true
  painted : List String := []
  kin : Nat := 0
  deriving DecidableEq, Repr, Inhabited

namespace Token

def ofStrand (painted : List String) (strand : Strand) : Token :=
  { strand := strand, text := strand.spelling,
    painted := painted }

def close (token : Token) : Token := { token with live := false }

end Token

def addName (name : String) (names : List String) : List String :=
  if names.contains name then names else names ++ [name]

def addNames (more names : List String) : List String :=
  more.foldl (fun names name => addName name names) names

def paintKin (kin : Nat) (name : String) (tokens : List Token) : List Token :=
  if kin = 0 then tokens
  else
    tokens.map (fun token =>
        if token.kin = kin then
          { token with painted := addName name token.painted }
        else token)

theorem length_paintKin (kin : Nat) (name : String) (tokens : List Token) :
    (paintKin kin name tokens).length = tokens.length := by
  unfold paintKin
  split <;> simp

def paintKinAll (kin : Nat) : List String → List Token → List Token
| [], tokens => tokens
| name :: names, tokens =>
    paintKinAll kin names (paintKin kin name tokens)

theorem length_paintKinAll (kin : Nat) (names : List String) (tokens : List Token) :
    (paintKinAll kin names tokens).length = tokens.length := by
  induction names generalizing tokens with
  | nil => rfl
  | cons name names ih =>
      unfold paintKinAll
      rw [ih, length_paintKin]

def freshKin (tokens : List Token) : Nat :=
  tokens.foldl (fun kin token => max kin (token.kin + 1)) 1

def spell (tokens : List Token) : String := Text.concat (tokens.map Token.text)

variable (table : Table)

/- The tokens of a text, painted alike, and whether an argument list is still open at its end. -/
def tokens (painted : List String) (s : String) : List Token × Bool :=
  let (list, opened) := strands table s
  (list.map (Token.ofStrand painted), opened)

-- Bodies filled with arguments

/- The arguments of a call by place name; a later one hides an earlier one of the same name. There
  may be none at all where a body has no places. -/
abbrev Arguments := Option (List (String × String))

variable (arguments : Arguments)

def argument (name : String) : Except Fault String :=
  match arguments with
  | none => .error .wrongKind
  | some list =>
      match lookup list.reverse name with
      | some text => .ok text
      | none => .error .missingName

def hasArgument (name : String) : Except Fault Bool :=
  match arguments with
  | none => .error .wrongKind
  | some list => .ok (list.any (fun entry => entry.1 = name))

/-
  The macros that an expanded argument names. They count as used by the tokens from here on if the
  expansion changed the argument.
-/
def usedByPlace (s : String) :
    Except Fault (List String) := do
  let name := placeName s
  if ← hasArgument arguments ("__" ++ name) then
    let expanded ← argument arguments name
    let written ← argument arguments ("__" ++ name)
    if expanded ≠ written then
      return namesIn table expanded
    else return []
  else return []

/- An operand of the joining or quoting operator. -/
def fillOperand (s : String) : Except Fault String := do
  if isPlace s ∧ s.toList.getLast? = some '\x7d' then
    if ← hasArgument arguments (placeName s) then
      argument arguments (placeName s)
    else return s
  else return s

def fillPiece (painted : List String) :
    Piece → Except Fault (List Token)
| .operands parts => do
    let filled ← parts.mapM (fillOperand arguments)
    return [Token.ofStrand painted (.call filled none)]
| .text s =>
    if isPlace s ∧ 3 < s.length then do
      let text ← argument arguments (placeName s)
      return (strands table text).1.map (Token.ofStrand painted)
    else .ok [Token.ofStrand painted (.text s)]

/-
  The tokens of a body filled with arguments. The names used by an argument paint its own tokens and
  those of all later pieces.
-/
def fillPieces (table : Table) (arguments : Arguments) (painted : List String) :
    List Piece → Except Fault (List Token)
| [] => .ok []
| piece :: rest => do
    let used ←
      match piece with
      | .text s =>
          if isPlace s then usedByPlace table arguments s
          else pure []
      | .operands _ => pure []
    let painted := addNames used painted
    let here ← fillPiece table arguments painted piece
    let more ← fillPieces table arguments painted rest
    return here ++ more

-- Variable arguments

def restWord : String := "__VA_ARGS__"

/-
  Put the variable arguments in the place of their word. The token after an empty list is passed
  over. A list that itself holds the word past its first token never ends.
-/
def spliceRest (list : Except Fault (List Token)) : List Token → Except Fault (List Token)
| [] => .ok []
| [token] =>
    if token.text = restWord then do
      let tokens ← list
      if (tokens.drop 1).any (·.text = restWord) then
        throw .tooDeep
      return tokens
    else .ok [token]
| token :: next :: rest =>
    if token.text = restWord then do
      let tokens ← list
      if tokens.isEmpty then
        return next :: (← spliceRest list rest)
      else if (tokens.drop 1).any (·.text = restWord) then
        throw .tooDeep
      else
        return tokens ++ (← spliceRest list (next :: rest))
    else return token :: (← spliceRest list (next :: rest))

-- Grouping after a replacement

/-
  The state while tokens are grouped again: the tokens so far, last one first; the tokens of an open
  parenthesis, with the name before it; the number of open parentheses; and whether the last group
  left one open.
-/
structure Grouping where
  done : List Token := []
  held : List Token := []
  depth : Int := 0
  opened : Bool := false
  deriving DecidableEq, Inhabited

namespace Grouping

def depthChange (strand : Strand) : Int := strand.countOf '(' - strand.countOf ')'

/-
  Take a token into the grouping. After a macro name an open parenthesis is held until it closes;
  then the whole text is read again and painted like the token that closes it.
-/
def step (table : Table) (state : Grouping) (token : Token) : Except Fault Grouping :=
  let change := depthChange token.strand
  if state.depth ≠ 0 then
    if token.strand.mentions ')' then
      if state.depth + change ≤ 0 then
        match token.strand with
        | .call _ _ => .error .wrongKind
        | .text s =>
            let (list, opened) := tokens table token.painted (spell state.held ++ s)
            .ok
              { done := (list.drop 1).reverse ++ state.done,
                opened := opened }
      else
        .ok { state with
          held := state.held ++ [token],
          depth := state.depth + change }
    else if token.strand.mentions '(' then
      .ok { state with
        held := state.held ++ [token],
        depth := state.depth + change }
    else .ok { state with held := state.held ++ [token] }
  else if token.strand.mentions '(' then
    match state.done with
    | last :: _ =>
        if table.contains last.text then
          .ok { state with
            held := state.held ++ [last, token],
            depth := change }
        else .ok { state with done := token :: state.done }
    | [] => .ok { state with done := [token] }
  else .ok { state with done := token :: state.done }

end Grouping

/-
  Group tokens again after a macro was replaced, so that argument lists that came together are
  single strands. The answer says with its second part whether one is still open. Tokens of a
  parenthesis that never closes are lost.
-/
def regroup (list : List Token) : Except Fault (List Token × Bool) := do
  let state ← list.foldlM (Grouping.step table) {}
  return (state.done.reverse, state.opened)

end Macro

end CHeader
