import CHeader.Text.Trim

/-
  Options and operands of command lines.

  An option is given by a letter or a word. Its value follows in the same argument or in the next
  one. A word may be cut short as long as no other one starts like it. All else is an operand, and
  all that comes after two dashes alone.
-/

namespace CHeader

namespace CommandLine

-- Options

/- An option with a value: its letter, its word if it has
  one, what it is for, and how its value is called. -/
structure Switch where
  letter : Char
  word : Option String := none
  purpose : String
  value : String
  deriving Inhabited, Repr

inductive Piece where
  | operand (text : String)
  | switch (letter : Char) (value : String)
  | help
  deriving DecidableEq, Inhabited, Repr

/- What an option is called for: a value, or help. -/
inductive Called where
  | switch (letter : Char)
  | help
  deriving DecidableEq, Inhabited, Repr

def helpWord : String := "help"

variable (known : List Switch)

def words : List (String × Called) :=
  (helpWord, .help) :: known.filterMap (fun s =>
      s.word.map (fun word => (word, .switch s.letter)))

def calledByWord? (word : String) : Option Called :=
  match (words known).find? (fun entry => entry.1 = word) with
  | some (_, called) => some called
  | none =>
      match (words known).filter (fun entry => Text.hasStart entry.1 word) with
      | [(_, called)] => some called
      | _ => none

def calledByLetter? (letter : Char) : Option Called :=
  if letter = 'h' then some .help
  else
    (known.find? (fun s => s.letter = letter)).map (fun s => .switch s.letter)

-- Arguments

inductive Start where
  | operand
  | ending
  | word (name : String) (value : Option String)
  | letter (letter : Char) (value : String)
  deriving Inhabited, Repr

/- A text before and after its first equals sign. -/
def splitValue (cs : List Char) : String × Option String :=
  let name := String.ofList (cs.takeWhile (· ≠ '='))
  match cs.dropWhile (· ≠ '=') with
  | _ :: value => (name, some (String.ofList value))
  | [] => (name, none)

def startOf (argument : String) : Start :=
  match argument.toList with
  | ['-', '-'] => .ending
  | '-' :: '-' :: rest =>
      let (name, value) := splitValue rest
      .word name value
  | '-' :: letter :: rest => .letter letter (String.ofList rest)
  | _ => .operand

def withPiece (piece : Piece) (rest : List Piece × Bool) : List Piece × Bool :=
  (piece :: rest.1, rest.2)

/- The pieces of a command line up to the first mistake, and whether there is none. -/
def pieces (known : List Switch) : List String → List Piece × Bool
| [] => ([], true)
| argument :: rest =>
    match startOf argument with
    | .ending => (rest.map .operand, true)
    | .operand =>
        withPiece (.operand argument) (pieces known rest)
    | .word name value =>
        match calledByWord? known name, value with
        | none, _ => ([], false)
        | some .help, none => ([.help], true)
        | some .help, some _ => ([], false)
        | some (.switch letter), some value =>
            withPiece (.switch letter value) (pieces known rest)
        | some (.switch letter), none =>
            match rest with
            | [] => ([], false)
            | value :: more =>
                withPiece (.switch letter value) (pieces known more)
    | .letter letter value =>
        match calledByLetter? known letter with
        | none => ([], false)
        | some .help => ([.help], true)
        | some (.switch letter) =>
            if value.isEmpty then
              match rest with
              | [] => ([], false)
              | value :: more =>
                  withPiece (.switch letter value) (pieces known more)
            else
              withPiece (.switch letter value) (pieces known rest)

-- Help

def purposeColumn : Nat := 24

def switchText (s : Switch) : String :=
  let short := "  -" ++ s.letter.toString ++ " " ++ s.value
  match s.word with
  | none => short
  | some word => short ++ ", --" ++ word ++ "=" ++ s.value

/- A line of the help, or two if the first is too long. -/
def helpLine (option purpose : String) : String :=
  let indent (n : Nat) := String.ofList (List.replicate n ' ')
  if option.length + 2 ≤ purposeColumn then
    option ++ indent (purposeColumn - option.length) ++ purpose ++ "\n"
  else
    option ++ "\n" ++ indent purposeColumn ++ purpose ++ "\n"

def helpText (program : String) (known : List Switch) : String :=
  "Usage: " ++ program ++ " [options]\n\nOptions:\n" ++
    helpLine "  -h, --help" "show this help message and exit" ++
    Text.concat (known.map (fun s => helpLine (switchText s) s.purpose))

end CommandLine

end CHeader
