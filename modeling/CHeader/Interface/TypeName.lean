import CHeader.Interface.Names

/-
  Types by their names.

  The words of the language come first, then structures, unions, other names of the interface and
  enumerations. A name that stands for no type gives an empty text.
-/

namespace CHeader

-- Words of the language

def builtinTypes : List (String × Value) :=
  let scalar (kind : Scalar) : Value := .type (.scalar kind)
  [("char", scalar .char), ("signed char", scalar .signedChar),
   ("unsigned char", scalar .unsignedChar), ("short", scalar .short),
   ("signed short", scalar .short), ("unsigned short", scalar .unsignedShort), ("", scalar .int),
   ("signed", scalar .int), ("unsigned", scalar .unsignedInt), ("long", scalar .long),
   ("signed long", scalar .long), ("unsigned long", scalar .unsignedLong),
   ("long long", scalar .long), ("signed long long", scalar .long),
   ("unsigned long long", scalar .unsignedLong), ("float", scalar .float),
   ("double", scalar .double), ("void", .none), ("long double", scalar .longDouble),
   ("_Bool", scalar .bool)]

def builtinType? (words : String) : Option Value := Macro.lookup builtinTypes words

/- The words of a type in the order in which it is looked
  up: the sign, the words `long`, and the others. -/
def orderedWords (sign : String) (longs : Nat) (others : List String) : String :=
  Text.joinWith " " ((if sign = "" then [] else [sign]) ++ List.replicate longs "long" ++
      others.filter (fun word =>
        !(["signed", "unsigned", "long", "int", "_Complex"].contains word)))

namespace Work

-- Look-up

/- The type that a name stands for. Names of the interface count if asked. -/
def typeNamed (names : Bool) (tag : Option String) : Work Value := do
  match tag.bind builtinType? with
  | some value => return value
  | none =>
      if !names then return .text ""
      match (← structs).find? tag with
      | some value => return value
      | none =>
          match (← unions).find? tag with
          | some value => return value
          | none =>
              match tag with
              | none =>
                  return ((← enums).find? tag).getD (.text "")
              | some name =>
                  if ← hasItem name then item name
                  else
                    return ((← enums).find? tag).getD (.text "")

/- A pointer to what a name stands for. Nothing is pointed to by a pointer to anything. -/
def pointerTo : Value → Except Fault Value
| .none => .ok (.type (.scalar .voidPointer))
| .type .ellipsis => .error .wrongKind
| .type type => .ok (.type (.pointer type))
| .text _ => .ok (.type .blankPointer)
| _ => .error .wrongKind

def pointerOrText : Value → Except Fault Value
| .type (.scalar .char) => .ok (.type (.scalar .charPointer))
| value => pointerTo value

def pointers (make : Value → Except Fault Value) : Nat → Value → Except Fault Value
| 0, value => .ok value
| count + 1, value => do pointers make count (← make value)

/- The number of places at which a text occurs, not counting overlaps. -/
def countText (part : List Char) : Nat → List Char → Nat
| _, [] => 0
| skip + 1, _ :: rest => countText part skip rest
| 0, c :: rest =>
    if Text.startsWith (c :: rest) part then
      1 + countText part (part.length - 1) rest
    else countText part 0 rest

def textWords (s : String) : List String :=
  (Text.fields ' ' (String.ofList (s.toList.map
      (fun c => if Text.isSpace c then ' ' else c)))).filter
    (· ≠ "")

def typeOfText (names : Bool) (s : String) : Work Value := do
  let has (word : String) : Bool := (Text.findSub? word.toList s.toList).isSome
  let sign :=
    if has "signed" then "signed"
    else if has "unsigned" then "unsigned"
    else ""
  let longs := countText "long".toList 0 s.toList
  let stars := Text.countChar '*' s
  let others := textWords (String.ofList (s.toList.filter (· ≠ '*')))
  let base ←
    typeNamed names (some (orderedWords sign longs others))
  lift (pointers pointerOrText stars base)

end Work

end CHeader
