/- Plain data: what can be read from a text and written to one without knowing what it means. -/

namespace CHeader

/- Plain data. The fields of a record keep their order. -/
inductive Data where
  | null
  | bool (value : Bool)
  | int (value : Int)
  | real (value : Float)
  | text (value : String)
  | bytes (value : List UInt8)
  | list (items : List Data)
  | record (fields : List (String × Data))
  deriving Inhabited

namespace Data

-- Parts

def nat (n : Nat) : Data := .int n

def texts (list : List String) : Data := .list (list.map .text)

def field? (data : Data) (name : String) : Option Data :=
  match data with
  | .record fields =>
      (fields.reverse.find? (fun field => field.1 = name)).map Prod.snd
  | _ => none

def has (data : Data) (name : String) : Bool := (data.field? name).isSome

def get (data : Data) (name : String) : Data := (data.field? name).getD .null

def items : Data → List Data
| .list items => items
| _ => []

def fields : Data → List (String × Data)
| .record fields => fields
| _ => []

def toText : Data → String
| .text s => s
| _ => ""

/- The whole number that data is, or zero. -/
def toInt : Data → Int
| .int n => n
| .bool b => b.toNat
| _ => 0

/- Whether data is a true value or a number other than zero. -/
def isSet : Data → Bool
| .bool b => b
| .int n => n ≠ 0
| _ => false

def isNull : Data → Bool
| .null => true
| _ => false

-- Order

/- Put an item before the first one with a larger key. -/
def insertBy {α : Type} (key : α → String) (item : α) : List α → List α
| [] => [item]
| first :: rest =>
    if key item < key first then item :: first :: rest
    else first :: insertBy key item rest

def sortedBy {α : Type} (key : α → String) (list : List α) : List α :=
  list.foldl (fun sorted item => insertBy key item sorted) []

end Data

end CHeader
