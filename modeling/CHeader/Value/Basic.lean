import CHeader.CType.Layout
import CHeader.Memory.Basic

/-
  Values that an interface holds or hands on.

  An object is a typed place in memory. A bound function knows the library and symbol it stands for,
  its type as declared, and the types its arguments are turned into at the moment. Tables are kept
  in the order of entry; a definition without a tag stands under no name.
-/

namespace CHeader

-- Values

/- A typed place in memory. -/
structure Object where
  type : CType
  address : Nat
  deriving Inhabited, Repr

structure Function where
  library : String
  symbol : String
  result : Option CType
  params : List CType
  convention : String
  descriptions : List String
  /- The parameters before an open end, if there is one. -/
  fixedParams : Option (List CType)
  /- The types that arguments are turned into. -/
  accepted : List CType
  deriving Inhabited, Repr

/- The values an interface deals with. -/
inductive Value where
  | none
  | bool (value : Bool)
  | int (value : Int)
  | real (value : Float)
  | text (value : String)
  | bytes (value : List UInt8)
  | list (items : List Value)
  | tuple (items : List Value)
  | table (entries : List (Option String × Value))
  | type (type : CType)
  | library (path : String)
  | function (function : Function)
  | object (object : Object)
  deriving Inhabited

namespace Value

def type? : Value → Option CType
| .type t => some t
| _ => Option.none

def text? : Value → Option String
| .text s => some s
| _ => Option.none

def find? : List (Option String × Value) → String → Option Value
| entries, name =>
    (entries.find? (fun entry => entry.1 = some name)).map Prod.snd

def entry? (value : Value) (name : String) : Option Value :=
  match value with
  | .table entries => find? entries name
  | _ => Option.none

/- The value of an absent type is nothing. -/
def ofResult : Option CType → Value
| some t => .type t
| Option.none => .none

end Value

-- Heaps

/- Memory together with the types of what lies in it. -/
structure Heap where
  memory : Memory := {}
  types : TypeTable := {}
  deriving Inhabited

/- Steps that work on a heap and may fail; what they did before they failed stays. -/
abbrev OnHeap := ExceptT Fault (StateM Heap)

namespace OnHeap

def extentOf (type : CType) : OnHeap Extent := do
  return (← get).types.extent type

def read (address count : Nat) : OnHeap (List UInt8) := do
  return (← get).memory.read address count

def write (address : Nat) (bytes : List UInt8) : OnHeap Unit :=
  modify (fun heap =>
    { heap with memory := heap.memory.write address bytes })

def allocate (count : Nat) : OnHeap Nat := do
  let heap ← get
  let (memory, address) := heap.memory.allocate count
  set { heap with memory := memory }
  return address

def store (bytes : List UInt8) : OnHeap Nat := do
  let address ← allocate bytes.length
  write address bytes
  return address

def fix (type : CType) : OnHeap Unit :=
  modify (fun heap =>
    { heap with types := heap.types.fix type })

def arrayOf (item : CType) (count : Nat) : OnHeap CType := do
  let heap ← get
  let (types, type) := heap.types.makeArray item count
  set { heap with types := types }
  return type

end OnHeap

end CHeader
