import CHeader.Value.Scalar

/-
  Library files and loaded libraries.

  A library file gives names to variables with their initial bytes and to routines. Loading it puts
  the variables in memory. A routine is called with whole numbers and real numbers in registers of
  64 bits; it may change memory and leaves a whole or a real result.
-/

namespace CHeader

-- Library files

structure Registers where
  whole : List Nat := []
  reals : List Nat := []
  deriving Inhabited, Repr

structure Outcome where
  whole : Nat := 0
  real : Nat := 0
  deriving Inhabited, Repr

abbrev Routine := Registers → Memory → Outcome × Memory

/- The initial bytes of a variable: given ones, the address
  of another variable, or the address of a text. -/
inductive Datum where
  | bytes (value : List UInt8)
  | addressOf (symbol : String)
  | textAddress (value : List UInt8)
  deriving Inhabited, Repr

/- A library file. A routine that is only there to be found does nothing. -/
structure Image where
  data : List (String × Datum) := []
  routines : List (String × Option Routine) := []
  deriving Inhabited

/- A library in memory: the name it was asked for by, the
  file it was read from, and the addresses of its symbols. -/
structure LoadedLibrary where
  name : String
  file : String
  symbols : List (String × Nat) := []
  deriving Inhabited

namespace LoadedLibrary

def address? (library : LoadedLibrary) (symbol : String) : Option Nat :=
  (library.symbols.find? (fun entry => entry.1 = symbol)).map Prod.snd

end LoadedLibrary

namespace Datum

def size : Datum → Nat
| .bytes value => value.length
| _ => 8

end Datum

namespace Image

def reserve (image : Image) (memory : Memory) : Memory × List (String × Nat) :=
  let sizes := image.data.map (fun entry => (entry.1, entry.2.size)) ++
      image.routines.map (fun entry => (entry.1, 16))
  sizes.foldl (fun (memory, symbols) (name, size) =>
      let (memory, address) := memory.allocate size
      (memory, symbols ++ [(name, address)]))
    (memory, [])

def fill (symbols : List (String × Nat)) (memory : Memory) (entry : String × Datum) : Memory :=
  let addressOf (name : String) : Nat := ((symbols.find? (fun symbol => symbol.1 = name)).map
      Prod.snd).getD 0
  let place := addressOf entry.1
  match entry.2 with
  | .bytes value => memory.write place value
  | .addressOf other =>
      memory.write place (Bytes.ofNat 8 (addressOf other))
  | .textAddress value =>
      let (memory, address) := memory.store (value ++ [0])
      memory.write place (Bytes.ofNat 8 address)

def load (image : Image) (memory : Memory) (name file : String) : Memory × LoadedLibrary :=
  let (memory, symbols) := image.reserve memory
  let memory := image.data.foldl (fill symbols) memory
  (memory, { name := name, file := file, symbols := symbols })

def routine? (image : Image) (symbol : String) : Option Routine :=
  (image.routines.find? (fun entry => entry.1 = symbol)).bind Prod.snd

end Image

end CHeader
