/-
  Memory: bytes at addresses.

  Memory that nothing was written to holds zeros. New blocks come after all earlier ones, and none
  begins at zero, so zero is the address of nothing.
-/

namespace CHeader

-- Memory

/- Bytes at addresses, and the first free address. -/
structure Memory where
  byte : Nat → UInt8 := fun _ => 0
  free : Nat := 4096

instance : Inhabited Memory := ⟨{}⟩

namespace Memory

variable (memory : Memory)

def read (address : Nat) (count : Nat) : List UInt8 :=
  (List.range count).map (fun i => memory.byte (address + i))

def write (address : Nat) (bytes : List UInt8) : Memory :=
  { memory with
    byte := fun a =>
      if address ≤ a then
        (bytes[a - address]?).getD (memory.byte a)
      else memory.byte a }

/- Take a new block that begins on a multiple of sixteen. -/
def allocate (count : Nat) : Memory × Nat :=
  let start := (memory.free + 15) / 16 * 16
  ({ memory with free := start + count + 1 }, start)

def store (bytes : List UInt8) : Memory × Nat :=
  let (memory, address) := memory.allocate bytes.length
  (memory.write address bytes, address)

/- The units of a text up to the first zero, as long as they lie in blocks that were taken. -/
def readTextFrom (memory : Memory) (unit : Nat) : Nat → Nat → List (List UInt8)
| 0, _ => []
| bound + 1, address =>
    let bytes := memory.read address unit
    if bytes.all (· = 0) then []
    else
      bytes :: readTextFrom memory unit bound (address + unit)

def readText (unit : Nat) (address : Nat) : List (List UInt8) :=
  readTextFrom memory unit (memory.free - address) address

-- Laws

theorem read_write (address : Nat) (bytes : List UInt8) :
    (memory.write address bytes).read address bytes.length = bytes := by
  apply List.ext_getElem
  · simp [read]
  · intro i _ h
    simp [read, write, h]

theorem byte_write_of_lt (bytes : List UInt8) (h : a < address) :
    (memory.write address bytes).byte a = memory.byte a := by
  simp [write, Nat.not_le.mpr h]

end Memory

end CHeader
