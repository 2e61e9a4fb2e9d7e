import CHeader.Interface.Arguments
import CHeader.Interface.Linking

/-
  Calls of functions in libraries.

  The converted arguments are put in registers: whole numbers and addresses in one row, real numbers
  in another. The result is read from the register that its type tells.
-/

namespace CHeader

namespace Registers

-- Registers

def addWhole (registers : Registers) (n : Nat) : Registers :=
  { registers with whole := registers.whole ++ [n] }

def addReal (registers : Registers) (bits : Nat) : Registers :=
  { registers with reals := registers.reals ++ [bits] }

end Registers

namespace Work

-- Passing arguments

/- Whether nothing can be passed for a parameter. -/
def takesNothing : CType → Bool
| .scalar kind => kind.isAddress
| .pointer _ | .blankPointer => true
| _ => false

def fitsParameter (type : CType) : Value → Bool
| .none => takesNothing type
| .object object => object.type == type
| _ => false

def register (registers : Registers) (object : Object) : Work Registers := do
  match object.type with
  | .scalar kind =>
      let n := Bytes.toNat (← onHeap (OnHeap.read object.address kind.size))
      if kind.isReal then return registers.addReal n
      else if kind.signed? = some true || kind = .char then
        return registers.addWhole (Bytes.reduce 64 (Bytes.signedOf (8 * kind.size) n))
      else return registers.addWhole n
  | .array _ _ => return registers.addWhole object.address
  | .record _ =>
      let size := (← onHeap (OnHeap.extentOf object.type)).size
      let bytes ← onHeap (OnHeap.read object.address size)
      return (List.range ((size + 7) / 8)).foldl (fun registers i =>
          registers.addWhole (Bytes.toNat ((bytes.drop (8 * i)).take 8)))
        registers
  | _ =>
      return registers.addWhole (← onHeap (OnHeap.target object))

/- Put arguments in registers. Those with parameters must
  fit them; of the others, only types are refused. -/
def pass : Registers → List Value → List CType → Work Registers
| registers, [], _ => return registers
| registers, arg :: args, types => do
    match types.head? with
    | some type =>
        if !fitsParameter type arg then throw .badArgument
    | none => pure ()
    let registers ←
      match arg with
      | .none => pure (registers.addWhole 0)
      | .object object => register registers object
      | _ => throw .badArgument
    pass registers args types.tail

-- Calls

def routineOf (library symbol : String) : Work (Option Routine) := do
  let work ← get
  let loaded := work.loaded.find? (fun l => l.name = library)
  return loaded.bind (fun l =>
    (Macro.lookup work.linker.images l.file).bind (·.routine? symbol))

def resultOf (type : Option CType) (outcome : Outcome) : Work Value := do
  match type with
  | none => return .none
  | some (.scalar kind) =>
      let bits :=
        if kind.isReal then outcome.real else outcome.whole
      onHeap (OnHeap.decodeScalar kind (Bytes.ofNat kind.size bits))
  | some (.pointer target) =>
      return .object (← onHeap (OnHeap.holding (.pointer target) outcome.whole))
  | some (.function result params) =>
      return .object (← onHeap (OnHeap.holding (.function result params) outcome.whole))
  | some type => return .object (← onHeap (OnHeap.blank type))

def callFunction (f : Function) (args : List Value) : Work Value := do
  if args.length < f.accepted.length then throw .wrongKind
  let registers ← pass {} args f.accepted
  match ← routineOf f.library f.symbol with
  | none => resultOf f.result {}
  | some routine =>
      let work ← get
      let (outcome, memory) := routine registers work.heap.memory
      set { work with
          heap := { work.heap with memory := memory } }
      resultOf f.result outcome

/- Call what a name stands for with the arguments of the workspace. A type makes an object. -/
def invoke (name : String) : Work Value := do
  match ← item name with
  | .function f =>
      let args ←
        if f.fixedParams.isSome then convertFormatted name
        else convertArguments name
      callFunction (← functionNamed name) args
  | .type t =>
      return .object (← onHeap (OnHeap.make t (← givenArguments)))
  | _ => throw .wrongKind

end Work

end CHeader
