import CHeader.Interface.Names
import CHeader.Value.Kind

/-
  Interfaces as plain data.

  Types, functions and libraries are written as tables that tell how to make them again; all other
  values stand for themselves. A type that bears a name of the interface is written as a reference
  to the name. A record is written with its members, but not inside a record of its own name: there
  a pointer to it is written as nothing, and a member whose type goes by the name of a record around
  it as an empty list.

  Key definitions include:
    * `Saving`
    * `Saving.reference?`
    * `Saving.typeName`
-/

namespace CHeader

/- The types that are known, the names of the interface, and what they stand for. -/
structure Saving where
  types : TypeTable
  names : List String
  item : String → Except Fault Value

namespace Saving

-- References

def tagged (kind : String) (entries : List (String × Value)) : Value :=
  .table ((some "type", .text kind) :: entries.map (fun (name, value) => (some name, value)))

variable (saving : Saving)

/- A type or object as a reference to the name that it was
  declared with, with the pointers that are on top. -/
def reference? (value : Value) (name : String) : Except Fault (Option Value) := do
  let (above, type) ← saving.types.pointed value
  match type with
  | none => return none
  | some (.array _ _) => return none
  | some _ =>
      if !saving.names.contains name then return none
      let (own, _) ← saving.types.pointed (← saving.item name)
      return some (tagged "ref" [("name", .text name), ("pointers", .int ((above : Int) - own))])

-- Records that are not open

/- The number of records whose names are not open. -/
def unopened (opened : List String) : Nat :=
  saving.types.records.countP (fun record => !opened.contains record.name)

theorem unopened_cons_lt {saving : Saving} {opened : List String} {record : Record}
    (hMem : record ∈ saving.types.records) (hNew : ¬ opened.contains record.name = true) :
    saving.unopened (record.name :: opened) < saving.unopened opened := by
  unfold unopened
  generalize saving.types.records = records at hMem
  induction records with
  | nil => cases hMem
  | cons first rest ih =>
    have hLe : rest.countP (fun r =>
        !(record.name :: opened).contains r.name) ≤
          rest.countP (fun r => !opened.contains r.name) := by
      apply List.countP_mono_left
      intro r _ h
      simp at h ⊢
      exact h.2
    rw [List.countP_cons, List.countP_cons]
    rcases List.mem_cons.1 hMem with hEq | hIn
    · subst hEq
      have hFirst : (!(record.name :: opened).contains record.name) =
          false := by
        simp
      simp only [hFirst, Bool.false_eq_true, if_false, Nat.add_zero]
      have hOpen : (!opened.contains record.name) = true := by
        simpa using hNew
      simp only [hOpen, if_true]
      omega
    · have hRest := ih hIn
      have hHead : (if (!(record.name :: opened).contains first.name) = true then 1 else 0) ≤
          (if (!opened.contains first.name) = true then 1
            else 0) := by
        by_cases h : first.name = record.name
        · simp [h]
        · simp [h]
      omega

-- Types

def kindWord : RecordKind → String
| .struct => "struct"
| .union => "union"

def recordData (record : Record) (fields : Value) (descriptions : List String) : Value :=
  tagged (kindWord record.kind) [("fields", fields), ("name", .text record.name),
     ("typeDescs", .list (descriptions.map .text))]

def functionData (kind : String) (params : List Value) (result : Value) (convention : String)
    (descriptions : List String) : Value :=
  tagged kind [("argTypes", .list params), ("restype", result), ("convention", .text convention),
     ("typeDescs", .list (descriptions.map .text))]

def memberData (member : Member) (type : Value) : Value :=
  .tuple ([.text member.name, type] ++ (member.bits.map (fun bits => Value.int bits)).toList)

def nameData : Option String → Value
| some name => .text name
| none => .none

def isMadeOf (number : Nat) : CType → Bool
| .pointer target => target == .record number
| .array item _ => item == .record number
| _ => false

/- The name that a type goes by. A type made of another one goes by a name made of the other's. -/
def typeName (saving : Saving) : CType → String
| .scalar kind => kind.shownName
| .pointer target => "LP_" ++ saving.typeName target
| .blankPointer => "LP_"
| .array item count =>
    saving.typeName item ++ "_Array_" ++ toString count
| .function _ _ => "CFunctionType"
| .record number => (saving.types.record number).name
| .ellipsis => "EllipsisType"

def isOpened (opened : List String) (type : CType) : Bool :=
  opened.contains (saving.typeName type)

/- A type as data. A name is given for what the type is written in, and the records that are open. -/
def typeData (saving : Saving) (opened : List String) (name : Option String) (type : CType) :
    Except Fault Value :=
  match type with
  | .function result params => do
      let params ← params.attach.mapM (fun ⟨param, _⟩ => do
        match ← saving.reference? (.type param) "" with
        | some reference => return reference
        | none => saving.typeData opened name param)
      let result ←
        match result with
        | none => pure .none
        | some type => do
            match ← saving.reference? (.type type) "" with
            | some reference => pure reference
            | none => saving.typeData opened name type
      return functionData "funcpointertype" params result commonConvention
        (List.replicate (params.length + 1) "")
  | .record number =>
      match _hRecord : saving.types.records[number]? with
      | none => .error .missingPart
      | some record =>
          if _hOpen : opened.contains record.name = true then
            .ok (recordData record (.list []) [])
          else
            match record.members with
            | none => .ok (recordData record .none [])
            | some members =>
                match record.descriptions with
                | none => .error .missingPart
                | some descriptions => do
                    let fields ←
                      (members.zip descriptions).mapM (fun (member, description) => do
                      match ← saving.reference? (.type member.type) description with
                      | some reference =>
                          return memberData member reference
                      | none =>
                          if saving.isOpened (record.name :: opened) member.type
                          then
                            return memberData member (.list [])
                          else if isMadeOf number member.type then
                            return memberData member .none
                          else
                            let data ← saving.typeData (record.name :: opened)
                              (some member.name) member.type
                            return memberData member data)
                    return recordData record (.list fields) descriptions
  | .array item count => do
      let data ← saving.typeData opened name item
      return tagged "array" [("class", data), ("length", .int count)]
  | .pointer target => do
      let data ← saving.typeData opened name target
      return tagged "pointer" [("class", data), ("name", nameData name)]
  | .blankPointer => .error .missingPart
  | .scalar kind => .ok (.type (.scalar kind))
  | .ellipsis => .ok (.type .ellipsis)
termination_by (saving.unopened opened, sizeOf type)
decreasing_by
  · exact Prod.Lex.right _ (by
      have := List.sizeOf_lt_of_mem ‹_ ∈ _›
      simp; omega)
  · exact Prod.Lex.right _ (by simp; omega)
  · exact Prod.Lex.left _ _ (unopened_cons_lt (List.mem_of_getElem? _hRecord) _hOpen)
  · exact Prod.Lex.right _ (by simp; omega)
  · exact Prod.Lex.right _ (by simp)

-- Values

/- A type of a function as data: a reference by what it was declared with, or else in full. -/
def describedData (name : Option String) (type : CType) (description : String) :
    Except Fault Value := do
  match ← saving.reference? (.type type) description with
  | some reference => return reference
  | none => saving.typeData [] name type

def itemData (saving : Saving) (name : Option String) : Value → Except Fault Value
| .library path =>
    .ok (tagged "CDLL" [("lib", .text path)])
| .tuple items => do
    let items ← items.attach.mapM (fun ⟨item, _⟩ => saving.itemData name item)
    return .tuple items
| .function f => do
    let params ← (f.params.zip f.descriptions.tail).mapM (fun (param, description) =>
        saving.describedData name param description)
    let result ←
      match f.result, f.descriptions with
      | _, [] => throw .outOfRange
      | none, _ => pure .none
      | some type, description :: _ =>
          saving.describedData name type description
    return functionData "func" params result f.convention f.descriptions
| .type t => saving.typeData [] name t
| .object o =>
    match o.type with
    | .function _ _ =>
        .error (.described "ValueError" "Unexpected error encountered")
    | _ => .ok (.object o)
| value => .ok value

/- What a name stands for, as data: the items of tables and lists each, and other values as a whole. -/
def entryData (name : String) : Value → Except Fault Value
| .table entries => do
    let entries ← entries.mapM (fun (key, value) => do
      return (key, ← saving.itemData key value))
    return .table entries
| .list items => do
    return .list (← items.mapM (saving.itemData none))
| value => saving.itemData (some name) value

end Saving

-- Interfaces

namespace Work

def saving : Work Saving := do
  let work ← get
  return {
    types := work.heap.types,
    names := work.iface.keys,
    item := fun name =>
      (Id.run (StateT.run (ExceptT.run (item name)) work)).1 }

def interfaceData : Work Value := do
  let saving ← saving
  let entries ← lift (saving.names.mapM (fun name => do
    let value ← saving.item name
    return (some name, ← saving.entryData name value)))
  return .table entries

end Work

end CHeader
