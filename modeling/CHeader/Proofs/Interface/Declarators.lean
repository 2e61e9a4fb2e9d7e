import CHeader.Proofs.Interface.Naming

/-
  What declarators mean.

  A declarator is read from the outside in, while the pointers that wait for what they point to are
  only counted. Its meaning is put together from the inside out, one part after the other. The two
  are the same however the parts are nested.

  Main declarations:
    * `Workspace.Readings`
    * `Workspace.meaning`
    * `Workspace.exec_typeOfDecl_meaning`
-/

namespace CHeader

open Declaration List Step Work

namespace Workspace

-- Meanings

/- What the bases mean that an interface knows, and the lengths of arrays that are constants. Here
  and below void is the type that is not there. -/
structure Readings where
  base : Base → Option (Option CType)
  length : Option Declaration.Expr → Option Nat

structure Readings.Hold (readings : Readings) (work : Workspace) : Prop where
  base : ∀ {base type}, readings.base base = some type → type ≠ some .ellipsis ∧
      exec (typeOfBase base) work = (.ok (.ofResult type), work)
  length : ∀ {size} {count : Nat}, readings.length size = some count →
      exec (sizeOfArray size) work = (.ok (count : Int), work)

/- A pointer to anything but a function. -/
def pointed : Option CType → Option CType
| none => some (.scalar .voidPointer)
| some (.scalar .char) => some (.scalar .charPointer)
| some type => some (.pointer type)

mutual

/- The meaning of a declarator over a base. The items of an array are complete and there is room for
  them; a function is only pointed to. -/
def meaning (readings : Readings) (table : TypeTable) (modifiers : List Modifier) (base : Base) :
    Option (Option CType) :=
  match modifiers with
  | [] => readings.base base
  | .pointer :: .function params :: rest => do
      let result ← meaning readings table rest base
      let types ← paramMeanings readings table params
      return some (.function result types)
  | .pointer :: rest => (meaning readings table rest base).map pointed
  | .array size :: rest => do
      let count ← readings.length size
      let item ← (meaning readings table rest base).join
      if table.isOpen item || count ≥ OnHeap.sizeLimit ||
          count * (table.extent item).size ≥ OnHeap.sizeLimit then none
      else return some (.array item count)
  | .function _ :: _ => none
termination_by sizeOf modifiers

def paramMeanings (readings : Readings) (table : TypeTable) (params : Option (List Param)) :
    Option (List CType) :=
  match params with
  | none | some [] => some []
  | some (.ellipsis :: _) => some [.ellipsis]
  | some (.untyped _ :: rest) => paramMeanings readings table (some rest)
  | some (.typed _ (.mk modifiers base _) :: rest) => do
      let type ← meaning readings table modifiers base
      return type.toList ++ (← paramMeanings readings table (some rest))
termination_by sizeOf params

end

-- Pointers that waited

variable {work : Workspace} {readings : Readings} {type : Option CType} {types : List CType}

/- What is pointed to once is neither void nor a character any more. -/
theorem pointerOrText_ofResult (hType : type ≠ some .ellipsis) :
    pointerOrText (.ofResult type) = .ok (.ofResult (pointed type)) ∧
      pointerTo (.ofResult (pointed type)) = .ok (.ofResult (pointed (pointed type))) ∧
      pointed type ≠ some .ellipsis := by
  rcases type with _ | kind | _
  · exact ⟨rfl, rfl, nofun⟩
  · cases kind <;> exact ⟨rfl, rfl, nofun⟩
  all_goals first | exact absurd rfl hType | exact ⟨rfl, rfl, nofun⟩

theorem exec_addPointers (hType : type ≠ some .ellipsis) (count : Nat) (base : Option Base) :
    exec (addPointers count base (.ofResult type)) work =
      (.ok (.ofResult (pointed^[count] type)), work) := by
  have hFurther : ∀ more {type}, type ≠ some .ellipsis → pointers pointerTo more
      (.ofResult (pointed type)) = .ok (.ofResult (pointed^[more] (pointed type))) := by
    intro more
    induction more with
    | zero => exact fun _ => rfl
    | succ more ih =>
      intro type hType
      obtain ⟨-, hNext, hPointed⟩ := pointerOrText_ofResult hType
      rw [pointers, hNext]
      exact ih hPointed
  cases count with
  | zero => rfl
  | succ more =>
    have hAll : (do pointers pointerTo more (← pointerOrText (.ofResult type))) =
        Except.ok (Value.ofResult (pointed^[more] (pointed type))) := by
      rw [(pointerOrText_ofResult hType).1]
      exact hFurther more hType
    cases type <;>
      exact (congrArg (fun result => exec (lift result) work) hAll).trans (exec_lift work _)

-- Declarators

theorem exec_describeType (modifiers : List Modifier) (base : Base) (work : Workspace) :
    ∃ description, exec (describeType modifiers base) work = (.ok description, work) := by
  have hBase : ∃ description, exec (describeBase base) work = (.ok description, work) := by
    cases base with
    | words names => exact ⟨_, rfl⟩
    | record kind tag members key => exact ⟨_, exec_bind_of_ok _ (exec_tagOf work tag key)⟩
    | enumeration tag values key => exact ⟨_, exec_bind_of_ok _ (exec_tagOf work tag key)⟩
  obtain ⟨description, hBase⟩ := hBase
  exact ⟨_, exec_bind_of_ok _ hBase⟩

mutual

/- By induction on the modifiers, for any number of pointers that wait. -/
theorem exec_typeOver_meaning (hHold : readings.Hold work) (count : Nat) (modifiers : List Modifier)
    (base : Base) (type : Option CType)
    (hMeaning : meaning readings work.heap.types modifiers base = some type) :
    type ≠ some .ellipsis ∧ exec (typeOver count modifiers base) work =
      (.ok (.ofResult (pointed^[count] type)), work) := by
  rw [meaning.eq_def] at hMeaning
  split at hMeaning
  · obtain ⟨hType, hBase⟩ := hHold.base hMeaning
    rw [typeOver, exec_bind_of_ok _ hBase]
    exact ⟨hType, exec_addPointers hType count (some base)⟩
  · rename_i params rest
    simp only [Option.bind_eq_bind, Option.bind_eq_some_iff] at hMeaning
    obtain ⟨result, hResult, types, hTypes, hSame⟩ := hMeaning
    cases hSame
    have hResult : exec (typeOver 0 rest base) work = (.ok (.ofResult result), work) :=
      (exec_typeOver_meaning hHold 0 rest base result hResult).2
    have hTypes : exec (paramTypes params) work = (.ok (types.map .type), work) := by
      cases params with
      | none =>
        rw [paramMeanings] at hTypes
        cases hTypes
        rw [paramTypes]
        rfl
      | some params =>
        obtain ⟨described, hDescribed, hSame⟩ :=
          exec_describedParams_meaning hHold params types hTypes
        rw [paramTypes, exec_bind_of_ok _ hDescribed, hSame]
        rfl
    have hFunction : functionType (.ofResult result) (types.map .type) =
        .ok (.function result types) := functionType_eq_ok_iff.2 ⟨result, types, rfl, rfl, rfl⟩
    have hType : some (CType.function result types) ≠ some .ellipsis := nofun
    refine ⟨hType, ?_⟩
    rw [typeOver, typeOver, exec_bind_of_ok _ hResult, if_neg (Nat.succ_ne_zero count),
      exec_bind_of_ok _ hTypes, hFunction, exec_bind_of_ok _ (exec_lift work _)]
    exact exec_addPointers hType count none
  · rename_i rest hRest
    obtain ⟨target, hTarget, rfl⟩ := Option.map_eq_some_iff.1 hMeaning
    obtain ⟨hType, hExec⟩ := exec_typeOver_meaning hHold (count + 1) rest base target hTarget
    rw [typeOver]
    exact ⟨(pointerOrText_ofResult hType).2.2, hExec⟩
  · rename_i size rest
    simp only [Option.bind_eq_bind, Option.bind_eq_some_iff] at hMeaning
    obtain ⟨length, hLength, item, hItem, hRoom⟩ := hMeaning
    obtain ⟨hTold, hItem⟩ := exec_typeOver_meaning hHold 0 rest base _
      (Option.join_eq_some_iff.1 hItem)
    split_ifs at hRoom with hLarge
    cases hRoom
    simp only [Bool.or_eq_true, decide_eq_true_eq, not_or, Bool.not_eq_true] at hLarge
    have hTimes : exec (onHeap (OnHeap.times length (.type item))) work =
        (.ok (.type (.array item length)), work) := by
      rw [exec_onHeap, OnHeap.exec_times _ (fun hSame => hTold (congrArg some hSame)),
        if_neg (by omega), if_neg (by omega), if_neg (by simpa using hLarge.2),
        TypeTable.makeArray, if_neg (by simp [TypeTable.isOpen, hLarge.1.1])]
      rfl
    have hType : some (CType.array item length) ≠ some .ellipsis := nofun
    refine ⟨hType, ?_⟩
    rw [typeOver, exec_bind_of_ok _ (hHold.length hLength), exec_bind_of_ok _ hItem,
      Function.iterate_zero_apply, Value.ofResult, exec_bind_of_ok _ hTimes]
    exact exec_addPointers hType count none
  · cases hMeaning
termination_by sizeOf modifiers

theorem exec_describedParams_meaning (hHold : readings.Hold work) (params : List Param)
    (types : List CType)
    (hMeaning : paramMeanings readings work.heap.types (some params) = some types) :
    ∃ described, exec (describedParams params) work = (.ok described, work) ∧
      described.map Prod.fst = types.map .type := by
  match params with
  | [] =>
    rw [paramMeanings] at hMeaning
    cases hMeaning
    rw [describedParams]
    exact ⟨[], rfl, rfl⟩
  | .ellipsis :: rest =>
    rw [paramMeanings] at hMeaning
    cases hMeaning
    rw [describedParams]
    exact ⟨_, rfl, rfl⟩
  | .untyped name :: rest =>
    rw [paramMeanings] at hMeaning
    rw [describedParams]
    exact exec_describedParams_meaning hHold rest types hMeaning
  | .typed name (.mk modifiers base bare) :: rest =>
    rw [paramMeanings] at hMeaning
    simp only [Option.bind_eq_bind, Option.bind_eq_some_iff] at hMeaning
    obtain ⟨type, hType, others, hOthers, hSame⟩ := hMeaning
    cases hSame
    have hExec : exec (typeOf (.mk modifiers base bare)) work = (.ok (.ofResult type), work) := by
      rw [typeOf]
      exact (exec_typeOver_meaning hHold 0 modifiers base type hType).2
    obtain ⟨described, hRest, hSame⟩ := exec_describedParams_meaning hHold rest others hOthers
    obtain ⟨description, hDescription⟩ := exec_describeType modifiers base work
    rw [describedParams, exec_bind_of_ok _ hExec]
    cases type with
    | none =>
      refine ⟨described, ?_, hSame⟩
      have hTruth : exec (onHeap (OnHeap.truth (.ofResult none))) work = (.ok false, work) := rfl
      rw [exec_bind_of_ok _ hTruth]
      exact exec_bind_of_ok _ hRest
    | some type =>
      refine ⟨(.type type, description) :: described, ?_, congrArg (Value.type type :: ·) hSame⟩
      have hTruth : exec (onHeap (OnHeap.truth (.ofResult (some type)))) work = (.ok true, work) :=
        rfl
      rw [exec_bind_of_ok _ hTruth]
      dsimp only
      rw [if_pos rfl, exec_bind_of_ok _ hExec, TypeExpr.modifiers, TypeExpr.base,
        exec_bind_of_ok _ hDescription]
      exact exec_bind_of_ok _ hRest
termination_by sizeOf params

end

theorem exec_typeOf_meaning (hHold : readings.Hold work) {modifiers : List Modifier} {base : Base}
    (hMeaning : meaning readings work.heap.types modifiers base = some type) (bare : Bool) :
    exec (typeOf (.mk modifiers base bare)) work = (.ok (.ofResult type), work) := by
  rw [typeOf]
  exact (exec_typeOver_meaning hHold 0 modifiers base type hMeaning).2

/-
  Reading a type gives the meaning of its declarator and changes nothing, to any depth: with
  pointers, arrays of constant lengths and pointers to functions over a base that the interface
  knows. A declared name has the same type unless it is static: then it has none.
-/
theorem exec_typeOfDecl_meaning
    (hHold : readings.Hold work)
    (decl : Decl)
    (hMeaning :
      meaning readings work.heap.types decl.type.modifiers
        decl.type.base = some type) :
    exec (typeOf decl.type) work =
        (.ok (.ofResult type), work) ∧
      exec (typeOfDecl decl) work =
        (.ok (if decl.storage.contains "static" then .none
          else .ofResult type), work) := by
  obtain ⟨name, storage, words, ⟨modifiers, base, bare⟩, bits, key⟩ := decl
  have hType : exec (typeOf (.mk modifiers base bare)) work = (.ok (.ofResult type), work) :=
    exec_typeOf_meaning hHold hMeaning bare
  refine ⟨hType, ?_⟩
  rw [typeOfDecl, Decl.storage]
  split_ifs with hStatic
  · rfl
  · exact hType

def sampleReadings : Readings where
  base
  | .words ["char"] => some (some (.scalar .char))
  | .words ["void"] => some none
  | _ => none
  length
  | some (.constant .int "3") => some 3
  | _ => none

/- The declarator of `char *(*f[3])(char, void *, ...)`. -/
def sampleModifiers : List Modifier :=
  [.array (some (.constant .int "3")), .pointer,
    .function (some [.typed none (.mk [] (.words ["char"]) false),
      .typed none (.mk [.pointer] (.words ["void"]) false), .ellipsis]), .pointer]

theorem sampleReadings_hold (work : Workspace) : sampleReadings.Hold work := by
  constructor
  · intro base type hBase
    simp only [sampleReadings] at hBase
    split at hBase <;> cases hBase <;> refine ⟨nofun, ?_⟩ <;> rw [typeOfBase] <;> rfl
  · intro size count hLength
    simp only [sampleReadings] at hLength
    split at hLength <;> cases hLength
    rw [sizeOfArray, calculate]
    rfl

theorem exec_typeOfDecl_meaning_sample :
    exec (typeOfDecl (.mk (some "f") ["extern"] [] (.mk sampleModifiers (.words ["char"]) false)
      none 0)) (default : Workspace) =
      (.ok (.type (.array (.function (some (.scalar .charPointer))
        [.scalar .char, .scalar .voidPointer, .ellipsis]) 3)), default) := by
  have hMeaning : meaning sampleReadings (default : Workspace).heap.types sampleModifiers
      (.words ["char"]) = some (some (.array (.function (some (.scalar .charPointer))
        [.scalar .char, .scalar .voidPointer, .ellipsis]) 3)) := by
    simp [sampleModifiers, sampleReadings, meaning, paramMeanings, pointed]
    decide
  exact (exec_typeOfDecl_meaning (sampleReadings_hold _)
    (.mk (some "f") ["extern"] [] (.mk sampleModifiers (.words ["char"]) false) none 0) hMeaning).2

/- A static name has no type, and an array of void is none. -/
theorem exec_typeOfDecl_static :
    exec (typeOfDecl (.mk (some "c") ["static"] [] (.mk [] (.words ["char"]) false) none 0))
        (default : Workspace) = (.ok .none, default) ∧
      exec (typeOf (.mk [.array (some (.constant .int "3"))] (.words ["void"]) false))
        (default : Workspace) = (.error .wrongKind, default) := by
  have hHold := sampleReadings_hold default
  have hLength : exec (sizeOfArray (some (.constant .int "3"))) (default : Workspace) =
      (.ok 3, default) := hHold.length rfl
  have hVoid : exec (typeOver 0 [] (.words ["void"])) (default : Workspace) =
      (.ok .none, default) :=
    (exec_typeOver_meaning hHold 0 [] _ none (by rw [meaning]; rfl)).2
  refine ⟨by rw [typeOfDecl]; rfl, ?_⟩
  rw [typeOf, typeOver, exec_bind_of_ok _ hLength, exec_bind_of_ok _ hVoid]
  rfl

-- Words

/- The words that count wherever they stand among those of a base. -/
def placedWords : List String := ["signed", "unsigned", "long", "int", "_Complex"]

theorem filter_perm {first second : List String} (hPerm : first.Perm second) (keep : String → Bool)
    (hSame : ∀ a ∈ first, ∀ b ∈ first, keep a → keep b → a = b) :
    first.filter keep = second.filter keep := by
  have hFilter := hPerm.filter keep
  rcases hFirst : first.filter keep with _ | ⟨word, rest⟩
  · rw [hFirst] at hFilter
    exact (nil_perm.1 hFilter).symm
  · have hWord : word ∈ first.filter keep := hFirst ▸ mem_cons_self
    have hAll : ∀ other ∈ first.filter keep, other = word := by
      intro other hOther
      rw [mem_filter] at hOther hWord
      exact hSame other hOther.1 word hWord.1 hOther.2 hWord.2
    rw [eq_replicate_of_mem hAll] at hFilter
    rw [← hFirst, ← replicate_perm.1 hFilter]
    exact eq_replicate_of_mem hAll

/- The order of the words of a base makes no difference, as long as no two of them that are not
  counted differ. -/
theorem exec_typeOfBase_perm
    {first second : List String}
    (hPerm : first.Perm second)
    (hOthers : ∀ a ∈ first, ∀ b ∈ first, a ∉ placedWords → b ∉ placedWords → a = b)
    (work : Workspace) :
    exec (typeOfBase (.words first)) work = exec (typeOfBase (.words second)) work := by
  have hHas : ∀ word, first.contains word = second.contains word := fun word => hPerm.contains_eq
  have hFilter := filter_perm hPerm (fun word => !(placedWords.contains word))
    (by simpa using hOthers)
  have hOrdered : ∀ sign longs, orderedWords sign longs first = orderedWords sign longs second :=
    fun sign longs => congrArg (fun others => Text.joinWith " " (_ ++ others)) hFilter
  rw [typeOfBase, typeOfBase, hHas, hHas, hHas, hPerm.count_eq, hOrdered]

theorem exec_typeOfBase_perm_complex :
    exec (typeOfBase (.words ["_Complex", "double", "long"])) (default : Workspace) =
      exec (typeOfBase (.words ["long", "_Complex", "double"])) default :=
  exec_typeOfBase_perm (by decide) (by decide) default

end Workspace

end CHeader
