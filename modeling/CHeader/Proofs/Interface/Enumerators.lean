import CHeader.Proofs.Interface.NameSpaces

/-
  The values of enumerators.

  An enumerator has the value that is given for it, and otherwise one more than the one before it;
  the first has zero. What is given is computed where all enumerators before it have their values.
  The loop keeps no last value but an offset to the position, which each given value sets anew.

  Main declarations:
    * `Workspace.Enumerated`
    * `Workspace.Countable`
    * `Workspace.exec_defineEnum_enumerated`
-/

namespace CHeader

open Declaration List Step Work

def Declaration.Enumerator.name : Enumerator → String
| .mk name _ => name

/- Whether an expression is made of constants and of some names. -/
def Declaration.Expr.Over (names : List String) : Declaration.Expr → Prop
| .name text => text ∈ names
| .constant _ _ => True
| .unary _ operand => operand.Over names
| .binary _ left right => left.Over names ∧ right.Over names
| .conditional test yes no =>
    test.Over names ∧ yes.Over names ∧ no.Over names
| _ => False

namespace Workspace

variable {iface : Interface} {work : Workspace} {names : List String} {name : String} {n : Int}
variable {pairs earlier all : List (String × Int)} {values : List Enumerator}

-- Names that are bound to numbers

def bindNumber (iface : Interface) (name : String) (n : Int) : Interface :=
  { iface with entries := Macro.assign name (.int n) iface.entries }

/- An interface with more names, the last one first. -/
def bindAll (iface : Interface) (pairs : List (String × Int)) : Interface :=
  pairs.foldr (fun pair iface => bindNumber iface pair.1 pair.2) iface

theorem exported?_bindAll (pairs : List (String × Int)) :
    (bindAll iface pairs).exported? name = iface.exported? name := by
  induction pairs with
  | nil => rfl
  | cons pair pairs ih => exact ih

theorem plain?_bindAll (hName : name ∉ Interface.partNames) (hDistinct : (pairs.map Prod.fst).Nodup)
    (hMem : (name, n) ∈ pairs) : (bindAll iface pairs).plain? name = some (.int n) := by
  rw [Interface.plain?_of_not_part _ hName]
  induction pairs with
  | nil => cases hMem
  | cons pair pairs ih =>
    rw [map_cons, nodup_cons] at hDistinct
    rw [bindAll, foldr_cons, bindNumber, Macro.lookup_assign]
    rcases mem_cons.1 hMem with rfl | hRest
    · exact if_pos rfl
    · rw [if_neg, ← bindAll, ih hDistinct.2 hRest]
      rintro rfl
      exact hDistinct.1 (mem_map.2 ⟨_, hRest, rfl⟩)

/- An expression over names that have values leaves the interface as it is. -/
theorem preserves_calculate_over (hNames : ∀ name ∈ names,
    iface.exported? name = none ∧ ∃ value, iface.plain? name = some value) :
    (expr : Declaration.Expr) → expr.Over names →
      Preserves (fun work => work.iface = iface) (calculate expr)
| .name text, hText => by
  rintro work rfl
  obtain ⟨hFree, value, hPlain⟩ := hNames text hText
  rw [calculate, exec_item_of_unexported hFree hPlain]
| .constant kind text, _ => by
  rw [calculate]
  exact .lift _
| .unary op operand, _ => by
  rw [calculate]
  split
  · exact .throw _
  refine Preserves.bind ((preserves_valueOfOperand operand).tryCatch fun fault => ?_)
    fun value => ?_
  · split
    · exact fun _ hWork => hWork
    · exact .throw _
  · unfold applyFront
    split
    · exact .lift _
    · exact .lift _
    · exact .lift _
    · exact Preserves.bind (fun _ hWork => by rwa [exec_onHeap]) fun _ => .pure _
    · exact .throw _
| .binary op left right, ⟨hLeft, hRight⟩ => by
  rw [calculate]
  refine (preserves_calculate_over hNames left hLeft).bind fun _ => ?_
  refine (preserves_calculate_over hNames right hRight).bind fun _ => ?_
  split
  · exact .lift _
  · exact .throw _
| .conditional test yes no, ⟨hTest, hYes, hNo⟩ => by
  rw [calculate]
  refine (preserves_calculate_over hNames test hTest).bind fun _ => ?_
  refine Preserves.bind (fun _ hWork => by rwa [exec_onHeap]) fun isTrue => ?_
  split
  · exact preserves_calculate_over hNames yes hYes
  · exact preserves_calculate_over hNames no hNo
| .sizeofType _, hFalse => hFalse.elim
| .unvalued _, hFalse => hFalse.elim

-- Counting

/- The value of an enumerator that comes after others and has none given. -/
def following : List (String × Int) → Int
| [] => 0
| (_, n) :: _ => n + 1

/- The values that enumerators get after earlier ones, the last one first: a given value is computed
  where the interface has exactly the earlier ones in addition. -/
inductive Enumerated (iface : Interface) :
    List (String × Int) → List Enumerator → List (String × Int) → Prop where
  | done {earlier : List (String × Int)} : Enumerated iface earlier [] earlier
  | counted {earlier all : List (String × Int)} {name : String} {rest : List Enumerator}
      (hRest : Enumerated iface ((name, following earlier) :: earlier) rest all) :
      Enumerated iface earlier (.mk name none :: rest) all
  | given {earlier all : List (String × Int)} {name : String} {rest : List Enumerator}
      {expr : Declaration.Expr} {work : Workspace} {n : Int}
      (hIface : work.iface = bindAll iface earlier)
      (hValue : (exec (calculate expr) work).1 = .ok (.int n))
      (hRest : Enumerated iface ((name, n) :: earlier) rest all) :
      Enumerated iface earlier (.mk name (some expr) :: rest) all

/- Whether all that is given for enumerators is made of constants and earlier enumerators, and is
  computed to a whole number when its turn comes. -/
def Countable (work : Workspace) (earlier : List (String × Int)) : List Enumerator → Prop
| [] => True
| .mk name none :: rest =>
    Countable { work with iface := bindNumber work.iface name (following earlier) }
      ((name, following earlier) :: earlier) rest
| .mk name (some expr) :: rest =>
    expr.Over (earlier.map Prod.fst) ∧ ∃ n next, exec (calculate expr) work = (.ok (.int n), next) ∧
      Countable { next with iface := bindNumber next.iface name n } ((name, n) :: earlier) rest

theorem Enumerated.map_fst (hValues : Enumerated iface earlier values all) :
    all.map Prod.fst = (values.map Enumerator.name).reverse ++ earlier.map Prod.fst := by
  induction hValues with
  | done => rfl
  | counted _ ih => simpa [Enumerator.name] using ih
  | given _ _ _ ih => simpa [Enumerator.name] using ih

/- By induction on the enumerators: position and offset make the value that follows. -/
theorem exec_defineEnumerators
    (hNames : ∀ name ∈ earlier.map Prod.fst ++ values.map Enumerator.name,
      name ∉ Interface.partNames ∧ iface.exported? name = none)
    (hDistinct : (earlier.map Prod.fst ++ values.map Enumerator.name).Nodup)
    (hIface : work.iface = bindAll iface earlier) (hCount : Countable work earlier values)
    (position : Nat) :
    ∃ all final, Enumerated iface earlier values all ∧
      exec (defineEnumerators position (.int (following earlier - position)) values) work =
        (.ok (), final) ∧ final.iface = bindAll iface all := by
  induction values generalizing work earlier position with
  | nil => exact ⟨earlier, work, .done, by rw [defineEnumerators]; rfl, hIface⟩
  | cons value rest ih =>
    obtain ⟨name, given⟩ := value
    have hSwap :
        (earlier.map Prod.fst ++ (Enumerator.mk name given :: rest).map Enumerator.name).Perm
          (name :: earlier.map Prod.fst ++ rest.map Enumerator.name) := perm_middle
    have hSet : ∀ {mid : Workspace} (n : Int), mid.iface = bindAll iface earlier →
        exec (setItem name (.int n)) mid =
          (.ok (), { mid with iface := bindNumber mid.iface name n }) := by
      intro mid n hMid
      obtain ⟨hPart, hFree⟩ := hNames name (by simp [Enumerator.name])
      exact exec_setItem_of_unexported hPart (hMid ▸ (exported?_bindAll earlier).trans hFree) _
    have hRest : ∀ {mid : Workspace} (n : Int), mid.iface = bindAll iface earlier →
        Countable { mid with iface := bindNumber mid.iface name n } ((name, n) :: earlier) rest →
        ∃ all final, Enumerated iface ((name, n) :: earlier) rest all ∧
          exec (do
            let value ← Work.lift (Value.binary .add (.int position) (.int (n - position)))
            setItem name value
            defineEnumerators (position + 1) (.int (n - position)) rest) mid =
              (.ok (), final) ∧ final.iface = bindAll iface all := by
      intro mid n hMid hMore
      obtain ⟨all, final, hValues, hExec, hFinal⟩ := @ih _ ((name, n) :: earlier)
        (fun other hMem => hNames other (hSwap.mem_iff.2 hMem)) (hSwap.nodup_iff.1 hDistinct)
        (congrArg (bindNumber · name n) hMid) hMore (position + 1)
      have hAdd : Value.binary .add (.int position) (.int (n - position)) = .ok (.int n) :=
        congrArg (Except.ok ∘ Value.int) (add_sub_cancel _ _)
      have hOffset : following ((name, n) :: earlier) - (position + 1 : Nat) = n - position := by
        simp [following]
      rw [hOffset] at hExec
      refine ⟨all, final, hValues, ?_, hFinal⟩
      rw [hAdd, exec_bind_of_ok _ (exec_lift _ _), exec_bind_of_ok _ (hSet n hMid), hExec]
    cases given with
    | none =>
      obtain ⟨all, final, hValues, hExec, hFinal⟩ := hRest _ hIface hCount
      refine ⟨all, final, .counted hValues, ?_, hFinal⟩
      rw [defineEnumerators.eq_def]
      exact hExec
    | some expr =>
      obtain ⟨hOver, n, next, hValue, hMore⟩ := hCount
      have hBound : ∀ other ∈ earlier.map Prod.fst, (bindAll iface earlier).exported? other = none ∧
          ∃ value, (bindAll iface earlier).plain? other = some value := by
        intro other hMem
        obtain ⟨hPart, hFree⟩ := hNames other (mem_append_left _ hMem)
        obtain ⟨⟨_, m⟩, hPair, rfl⟩ := mem_map.1 hMem
        exact ⟨(exported?_bindAll earlier).trans hFree, .int m,
          plain?_bindAll hPart (nodup_append.1 hDistinct).1 hPair⟩
      have hNext := preserves_calculate_over hBound expr hOver work hIface
      rw [hValue] at hNext
      obtain ⟨all, final, hValues, hExec, hFinal⟩ := hRest n hNext hMore
      refine ⟨all, final, .given hIface (congrArg Prod.fst hValue) hValues, ?_, hFinal⟩
      rw [defineEnumerators.eq_def]
      rw [exec_bind_of_ok _ hValue]
      exact hExec

/- The workspace in which the enumerators of a tag are counted. -/
def withEnum (work : Workspace) (tag : Option String) : Workspace :=
  { work with
    iface := { work.iface with
      enums := some ((work.iface.enums.getD []).put tag (.type (.scalar .int))) } }

/-
  Enumerators get their values. If their names are distinct and no variables, and what is given for
  some of them is computed to whole numbers, each is bound in the end to what is given for it, to
  zero if it is the first, and otherwise to one more than the one before it; and what is given was
  computed with all earlier ones bound.
-/
theorem exec_defineEnum_enumerated
    (tag : Option String)
    (hTables : HasTables work)
    (hDistinct : (values.map Enumerator.name).Nodup)
    (hNames : ∀ value ∈ values,
      value.name ∉ Interface.partNames ∧ work.iface.exported? value.name = none)
    (hCount : Countable (work.withEnum tag) [] values) :
    ∃ all final, exec (defineEnum tag (some values)) work = (.ok (), final) ∧
      Enumerated (work.withEnum tag).iface [] values all ∧
      all.map Prod.fst = (values.map Enumerator.name).reverse ∧
      ∀ name n, (name, n) ∈ all → final.iface.plain? name = some (.int n) := by
  have hEnum : exec (setEnum tag (.type (.scalar .int))) work = (.ok (), work.withEnum tag) := by
    rw [setEnum, exec_bind_of_ok _ hTables.exec_enums]
    rfl
  have hParts : ∀ name ∈ values.map Enumerator.name,
      name ∉ Interface.partNames ∧ (work.withEnum tag).iface.exported? name = none := by
    intro name hMem
    obtain ⟨value, hValue, rfl⟩ := mem_map.1 hMem
    exact hNames value hValue
  obtain ⟨all, final, hValues, hExec, hFinal⟩ :=
    @exec_defineEnumerators _ _ [] _ hParts hDistinct rfl hCount 0
  have hFirst := hValues.map_fst.trans (append_nil _)
  refine ⟨all, final, ?_, hValues, hFirst, fun name n hMem => ?_⟩
  · rw [defineEnum.eq_def, exec_bind_of_ok _ hEnum]
    exact hExec
  · have hName : name ∈ values.map Enumerator.name :=
      mem_reverse.1 (hFirst ▸ mem_map_of_mem hMem)
    rw [hFinal]
    exact plain?_bindAll (hParts name hName).1 (hFirst ▸ nodup_reverse.2 hDistinct) hMem

/- The enumerators `A = 5, B, C = A - 7, D`. -/
def rebased : List Enumerator :=
  [.mk "A" (some (.constant .int "5")), .mk "B" none,
    .mk "C" (some (.binary "-" (.name "A") (.constant .int "7"))), .mk "D" none]

/- What is given for them has one value only. -/
theorem eq_of_enumerated_rebased (hValues : Enumerated (withEnum {} none).iface [] rebased all) :
    all = [("D", -1), ("C", -2), ("B", 6), ("A", 5)] := by
  obtain _ | _ | ⟨-, hFive, hValues⟩ := hValues
  rw [calculate] at hFive
  cases hFive
  obtain _ | ⟨hValues⟩ | _ := hValues
  obtain _ | _ | ⟨hIface, hLess, hValues⟩ := hValues
  rw [calculate, calculate, calculate, exec_bind_of_ok _ (exec_item_of_unexported
    (by rw [hIface]; rfl) (by rw [hIface]; rfl))] at hLess
  cases hLess
  obtain _ | ⟨hValues⟩ | _ := hValues
  obtain _ | _ | _ := hValues
  rfl

theorem exec_defineEnum_enumerated_rebased :
    ∃ final, exec (defineEnum none (some rebased)) {} = (.ok (), final) ∧
      ∀ pair ∈ [("A", 5), ("B", 6), ("C", -2), ("D", -1)],
        final.iface.plain? pair.1 = some (.int pair.2) := by
  have hCount : Countable (withEnum {} none) [] rebased := by
    refine ⟨trivial, 5, _, by rw [calculate]; rfl, ⟨mem_cons_of_mem _ mem_cons_self, trivial⟩, -2,
      ?next, ?hExec, ?hRest⟩
    case hExec =>
      rw [calculate, calculate, calculate]
      rfl
    case hRest => trivial
  obtain ⟨all, final, hExec, hValues, -, hBound⟩ :=
    exec_defineEnum_enumerated none ⟨rfl, rfl, rfl⟩ (by decide) (by decide) hCount
  refine ⟨final, hExec, fun pair hPair => hBound _ _ ?_⟩
  rw [eq_of_enumerated_rebased hValues]
  exact mem_reverse.1 hPair

def realOf? : Value → Option Float
| .real x => some x
| _ => none

/- A real number does not keep its value on the way through the offset: of `A, B = 0.1` the second
  is not bound to 0.1. -/
theorem exec_defineEnum_fraction :
    let values : List Enumerator := [.mk "A" none, .mk "B" (some (.constant .float "0.1"))]
    let outcome := exec (defineEnum none (some values)) {}
    ((exec (calculate (.constant .float "0.1")) {}).1.toOption.bind realOf?).any (· == 0.1) = true ∧
      outcome.1.toOption = some () ∧
      ((outcome.2.iface.plain? "B").bind realOf?).any (· != 0.1) = true := by
  decide +kernel

end Workspace

end CHeader
