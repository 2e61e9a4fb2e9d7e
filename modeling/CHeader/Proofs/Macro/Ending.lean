import CHeader.Proofs.Macro.Grounded
import CHeader.Proofs.Source.Compositional

/-
  When the expansion of a line ends.

  The number of nested passes is a bound only: what comes out with some number comes out with every
  larger one. A line ends if no text leads back to its name, or if no name stands before a
  parenthesis. In general it does not: the tokens of a parenthesis are painted like the one that
  closes it, so a name that stands for itself and is called on itself loses its paint after every
  pass.

  Main declarations:
    * `Macro.Ready.exec_expandTokens`
    * `Macro.exec_expandTokens_selfCall`
    * `Macro.expandTokens_ends`
-/

namespace CHeader

open List

namespace Macro

open Source Token

open Source (exec Within)

-- All passes

section

variable (ahead : String → Run String) {session : Session} {s : String}

/-
  Passes over ready tokens end: one that replaces anything
  leaves less to replace, and grouping adds nothing.
-/
theorem Ready.exec_expandTokens (hReady : Ready session.table s list)
    (hGrounded : Grounded session.table s) (hWords : session.table.Worded) :
    ∃ result, ∀ depth line, load session.table (list.map text) < depth →
        exec (expandTokens ahead depth line list false) session = (.ok result, session) := by
  induction hLoad : load session.table (list.map text)
      using Nat.strongRecOn generalizing list with
  | ind total ih =>
    obtain ⟨hNext, hCount⟩ := hReady.pass hGrounded
    have hScan := fun depth line =>
        exec_scanTokens (expandTokens ahead depth) ahead session { line := line } list rfl
          fun _ hToken => hReady.tame hGrounded hToken
    by_cases hAny : (list.any fun token => (token.openBody? session.table).isSome) = true
    · obtain ⟨grouped, hGroup, hGrouped, hLess⟩ := hNext.regroup hGrounded hWords
      have hSome : 0 < list.countP fun token =>
          (token.openBody? session.table).isSome := by
        rw [countP_pos_iff]
        exact any_eq_true.1 hAny
      obtain ⟨result, hResult⟩ := ih _ (by omega) hGrouped rfl
      refine ⟨result, fun depth line hDepth => ?_⟩
      cases depth with
      | zero => omega
      | succ depth =>
        obtain ⟨final, hRun, hDone, hReplaced⟩ := hScan depth line
        rw [expandTokens, expandOnce, exec_bind, hRun]
        simp only [hReplaced, hAny, Bool.or_true, if_true, hDone,
          append_nil, reverse_reverse]
        rw [exec_bind, exec_getTable]
        simp only [hGroup]
        exact hResult depth _ (by omega)
    · refine ⟨list.flatMap (Macro.passToken session.table), fun depth line hDepth => ?_⟩
      cases depth with
      | zero => omega
      | succ depth =>
        obtain ⟨final, hRun, hDone, hReplaced⟩ := hScan depth line
        rw [expandTokens, expandOnce, exec_bind, hRun]
        simp only [hReplaced, hAny, hDone,
          append_nil, reverse_reverse]
        rfl

theorem Grounded.exec_expandWith (hGrounded : Grounded session.table s)
    (hWords : session.table.Worded) : ∃ text, ∀ depth, replacements session.table ∅ s < depth →
      exec (expandWith (expandTokens ahead depth) s) session = (.ok text, session) := by
  obtain ⟨result, hResult⟩ := (hGrounded.ready_front .self []).exec_expandTokens ahead hGrounded
      hWords
  refine ⟨spell result, fun depth hDepth => ?_⟩
  rw [replacements_eq] at hDepth
  rw [expandWith, exec_bind, exec_getTable]
  simp only [tokens_of_namesTexts [] (hGrounded.texts s .self)]
  rw [exec_bind, hResult depth s (by rw [map_text_front]; exact hDepth)]
  rfl

/- A line in which no name stands before a parenthesis ends as well, whatever cycles there are. -/
theorem AllPlain.exec_expandWith (hPlain : AllPlain session.table s)
    (hDepth : expansionDepth session.table ∅ s < depth) :
    exec (expandWith (expandTokens ahead depth) s) session =
      (.ok (expansion session.table ∅ s), session) := by
  rw [expandWith, exec_bind, exec_getTable]
  simp only [tokens_of_namesTexts [] hPlain.plain.named]
  rw [exec_bind, exec_expandTokens_front ahead session hPlain depth 0 s
      (Nat.zero_le _), Nat.zero_add, if_pos hDepth]
  simp only
  rw [spell_front _ _ _ (by simp)]
  rfl

end

-- A name on itself

section

variable {table : Table} {name : String}
variable {token first : Token}

theorem tokens_selfCall (hWords : table.Worded) (hWord : isWordText name = true)
    (hFind : table.find? name = some (.text name)) (painted : List String) :
    tokens table painted (name ++ "(" ++ name ++ ")") =
      ([name, "(", name, ")"].map (ofPiece painted), false) := by
  have hQuote : '"' ∉ name.toList := by
    intro hMem
    rw [not_isWordText_of_mark (by decide) hMem] at hWord
    cases hWord
  have hPieces : pieces (name ++ "(" ++ name ++ ")") = [name, "(", name, ")"] := by
    have hText : name ++ "(" ++ name ++ ")" = name ++ (String.singleton '(' ++
        (name ++ String.singleton ')')) := by
      rw [String.append_assoc, String.append_assoc]
      rfl
    rw [pieces_of_noQuote (by simp [hQuote]), hText,
      lexemes_append_word hWord, lexemes_append_mark (by decide), lexemes_append_word hWord]
    · rfl
    · intro c hc
      cases hc
      decide
    · intro c hc
      rw [String.toList_append] at hc
      cases hc
      decide
  have hNames : NamesTexts table (name ++ "(" ++ name ++ ")") := by
    rw [NamesTexts, hPieces]
    intro piece hPiece hContains
    refine ⟨hWords piece hContains, ?_⟩
    simp only [mem_cons, not_mem_nil, or_false] at hPiece
    rcases hPiece with rfl | rfl | rfl | rfl
    · simp [Table.text?, hFind]
    · exact absurd (hWords _ hContains) (by decide)
    · simp [Table.text?, hFind]
    · exact absurd (hWords _ hContains) (by decide)
  rw [tokens_of_namesTexts _ hNames, front, hPieces]

theorem passToken_self (hWord : isWordText name = true)
    (hFind : table.find? name = some (.text name))
    (hText : token.IsText) (hName : token.text = name) :
    ∃ next, Macro.passToken table token = [next] ∧ next.IsText ∧ next.text = name := by
  unfold Macro.passToken
  cases hBody : token.openBody? table with
  | none => exact ⟨token.close, rfl, hText, hName⟩
  | some body =>
    have hSame : body = name := by
      unfold Token.openBody? at hBody
      rw [hText.2, hName] at hBody
      split at hBody
      · rename_i hStrand
        cases hStrand
        rw [openBody?_eq_some_iff, hFind] at hBody
        cases hBody.2.2
        rfl
      · cases hBody
    refine ⟨ofPiece (addName token.text token.painted) name, ?_, ⟨rfl, rfl⟩, rfl⟩
    rw [hSame]
    simp [front, pieces_of_isWordText hWord]

section

variable (hWords : table.Worded) (hWord : isWordText name = true)
  (hFind : table.find? name = some (.text name))
include hWords hWord hFind

/- The parenthesis is read again with the paint of the token that closes it. -/
theorem regroup_selfCall (hName : first.text = name) (hInside : inside.IsText)
    (hInner : inside.text = name) (painted : List String) :
    regroup table [first, (ofPiece painted "(").close, inside, (ofPiece painted ")").close] =
      .ok (first :: ["(", name, ")"].map (ofPiece painted), false) := by
  have hNone : ∀ c ∈ marks, (Strand.text name).mentions c = false := by
    intro c hc
    by_contra hMem
    rw [not_isWordText_of_mark hc (by simpa [Strand.mentions] using hMem)] at hWord
    cases hWord
  have hOpen := hNone '(' (by decide)
  have hClose := hNone ')' (by decide)
  have hContains : table.contains name = true := by
    rw [Table.contains, hFind]
    rfl
  have hMarks : (Strand.text "(").mentions '(' = true ∧ (Strand.text ")").mentions ')' = true ∧
      Grouping.depthChange (.text "(") = 1 ∧
      Grouping.depthChange (.text ")") = -1 := by decide
  have hSpell : spell [first, (ofPiece painted "(").close, inside] ++
      ")" = name ++ "(" ++ name ++ ")" := by
    simp [spell, hName, hInner, close, ofPiece,
      ofStrand, Strand.spelling, String.append_assoc]
  have hTokens := tokens_selfCall hWords hWord hFind painted
  simp only [close, ofPiece, ofStrand] at hSpell ⊢
  simp [regroup, bind, Except.bind, pure, Except.pure,
    Grouping.step, hName, hInside.2, hInner, hOpen,
    hClose, hContains, hMarks, hSpell, hTokens]

theorem tame_selfCall (hText : token.IsText)
    (hMem : token.text ∈ [name, "(", ")"]) : Tame table token := by
  refine ⟨hText.1, hText.2, fun meaning hMeaning => ?_⟩
  have hToken : isWordText token.text = true := hWords _ (by simp [Table.contains, hMeaning])
  simp only [mem_cons, not_mem_nil, or_false] at hMem
  rcases hMem with hName | hName | hName
  · rw [hName, hFind] at hMeaning
    cases hMeaning
    refine ⟨hToken, name, rfl, ?_⟩
    rw [NamesTexts, pieces_of_isWordText hWord]
    simp [hWord, Table.text?, hFind]
  · rw [hName] at hToken
    exact absurd hToken (by decide)
  · rw [hName] at hToken
    exact absurd hToken (by decide)

end

/-
  Passes over a call of a name on itself never end: the closing parenthesis takes the paint off the
  name before it after every pass.
-/
theorem exec_expandTokens_selfCall (ahead : String → Source.Run String)
    (hWords : session.table.Worded) (hWord : isWordText name = true)
    (hFind : session.table.find? name = some (.text name)) (depth : Nat) (line : String)
    (hFirst : first.IsText) (hName : first.text = name) :
    exec (expandTokens ahead depth line (first :: ["(", name, ")"].map (ofPiece []))
        false) session = (.error .tooDeep, session) := by
  induction depth generalizing line first with
  | zero => rfl
  | succ depth ih =>
    have hTame : ∀ token ∈ first :: ["(", name, ")"].map (ofPiece []),
        Tame session.table token := by
      intro token hToken
      refine tame_selfCall hWords hWord hFind ?_ ?_
      · rcases mem_cons.1 hToken with rfl | hToken
        · exact hFirst
        · obtain ⟨_, _, rfl⟩ := mem_map.1 hToken
          exact ⟨rfl, rfl⟩
      · rcases mem_cons.1 hToken with rfl | hToken
        · simp [hName]
        · obtain ⟨t, ht, rfl⟩ := mem_map.1 hToken
          change t ∈ [name, "(", ")"]
          simpa [or_left_comm] using ht
    obtain ⟨final, hRun, hDone, hReplaced⟩ :=
      exec_scanTokens (expandTokens ahead depth) ahead session { line := line } _ rfl hTame
    obtain ⟨next, hNext, hText, hSame⟩ := passToken_self hWord hFind hFirst hName
    obtain ⟨inside, hInside, hInner, hAlso⟩ := passToken_self hWord hFind
        (⟨rfl, rfl⟩ : (ofPiece [] name).IsText) rfl
    have hOpen : (ofPiece [] name).openBody? session.table = some name := by
      rw [openBody?_ofPiece, openBody?_eq_some_iff]
      exact ⟨hWord, by simp, hFind⟩
    have hList : (first :: ["(", name, ")"].map
        (ofPiece [])).flatMap (passToken session.table) =
          [next, (ofPiece [] "(").close, inside, (ofPiece [] ")").close] := by
      have hLeft : passToken session.table (ofPiece [] "(") =
          [(ofPiece [] "(").close] := rfl
      have hRight : passToken session.table (ofPiece [] ")") =
          [(ofPiece [] ")").close] := rfl
      simp [hNext, hInside, hLeft, hRight]
    rw [hList, append_nil] at hDone
    rw [expandTokens, expandOnce, Source.exec_bind, hRun]
    simp only [hReplaced, hDone, reverse_reverse]
    rw [if_pos (by simp [hOpen]), Source.exec_bind, Source.exec_getTable]
    simp only [regroup_selfCall hWords hWord hFind hSame hInner hAlso]
    exact ih _ hText hSame

end

-- More passes

theorem compositional_within : Source.Compositional fun _ first second => Within first second where
  mono := fun _ hRun => hRun
  pure := fun _ => .refl _
  throw := fun _ => .refl _
  bind := .bind
  getTable := fun hRest => .bind (.refl _) fun table => hRest _ _ (.refl table)
  nextLine := fun hRest => .bind (.refl _) hRest
  bounded := fun hRun _ => .bind (.refl _) fun _ => hRun _

/- A further pass that is allowed keeps what comes out. -/
theorem within_expandTokens (ahead : String → Source.Run String)
    (depth : Nat) (line : String) (list : List Token) (opened : Bool) :
    Within (expandTokens ahead depth line list opened)
      (expandTokens ahead (depth + 1) line list opened) := by
  induction depth generalizing line list opened with
  | zero => exact .of_throw _ _
  | succ depth ih =>
    exact @Source.Compositional.expandOnce _ compositional_within
      [] _ _ (fun _ => ih) _ _ (fun _ _ _ => .refl _) line list opened

-- Tables of definitions

theorem isWordText_of_ofText? (hDefinition : Definition.ofText? s = some definition) :
    isWordText definition.name = true := by
  unfold Definition.ofText? at hDefinition
  dsimp only at hDefinition
  split_ifs at hDefinition with hEmpty
  have hName : definition.name = String.ofList ((s.toList.dropWhile (!Text.isWord ·)).takeWhile
      Text.isWord) := by
    split at hDefinition <;> cases hDefinition <;> rfl
  rw [hName]
  refine isWordText_ofList (by simpa using hEmpty) ?_
  exact fun c hc => mem_takeWhile_imp hc

theorem Table.Worded.define (hWords : table.Worded) (line : String) :
    (define line table).1.Worded := by
  intro name hContains
  by_cases hBodies : bodiesName = name
  · subst hBodies
    decide
  by_cases hParams : paramsName = name
  · subst hParams
    decide
  by_cases hName : ∃ definition, Definition.ofText? (Source.Directive.operandOf line) =
      some definition ∧ definition.name = name
  · obtain ⟨definition, hDefinition, rfl⟩ := hName
    exact isWordText_of_ofText? hDefinition
  · refine hWords name ?_
    rw [Table.contains, ← find?_define table (fun definition hDefinition hSame =>
        hName ⟨definition, hDefinition, hSame⟩) hBodies hParams]
    exact hContains

/-
  Expansion does not always end. What comes out with some number of nested passes comes out with
  every larger number. Something comes out for every line whose names only stand for texts, if no
  text leads back to its name or no name stands before a parenthesis. A name that stands for itself
  has no expansion where it is called on itself, whatever the number of passes.
-/
theorem expandTokens_ends
    (ahead : String → Source.Run String)
    (session : Source.Session)
    (hWords : session.table.Worded) :
    (∀ s depth more text next,
      depth ≤ more →
      exec (expandWith (expandTokens ahead depth) s) session =
        (.ok text, next) →
      exec (expandWith (expandTokens ahead more) s) session =
        (.ok text, next)) ∧
    (∀ s, Grounded session.table s →
      ∃ text, ∀ depth,
        replacements session.table ∅ s < depth →
        exec (expandWith (expandTokens ahead depth) s) session =
          (.ok text, session)) ∧
    (∀ s, AllPlain session.table s →
      ∀ depth, expansionDepth session.table ∅ s < depth →
        exec (expandWith (expandTokens ahead depth) s) session =
          (.ok (expansion session.table ∅ s), session)) ∧
    ∀ name, isWordText name = true →
      session.table.find? name = some (.text name) →
      ∀ depth,
        exec
            (expandWith (expandTokens ahead depth)
              (name ++ "(" ++ name ++ ")")) session =
          (.error .tooDeep, session) := by
  refine ⟨?_, ?_, ?_, ?_⟩
  · intro s depth more text next hMore
    exact Within.of_le (fun count =>
      @Source.Compositional.expandWith _ compositional_within [] _ _
        (fun _ => within_expandTokens ahead count) s)
      hMore session text next
  · exact fun s hGrounded => hGrounded.exec_expandWith ahead hWords
  · exact fun s hPlain depth hDepth =>
      hPlain.exec_expandWith ahead hDepth
  · intro name hWord hFind depth
    rw [expandWith, Source.exec_bind, Source.exec_getTable]
    simp only [tokens_selfCall hWords hWord hFind]
    rw [Source.exec_bind]
    have hRun := exec_expandTokens_selfCall ahead hWords hWord hFind depth
        (name ++ "(" ++ name ++ ")")
        (⟨rfl, rfl⟩ : (Token.ofPiece [] name).IsText) rfl
    rw [List.map_cons, hRun]

/- Names with parentheses in their texts, and one that stands for itself. -/
def nestedTable : Table :=
  ["#define A B(C)", "#define B (D)", "#define C", "#define D 7", "#define L L"].foldl
    (fun table line => (define line table).1) {}

theorem nestedTable_eq : nestedTable = { names := [("A", .text "B(C)"), ("B", .text "(D)"),
    ("C", .text ""), ("D", .text "7"),
    ("L", .text "L")] } := by
  decide +kernel

def nestedTexts (name : String) : List String :=
  (["B(C)", "(D)", "", "7"].drop (["A", "B", "C", "D"].idxOf name))

theorem worded_nestedTable : nestedTable.Worded := by
  have hEmpty : ({} : Table).Worded := nofun
  exact ((((hEmpty.define _).define _).define _).define _).define _

theorem grounded_nestedTable : Grounded nestedTable "A(A(B))" := by
  have hReached : ∀ t, Reaches nestedTable "A(A(B))" t → t ∈ "A(A(B))" :: nestedTexts "A" :=
    fun t => mem_of_reaches (by decide +kernel) (by decide +kernel)
  have hTexts : ∀ t ∈ "A(A(B))" :: nestedTexts "A",
      (∀ piece ∈ pieces t, nestedTable.contains piece = true → isWordText piece = true ∧
          (nestedTable.text? piece).isSome = true) ∧
        '"' ∉ t.toList := by
    decide +kernel
  have hBelow : ∀ t ∈ "A(A(B))" :: nestedTexts "A",
      ∀ name ∈ pieces t, ∀ body ∈ nestedTable.text? name, body ∈ nestedTexts name ∧
          (∀ u ∈ nestedTexts name, name ∉ pieces u ∧
            ∀ other ∈ pieces u, ∀ more ∈ nestedTable.text? other, more ∈ nestedTexts name) := by
    decide +kernel
  refine ⟨fun t ht => (hTexts t (hReached t ht)).1, fun t ht => (hTexts t (hReached t ht)).2, ?_⟩
  intro t ht name hName body hFind u hu
  obtain ⟨hBody, hAll⟩ := hBelow t (hReached t ht) name hName body (Table.text?_eq_some_iff.2 hFind)
  exact (hAll u (mem_of_reaches hBody (fun v hv => (hAll v hv).2) hu)).1

/- A line that ends and one that does not, with the same definitions. -/
theorem expandTokens_ends_nested :
    (∃ text,
      exec (expandLine 20 pure "A(A(B))") { table := nestedTable } =
        (.ok text, { table := nestedTable })) ∧
      exec (expandLine 20 pure "L(L)") { table := nestedTable } =
        (.error .tooDeep, { table := nestedTable }) := by
  obtain ⟨_, hEnds, _, hNever⟩ := expandTokens_ends pure { table := nestedTable } worded_nestedTable
  have hFew : replacements nestedTable ∅ "A(A(B))" < 20 := by
    rw [nestedTable_eq]
    cbv
  obtain ⟨text, hText⟩ := hEnds "A(A(B))" grounded_nestedTable
  exact ⟨⟨text, hText 20 hFew⟩, hNever "L" (by decide) (by decide +kernel) 20⟩

end Macro

end CHeader
