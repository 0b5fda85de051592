import ExprMachine.Expr.Document
import ExprMachine.Proofs.Json.Records
import ExprMachine.Proofs.Compilation.Appending

/-!
# Programs are read as they were written

The document of a program is printed, read and turned back into a program. What comes
back is the program without its spans, unless the document opens too many arrays and
objects inside one another. It is printed in the same way again, and it is compiled in
the same way.
-/

namespace ExprMachine

namespace Json

/-! ## Tags and words -/

@[simp]
theorem bareTag?_ofText (depth : Nat) (name : String) :
    (ofText name).bareTag? depth = some name :=
  unescape?_escape name

@[simp]
theorem word?_ofInt (word : Word) : (ofInt word.toInt).word? = some word := by
  rw [word?, integer?_ofInt, Option.bind_eq_bind, Option.bind_some, Word.ofInt?,
    if_pos ⟨word.minValue_le_toInt, word.toInt_le⟩, Int64.ofInt_toInt]

/-! ## Depths -/

mutual

/-- The number of arrays and objects that a document opens inside one another. -/
def depth : Json → Nat
  | .null | .boolean _ | .number _ | .string _ => 0
  | .array items => depthOfItems items + 1
  | .object members => depthOfMembers members + 1

def depthOfItems : List Json → Nat
  | [] => 0
  | item :: items => max item.depth (depthOfItems items)

def depthOfMembers : List (String × Json) → Nat
  | [] => 0
  | (_, value) :: members => max value.depth (depthOfMembers members)

end

@[simp]
theorem depth_ofText (text : String) : (ofText text).depth = 0 := rfl

@[simp]
theorem depth_ofInt (value : Int) : (ofInt value).depth = 0 := rfl

@[simp]
theorem depth_tagged (tag : String) (document : Json) :
    (tagged tag document).depth = document.depth + 1 := by
  simp [tagged, depth, depthOfMembers]

@[simp]
theorem depth_record (members : List (String × Json)) :
    (record members).depth = depthOfMembers members + 1 := by
  rw [record, depth]
  congr 1
  induction members with
  | nil => rfl
  | cons member members inductionHypothesis =>
      rw [List.map_cons, depthOfMembers, depthOfMembers, inductionHypothesis]

end Json

/-! ## Documents of programs -/

@[simp]
theorem Expr.toList_appendJson (items : List Expr) :
    (appendJson items #[]).toList = items.map toJson := by
  suffices appended : ∀ done,
      (appendJson items done).toList = done.toList ++ items.map toJson from
    appended #[]
  intro done
  induction items generalizing done with
  | nil => simp [appendJson]
  | cons item items inductionHypothesis => simp [appendJson, inductionHypothesis]

@[simp]
theorem Stmt.toList_appendJson (stmts : List Stmt) :
    (appendJson stmts #[]).toList = stmts.map toJson := by
  suffices appended : ∀ done,
      (appendJson stmts done).toList = done.toList ++ stmts.map toJson from
    appended #[]
  intro done
  induction stmts generalizing done with
  | nil => simp [appendJson]
  | cons stmt stmts inductionHypothesis => simp [appendJson, inductionHypothesis]

open Json

mutual

theorem Expr.written_toJson (expr : Expr) : expr.toJson.Written := by
  cases expr with
  | integer value => exact written_tagged _ (written_ofInt _)
  | boolean value => exact written_tagged _ trivial
  | string content => exact written_tagged _ (written_ofText _)
  | identifier name => exact written_tagged _ (written_ofText _)
  | unary operator operand =>
      have written := Expr.written_toJson operand
      exact written_tagged _ (written_record (by simp [written_ofText, written]))
  | binary operator left right =>
      have writtenLeft := Expr.written_toJson left
      have writtenRight := Expr.written_toJson right
      exact written_tagged _
        (written_record (by simp [written_ofText, writtenLeft, writtenRight]))
  | array items =>
      have written := written_array (Expr.written_map_toJson items)
      rw [Expr.toJson, Expr.toList_appendJson]
      exact written_tagged _ written
  | call callee arguments =>
      have writtenCallee := Expr.written_toJson callee
      have writtenArguments := written_array (Expr.written_map_toJson arguments)
      rw [Expr.toJson, Expr.toList_appendJson]
      exact written_tagged _ (written_record (by simp [writtenCallee, writtenArguments]))
  | index collection position =>
      have writtenCollection := Expr.written_toJson collection
      have writtenPosition := Expr.written_toJson position
      exact written_tagged _
        (written_record (by simp [writtenCollection, writtenPosition]))
  | conditional condition consequence alternative =>
      have writtenCondition := Expr.written_toJson condition
      have writtenConsequence := written_array (Stmt.written_map_toJson consequence)
      cases alternative with
      | none =>
          have writtenNull : Json.null.Written := trivial
          rw [Expr.toJson, Stmt.toList_appendJson]
          exact written_tagged _
            (written_record (by simp [writtenCondition, writtenConsequence, writtenNull]))
      | some alternative =>
          have writtenAlternative := written_array (Stmt.written_map_toJson alternative)
          rw [Expr.toJson, Stmt.toList_appendJson, Stmt.toList_appendJson]
          exact written_tagged _ (written_record
            (by simp [writtenCondition, writtenConsequence, writtenAlternative]))

theorem Expr.written_map_toJson (items : List Expr) :
    ∀ document ∈ items.map Expr.toJson, document.Written := by
  cases items with
  | nil => exact List.forall_mem_nil _
  | cons item items =>
      exact List.forall_mem_cons.mpr ⟨Expr.written_toJson item, Expr.written_map_toJson items⟩

theorem Stmt.written_toJson (stmt : Stmt) : stmt.toJson.Written := by
  cases stmt with
  | binding name value span =>
      have written := Expr.written_toJson value
      exact written_tagged _ (written_record (by simp [written_ofText, written]))
  | expression value span =>
      have written := Expr.written_toJson value
      exact written_tagged _ (written_record (by simp [written]))

theorem Stmt.written_map_toJson (stmts : List Stmt) :
    ∀ document ∈ stmts.map Stmt.toJson, document.Written := by
  cases stmts with
  | nil => exact List.forall_mem_nil _
  | cons stmt stmts =>
      exact List.forall_mem_cons.mpr ⟨Stmt.written_toJson stmt, Stmt.written_map_toJson stmts⟩

end

/-! ## Reading documents of programs -/

@[simp]
theorem UnaryOperator.ofDocumentName?_documentName (operator : UnaryOperator) :
    ofDocumentName? operator.documentName = some operator := by
  cases operator <;> rfl

@[simp]
theorem BinaryOperator.ofDocumentName?_documentName (operator : BinaryOperator) :
    ofDocumentName? operator.documentName = some operator := by
  cases operator <;> rfl

theorem ite_some_bind {α β : Type} (condition : Prop) [Decidable condition] (value : α)
    (next : α → Option β) :
    (if condition then some value else none).bind next =
      if condition then next value else none := by
  split <;> rfl

mutual

/-- The document of an expression is read back, unless it is too deep. A form is looked at
only if as many arrays and objects may be opened as it needs itself, so there is one case
for each number that is too small, and one in which the parts are read. -/
theorem Expr.ofJson?_toJson (expr : Expr) (limit : Nat) :
    Expr.ofJson? limit expr.toJson =
      if expr.toJson.depth ≤ limit then some expr.withoutSpans else none := by
  cases expr with
  | integer value =>
      rw [Expr.toJson, depth_tagged, depth_ofInt, tagged]
      rcases limit with _ | limit
      · simp [Expr.ofJson?]
      · simp [Expr.ofJson?, Expr.withoutSpans]
  | boolean value =>
      rw [Expr.toJson, depth_tagged, tagged]
      rcases limit with _ | limit
      · simp [Expr.ofJson?]
      · simp [Expr.ofJson?, Expr.withoutSpans, depth]
  | string content =>
      rw [Expr.toJson, depth_tagged, depth_ofText, tagged]
      rcases limit with _ | limit
      · simp [Expr.ofJson?]
      · simp [Expr.ofJson?, Expr.withoutSpans]
  | identifier name =>
      rw [Expr.toJson, depth_tagged, depth_ofText, tagged]
      rcases limit with _ | limit
      · simp [Expr.ofJson?]
      · simp [Expr.ofJson?, Expr.withoutSpans]
  | unary operator operand =>
      have read := Expr.ofJson?_toJson operand
      rw [Expr.toJson, depth_tagged, depth_record, tagged]
      rcases limit with _ | _ | limit
      · simp [Expr.ofJson?]
      · simp [Expr.ofJson?]
      · simp [Expr.ofJson?, fields?_record, read, ite_some_bind, depthOfMembers,
          Expr.withoutSpans]
  | binary operator left right =>
      have readLeft := Expr.ofJson?_toJson left
      have readRight := Expr.ofJson?_toJson right
      rw [Expr.toJson, depth_tagged, depth_record, tagged]
      rcases limit with _ | _ | limit
      · simp [Expr.ofJson?]
      · simp [Expr.ofJson?]
      · simp [Expr.ofJson?, fields?_record, readLeft, readRight, ite_some_bind, depthOfMembers,
          Expr.withoutSpans, ite_and]
  | array items =>
      have read := Expr.mapM_ofJson?_toJson items
      rw [Expr.toJson, depth_tagged, tagged, Expr.toList_appendJson, depth]
      rcases limit with _ | _ | limit
      · simp [Expr.ofJson?]
      · simp [Expr.ofJson?]
      · simp [Expr.ofJson?, read, ite_some_bind, Expr.withoutSpans]
  | call callee arguments =>
      have readCallee := Expr.ofJson?_toJson callee
      have readArguments := Expr.mapM_ofJson?_toJson arguments
      rw [Expr.toJson, Expr.toList_appendJson, depth_tagged, depth_record, tagged]
      rcases limit with _ | _ | _ | limit
      · simp [Expr.ofJson?]
      · simp [Expr.ofJson?]
      · simp [Expr.ofJson?, depthOfMembers, depth]
      · simp [Expr.ofJson?, fields?_record, readCallee, readArguments, ite_some_bind,
          depthOfMembers, depth, Expr.withoutSpans, ite_and]
  | index collection position =>
      have readCollection := Expr.ofJson?_toJson collection
      have readPosition := Expr.ofJson?_toJson position
      rw [Expr.toJson, depth_tagged, depth_record, tagged]
      rcases limit with _ | _ | limit
      · simp [Expr.ofJson?]
      · simp [Expr.ofJson?]
      · simp [Expr.ofJson?, fields?_record, readCollection, readPosition, ite_some_bind,
          depthOfMembers, Expr.withoutSpans, ite_and]
  | conditional condition consequence alternative =>
      have readCondition := Expr.ofJson?_toJson condition
      have readConsequence := Stmt.mapM_ofJson?_toJson consequence
      cases alternative with
      | none =>
          rw [Expr.toJson, Stmt.toList_appendJson, depth_tagged, depth_record, tagged]
          rcases limit with _ | _ | _ | limit
          · simp [Expr.ofJson?]
          · simp [Expr.ofJson?]
          · simp [Expr.ofJson?, depthOfMembers, depth]
          · simp [Expr.ofJson?, fields?_record, readCondition, readConsequence, ite_some_bind,
              depthOfMembers, depth, Expr.withoutSpans, ite_and]
      | some alternative =>
          have readAlternative := Stmt.mapM_ofJson?_toJson alternative
          rw [Expr.toJson, Stmt.toList_appendJson, Stmt.toList_appendJson, depth_tagged,
            depth_record, tagged]
          rcases limit with _ | _ | _ | limit
          · simp [Expr.ofJson?]
          · simp [Expr.ofJson?]
          · simp [Expr.ofJson?, depthOfMembers, depth]
          · simp [Expr.ofJson?, fields?_record, readCondition, readConsequence, readAlternative,
              ite_some_bind, depthOfMembers, depth, Expr.withoutSpans, ite_and]

theorem Expr.mapM_ofJson?_toJson (items : List Expr) (limit : Nat) :
    (items.map Expr.toJson).mapM (fun item => Expr.ofJson? limit item) =
      if depthOfItems (items.map Expr.toJson) ≤ limit then some (Expr.allWithoutSpans items)
      else none := by
  cases items with
  | nil => rfl
  | cons item items =>
      have read := Expr.ofJson?_toJson item limit
      have readAll := Expr.mapM_ofJson?_toJson items limit
      simp [read, readAll, ite_some_bind, depthOfItems, Expr.allWithoutSpans, ite_and]

theorem Stmt.ofJson?_toJson (stmt : Stmt) (limit : Nat) :
    Stmt.ofJson? limit stmt.toJson =
      if stmt.toJson.depth ≤ limit then some stmt.withoutSpans else none := by
  cases stmt with
  | binding name value span =>
      have read := Expr.ofJson?_toJson value
      rw [Stmt.toJson, depth_tagged, depth_record, tagged]
      rcases limit with _ | _ | limit
      · simp [Stmt.ofJson?]
      · simp [Stmt.ofJson?]
      · simp [Stmt.ofJson?, fields?_record, read, ite_some_bind, depthOfMembers,
          Stmt.withoutSpans]
  | expression value span =>
      have read := Expr.ofJson?_toJson value
      rw [Stmt.toJson, depth_tagged, depth_record, tagged]
      rcases limit with _ | _ | limit
      · simp [Stmt.ofJson?]
      · simp [Stmt.ofJson?]
      · simp [Stmt.ofJson?, fields?_record, read, ite_some_bind, depthOfMembers,
          Stmt.withoutSpans]

theorem Stmt.mapM_ofJson?_toJson (stmts : List Stmt) (limit : Nat) :
    (stmts.map Stmt.toJson).mapM (fun stmt => Stmt.ofJson? limit stmt) =
      if depthOfItems (stmts.map Stmt.toJson) ≤ limit then some (Stmt.allWithoutSpans stmts)
      else none := by
  cases stmts with
  | nil => rfl
  | cons stmt stmts =>
      have read := Stmt.ofJson?_toJson stmt limit
      have readAll := Stmt.mapM_ofJson?_toJson stmts limit
      simp [read, readAll, ite_some_bind, depthOfItems, Stmt.allWithoutSpans, ite_and]

end

/-- The document of a program is read back, unless it is too deep. -/
theorem Program.ofJson?_toJson (program : Program) :
    Program.ofJson? program.toJson =
      if program.toJson.depth ≤ maxDocumentDepth then some (Stmt.allWithoutSpans program)
      else none := by
  have read := Stmt.mapM_ofJson?_toJson program (maxDocumentDepth - 2)
  have limit : maxDocumentDepth = maxDocumentDepth - 2 + 2 := rfl
  rw [Program.toJson, Stmt.toList_appendJson, depth_record, limit]
  simp [Program.ofJson?, fields?_record, read, depthOfMembers, depth]

theorem Program.written_toJson (program : Program) : program.toJson.Written := by
  have written := written_array (Stmt.written_map_toJson program)
  rw [Program.toJson, Stmt.toList_appendJson]
  exact written_record (by simp [written])

/-! ## Documents without spans -/

mutual

theorem Expr.toJson_withoutSpans (expr : Expr) : expr.withoutSpans.toJson = expr.toJson := by
  cases expr with
  | integer | boolean | string | identifier => rfl
  | unary operator operand =>
      rw [Expr.withoutSpans, Expr.toJson, Expr.toJson, Expr.toJson_withoutSpans operand]
  | binary operator left right =>
      rw [Expr.withoutSpans, Expr.toJson, Expr.toJson, Expr.toJson_withoutSpans left,
        Expr.toJson_withoutSpans right]
  | array items =>
      rw [Expr.withoutSpans, Expr.toJson, Expr.toJson, Expr.toList_appendJson,
        Expr.toList_appendJson, Expr.map_toJson_withoutSpans items]
  | call callee arguments =>
      rw [Expr.withoutSpans, Expr.toJson, Expr.toJson, Expr.toList_appendJson,
        Expr.toList_appendJson, Expr.toJson_withoutSpans callee,
        Expr.map_toJson_withoutSpans arguments]
  | index collection position =>
      rw [Expr.withoutSpans, Expr.toJson, Expr.toJson, Expr.toJson_withoutSpans collection,
        Expr.toJson_withoutSpans position]
  | conditional condition consequence alternative =>
      have sameCondition := Expr.toJson_withoutSpans condition
      have sameConsequence := Stmt.map_toJson_withoutSpans consequence
      cases alternative with
      | none =>
          simp only [Expr.withoutSpans, Expr.toJson, Stmt.toList_appendJson, sameCondition,
            sameConsequence]
      | some alternative =>
          have sameAlternative := Stmt.map_toJson_withoutSpans alternative
          simp only [Expr.withoutSpans, Expr.toJson, Stmt.toList_appendJson, sameCondition,
            sameConsequence, sameAlternative]

theorem Expr.map_toJson_withoutSpans (items : List Expr) :
    (Expr.allWithoutSpans items).map Expr.toJson = items.map Expr.toJson := by
  cases items with
  | nil => rfl
  | cons item items =>
      rw [Expr.allWithoutSpans, List.map_cons, List.map_cons, Expr.toJson_withoutSpans item,
        Expr.map_toJson_withoutSpans items]

theorem Stmt.toJson_withoutSpans (stmt : Stmt) : stmt.withoutSpans.toJson = stmt.toJson := by
  cases stmt with
  | binding name value span =>
      rw [Stmt.withoutSpans, Stmt.toJson, Stmt.toJson, Expr.toJson_withoutSpans value]
  | expression value span =>
      rw [Stmt.withoutSpans, Stmt.toJson, Stmt.toJson, Expr.toJson_withoutSpans value]

theorem Stmt.map_toJson_withoutSpans (stmts : List Stmt) :
    (Stmt.allWithoutSpans stmts).map Stmt.toJson = stmts.map Stmt.toJson := by
  cases stmts with
  | nil => rfl
  | cons stmt stmts =>
      rw [Stmt.allWithoutSpans, List.map_cons, List.map_cons, Stmt.toJson_withoutSpans stmt,
        Stmt.map_toJson_withoutSpans stmts]

end

theorem Program.toJson_allWithoutSpans (program : Program) :
    Program.toJson (Stmt.allWithoutSpans program) = program.toJson := by
  rw [Program.toJson, Program.toJson, Stmt.toList_appendJson, Stmt.toList_appendJson,
    Stmt.map_toJson_withoutSpans]

/-! ## Compiling without spans -/

def CompileFailure.withoutSpan (failure : CompileFailure) : CompileFailure :=
  ⟨⟨failure.error.cause, .unknown⟩, failure.draft⟩

theorem Stmt.compile_withoutSpans (stmt : Stmt) (draft : Draft) :
    stmt.withoutSpans.compile draft =
      (stmt.compile draft).mapError CompileFailure.withoutSpan := by
  have span : stmt.withoutSpans.span = .unknown := by cases stmt <;> rfl
  rw [Stmt.compile, Stmt.compile, Stmt.compileBody_eq_performAll,
    Stmt.compileBody_eq_performAll, Stmt.actions_withoutSpans, span]
  cases Action.performAll stmt.actions draft <;> rfl

theorem Program.compile_allWithoutSpans (program : Program) (draft : Draft) :
    Program.compile (Stmt.allWithoutSpans program) draft =
      (program.compile draft).mapError CompileFailure.withoutSpan := by
  induction program generalizing draft with
  | nil => rfl
  | cons stmt program inductionHypothesis =>
      rw [Stmt.allWithoutSpans, compile, compile, List.foldlM_cons, List.foldlM_cons,
        Stmt.compile_withoutSpans]
      cases stmt.compile draft with
      | ok middle => exact inductionHypothesis middle
      | error failure => rfl

/-- The document of a program, in either layout, is read as the program without its spans,
unless it opens too many arrays and objects inside one another. The program that is read
has the same document, and from every draft it is compiled to the same draft, or fails
for the same cause. -/
theorem Program.read?_toJson (program : Program) :
    let back : Program := Stmt.allWithoutSpans program
    (∀ text ∈ [program.toJson.compact, program.toJson.indented],
      Program.read? text =
        if program.toJson.depth ≤ maxDocumentDepth then some back else none) ∧
    (back.toJson.compact = program.toJson.compact ∧
      back.toJson.indented = program.toJson.indented) ∧
    ∀ draft : Draft,
      back.compile draft = (program.compile draft).mapError CompileFailure.withoutSpan := by
  intro back
  have written := program.written_toJson
  have same : back.toJson = program.toJson := program.toJson_allWithoutSpans
  refine ⟨?_, ⟨?_, ?_⟩, fun draft => program.compile_allWithoutSpans draft⟩
  · intro text member
    have read : Json.read? text = some program.toJson := by
      rcases List.mem_pair.mp member with rfl | rfl
      · exact read?_compact written
      · exact read?_indented written
    rw [Program.read?, read, ← program.ofJson?_toJson]
    rfl
  · rw [same]
  · rw [same]

end ExprMachine
