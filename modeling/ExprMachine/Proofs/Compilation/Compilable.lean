import ExprMachine.Proofs.Compilation.References
import ExprMachine.Proofs.Compilation.Safety

/-!
# Which programs are compiled

Compilation goes through a program and stops at the first construct that it cannot
encode. Which programs it gets through is said here by looking at the whole program: at
the expressions that occur in it, at the names that are bound before they are used, and
at the slots that names are given in order.
-/

namespace ExprMachine

/-! ## What occurs in a program -/

mutual

/-- The expression and all expressions that occur in it, also in statements inside it. -/
def Expr.nodes : Expr → List Expr
  | .integer value => [.integer value]
  | .boolean value => [.boolean value]
  | .string content => [.string content]
  | .identifier name => [.identifier name]
  | .unary operator operand => .unary operator operand :: operand.nodes
  | .binary operator left right =>
      .binary operator left right :: (left.nodes ++ right.nodes)
  | .array items => .array items :: Expr.nodesOfAll items
  | .call callee arguments =>
      .call callee arguments :: (callee.nodes ++ Expr.nodesOfAll arguments)
  | .index collection position =>
      .index collection position :: (collection.nodes ++ position.nodes)
  | .conditional condition consequence none =>
      .conditional condition consequence none ::
        (condition.nodes ++ Stmt.nodesOfAll consequence)
  | .conditional condition consequence (some alternative) =>
      .conditional condition consequence (some alternative) ::
        (condition.nodes ++ (Stmt.nodesOfAll consequence ++ Stmt.nodesOfAll alternative))

def Expr.nodesOfAll : List Expr → List Expr
  | [] => []
  | item :: items => item.nodes ++ Expr.nodesOfAll items

def Stmt.nodes : Stmt → List Expr
  | .binding _ value _ => value.nodes
  | .expression value _ => value.nodes

def Stmt.nodesOfAll : List Stmt → List Expr
  | [] => []
  | stmt :: stmts => stmt.nodes ++ Stmt.nodesOfAll stmts

end

def Program.nodes (program : Program) : List Expr :=
  Stmt.nodesOfAll program

def Expr.literal? : Expr → Option Literal
  | .integer value => some (.integer value)
  | .string content => some (.string content)
  | _ => none

def Stmt.boundName? : Stmt → Option String
  | .binding name _ _ => some name
  | .expression _ _ => none

/-- The names that the statements of a program bind, in order. -/
def Program.boundNames (program : Program) : List String :=
  program.filterMap Stmt.boundName?

/-! ## Programs that are compiled -/

/-- What a program must keep to so that it can be compiled with a symbol table and a pool
of the given size. -/
structure Program.Compilable (symbols : SymbolTable) (poolSize : Nat)
    (program : Program) : Prop where
  noIndex : ∀ collection position, .index collection position ∉ nodes program
  noConditional : ∀ condition consequence alternative,
    .conditional condition consequence alternative ∉ nodes program
  noModulo : ∀ left right, .binary .modulo left right ∉ nodes program
  shortArrays : ∀ items, .array items ∈ nodes program → items.length ≤ 65535
  shortCalls : ∀ callee arguments,
    .call callee arguments ∈ nodes program → arguments.length ≤ 255
  known : ∀ front stmt back, program = front ++ stmt :: back →
    ∀ name, .identifier name ∈ stmt.nodes →
      (symbols.resolve? name).isSome ∨ name ∈ boundNames front
  slots : ∀ name ∈ boundNames program, symbols.slot (boundNames program) name < 65536
  room : (nodes program).filterMap Expr.literal? ≠ [] →
    poolSize + ((nodes program).filterMap Expr.literal?).length ≤ 65536

/-! ## Expressions -/

/-- The expression can be encoded if those inside it can. -/
def Expr.Encodable (known : String → Prop) : Expr → Prop
  | .identifier name => known name
  | .binary operator _ _ => operator ≠ .modulo
  | .array items => items.length ≤ 65535
  | .call _ arguments => arguments.length ≤ 255
  | .index _ _ => False
  | .conditional _ _ _ => False
  | _ => True

section Expressions

variable {symbols : SymbolTable}

mutual

/-- An expression is supported when everything that occurs in it can be encoded. -/
theorem Expr.supported_iff (expr : Expr) : expr.Supported symbols ↔
    ∀ node ∈ expr.nodes, node.Encodable fun name => (symbols.resolve? name).isSome := by
  cases expr with
  | integer _ => simp [Supported, nodes, Encodable]
  | boolean _ => simp [Supported, nodes, Encodable]
  | string _ => simp [Supported, nodes, Encodable]
  | identifier name => simp [Supported, nodes, Encodable]
  | unary operator operand =>
      rw [Supported, nodes, List.forall_mem_cons, Expr.supported_iff operand]
      simp [Encodable]
  | binary operator left right =>
      rw [Supported, nodes, List.forall_mem_cons, List.forall_mem_append,
        Expr.supported_iff left, Expr.supported_iff right]
      rfl
  | array items =>
      rw [Supported, nodes, List.forall_mem_cons, Expr.allSupported_iff items]
      rfl
  | call callee arguments =>
      rw [Supported, nodes, List.forall_mem_cons, List.forall_mem_append,
        Expr.supported_iff callee, Expr.allSupported_iff arguments]
      rfl
  | index collection position => simp [Supported, nodes, Encodable]
  | conditional condition consequence alternative =>
      cases alternative <;> simp [Supported, nodes, Encodable]

theorem Expr.allSupported_iff (items : List Expr) : Expr.AllSupported symbols items ↔
    ∀ node ∈ Expr.nodesOfAll items,
      node.Encodable fun name => (symbols.resolve? name).isSome := by
  cases items with
  | nil => simp [Expr.AllSupported, Expr.nodesOfAll]
  | cons item items =>
      rw [Expr.AllSupported, Expr.nodesOfAll, List.forall_mem_append,
        Expr.supported_iff item, Expr.allSupported_iff items]

end

mutual

/-- The literals of an expression that can be encoded are those that occur in it. They
are counted in another order where less-than changes that of its operands. -/
theorem Expr.literals_perm (expr : Expr) (supported : expr.Supported symbols) :
    expr.literals.Perm (expr.nodes.filterMap Expr.literal?) := by
  cases expr with
  | integer _ => exact .refl _
  | boolean _ => exact .refl _
  | string _ => exact .refl _
  | identifier _ => exact .refl _
  | unary operator operand => exact Expr.literals_perm operand supported
  | binary operator left right =>
      obtain ⟨_, leftSupported, rightSupported⟩ := supported
      have both := (Expr.literals_perm left leftSupported).append
        (Expr.literals_perm right rightSupported)
      rw [← List.filterMap_append] at both
      cases operator with
      | lessThan => exact List.perm_append_comm.trans both
      | _ => exact both
  | array items => exact Expr.literalsOfAll_perm items supported.2
  | call callee arguments =>
      obtain ⟨_, calleeSupported, argumentsSupported⟩ := supported
      have both := (Expr.literals_perm callee calleeSupported).append
        (Expr.literalsOfAll_perm arguments argumentsSupported)
      rw [← List.filterMap_append] at both
      exact both
  | index _ _ => exact supported.elim
  | conditional _ _ _ => exact supported.elim

theorem Expr.literalsOfAll_perm (items : List Expr)
    (supported : Expr.AllSupported symbols items) :
    (Expr.literalsOfAll items).Perm
      ((Expr.nodesOfAll items).filterMap Expr.literal?) := by
  cases items with
  | nil => exact .refl _
  | cons item items =>
      rw [Expr.literalsOfAll, Expr.nodesOfAll, List.filterMap_append]
      exact (Expr.literals_perm item supported.1).append
        (Expr.literalsOfAll_perm items supported.2)

end

/-- The instructions that push constants, in order, for constants in a row. -/
def constantsFrom (first count : Nat) : List Instruction :=
  (List.range' first count).map fun index => ⟨.constant, [index]⟩

theorem constantsFrom_append (first count more : Nat) :
    constantsFrom first count ++ constantsFrom (first + count) more =
      constantsFrom first (count + more) := by
  rw [constantsFrom, constantsFrom, ← List.map_append, List.range'_append_1]
  rfl

/-- The instructions among code that push constants. -/
def pushedConstants (code : List Instruction) : List Instruction :=
  code.filter (·.opcode = .constant)

theorem pushedConstants_append (front back : List Instruction) :
    pushedConstants (front ++ back) = pushedConstants front ++ pushedConstants back :=
  List.filter_append ..

theorem pushedConstants_operands {front back : List Instruction} {first count more : Nat}
    (last : List Instruction)
    (frontPushed : pushedConstants front = constantsFrom first count)
    (backPushed : pushedConstants back = constantsFrom (first + count) more)
    (lastPlain : pushedConstants last = []) :
    pushedConstants (front ++ back ++ last) = constantsFrom first (count + more) := by
  rw [pushedConstants_append, pushedConstants_append, frontPushed, backPushed, lastPlain,
    List.append_nil, constantsFrom_append]

mutual

/-- Constants are pushed in the order in which the literals are counted. -/
theorem Expr.pushedConstants_code (expr : Expr) (first : Nat) :
    pushedConstants (expr.code symbols first) =
      constantsFrom first expr.literals.length := by
  cases expr with
  | integer _ => rfl
  | string _ => rfl
  | boolean value => cases value <;> rfl
  | identifier name =>
      rw [Expr.code, SymbolTable.code]
      split <;> rfl
  | unary operator operand =>
      rw [Expr.code, pushedConstants_append, Expr.pushedConstants_code operand]
      cases operator <;> exact List.append_nil _
  | binary operator left right =>
      have inOrder (last : List Instruction) :=
        pushedConstants_operands last (Expr.pushedConstants_code left first)
          (Expr.pushedConstants_code right _)
      have swapped (last : List Instruction) :=
        pushedConstants_operands last (Expr.pushedConstants_code right first)
          (Expr.pushedConstants_code left _)
      cases operator with
      | lessThan =>
          rw [Expr.code, Expr.literals, List.length_append]
          exact swapped _ rfl
      | _ =>
          rw [Expr.code, Expr.literals, List.length_append]
          exact inOrder _ rfl
          all_goals nofun
  | array items =>
      rw [Expr.code, pushedConstants_append, Expr.pushedConstants_codeOfAll items]
      exact List.append_nil _
  | call callee arguments =>
      rw [Expr.code, Expr.literals, List.length_append]
      exact pushedConstants_operands _ (Expr.pushedConstants_code callee first)
        (Expr.pushedConstants_codeOfAll arguments _) rfl
  | index _ _ => rfl
  | conditional _ _ _ => rfl

theorem Expr.pushedConstants_codeOfAll (items : List Expr) (first : Nat) :
    pushedConstants (Expr.codeOfAll symbols items first) =
      constantsFrom first (Expr.literalsOfAll items).length := by
  cases items with
  | nil => rfl
  | cons item items =>
      rw [Expr.codeOfAll, Expr.literalsOfAll, pushedConstants_append,
        Expr.pushedConstants_code item, Expr.pushedConstants_codeOfAll items,
        constantsFrom_append, List.length_append]

end

theorem Stmt.nodes_eq (stmt : Stmt) : stmt.nodes = stmt.value.nodes := by
  cases stmt <;> rfl

theorem Program.nodes_cons (stmt : Stmt) (rest : Program) :
    nodes (stmt :: rest) = stmt.nodes ++ nodes rest := rfl

theorem Program.literals_perm (program : Program)
    (supported : program.Supported symbols) :
    program.literals.Perm (program.nodes.filterMap Expr.literal?) := by
  induction program generalizing symbols with
  | nil => exact .refl _
  | cons stmt rest inductionHypothesis =>
      rw [literals, nodes_cons, List.filterMap_append, Stmt.nodes_eq]
      exact (stmt.value.literals_perm supported.1.1).append
        (inductionHypothesis supported.2)

theorem Program.pushedConstants_code (program : Program) (first : Nat) :
    pushedConstants (program.code symbols first) =
      constantsFrom first program.literals.length := by
  induction program generalizing symbols first with
  | nil => rfl
  | cons stmt rest inductionHypothesis =>
      have finished : pushedConstants [stmt.finish symbols] = [] := by
        cases stmt <;> rfl
      rw [code, Stmt.code, pushedConstants_append, pushedConstants_append, finished,
        stmt.value.pushedConstants_code, inductionHypothesis, List.append_nil,
        literals, List.length_append]
      exact constantsFrom_append ..

end Expressions

/-! ## Whole programs -/

/-- Every name that is used is known at the start, or bound by an earlier statement. -/
def Program.NamesKnown (symbols : SymbolTable) (program : Program) : Prop :=
  ∀ front stmt back, program = front ++ stmt :: back →
    ∀ name, .identifier name ∈ stmt.nodes →
      (symbols.resolve? name).isSome ∨ name ∈ boundNames front

/-- Every name that is bound has a slot that an operand can number. -/
def Program.SlotsFit (symbols : SymbolTable) (program : Program) : Prop :=
  ∀ name ∈ boundNames program, symbols.slot (boundNames program) name < 65536

theorem Expr.encodable_iff {known : String → Prop} (expr : Expr) :
    expr.Encodable known ↔
      expr.Encodable (fun _ => True) ∧ ∀ name, .identifier name = expr → known name := by
  cases expr <;> simp [Encodable]

theorem Expr.forall_encodable_iff {known : String → Prop} (exprs : List Expr) :
    (∀ expr ∈ exprs, expr.Encodable known) ↔
      (∀ expr ∈ exprs, expr.Encodable fun _ => True) ∧
        ∀ name, .identifier name ∈ exprs → known name := by
  constructor
  · intro each
    refine ⟨fun expr member => (expr.encodable_iff.mp (each expr member)).1, ?_⟩
    exact fun name member => (Expr.encodable_iff _).mp (each _ member) |>.2 name rfl
  · rintro ⟨each, names⟩ expr member
    refine expr.encodable_iff.mpr ⟨each expr member, ?_⟩
    rintro name rfl
    exact names name member

section Programs

variable {symbols : SymbolTable} {stmt : Stmt} {rest : Program}

theorem Stmt.supported_iff : stmt.Supported symbols ↔
    (∀ node ∈ stmt.nodes, node.Encodable fun _ => True) ∧
      (∀ name, .identifier name ∈ stmt.nodes → (symbols.resolve? name).isSome) ∧
        stmt.FitsSlot symbols := by
  rw [Supported, Expr.supported_iff, Expr.forall_encodable_iff, Stmt.nodes_eq, and_assoc]

/-- After a statement the name that it binds is known too. -/
theorem Stmt.isSome_resolve?_symbolsAfter (name : String) :
    ((stmt.symbolsAfter symbols).resolve? name).isSome ↔
      (symbols.resolve? name).isSome ∨ name ∈ Program.boundNames [stmt] := by
  cases stmt with
  | expression value span => simp [symbolsAfter, Program.boundNames, boundName?]
  | binding bound value span =>
      rw [symbolsAfter, SymbolTable.resolve?_define]
      by_cases same : bound = name
      · simp [same, Program.boundNames, boundName?]
      · simp [same, Ne.symm same, Program.boundNames, boundName?]

theorem Program.boundNames_append (front back : Program) :
    boundNames (front ++ back) = boundNames front ++ boundNames back :=
  List.filterMap_append

theorem Program.namesKnown_cons : NamesKnown symbols (stmt :: rest) ↔
    (∀ name, .identifier name ∈ stmt.nodes → (symbols.resolve? name).isSome) ∧
      NamesKnown (stmt.symbolsAfter symbols) rest := by
  constructor
  · intro known
    refine ⟨fun name used => ?_, ?_⟩
    · exact (known [] stmt rest rfl name used).resolve_right List.not_mem_nil
    · rintro front user back rfl name used
      rw [Stmt.isSome_resolve?_symbolsAfter, or_assoc, ← List.mem_append,
        ← boundNames_append]
      exact known (stmt :: front) user back rfl name used
  · rintro ⟨first, known⟩ front user back shape name used
    cases front with
    | nil =>
        cases shape
        exact Or.inl (first name used)
    | cons _ front =>
        cases shape
        have later := known front user back rfl name used
        rwa [Stmt.isSome_resolve?_symbolsAfter, or_assoc, ← List.mem_append,
          ← boundNames_append] at later

theorem Program.slotsFit_cons : SlotsFit symbols (stmt :: rest) ↔
    stmt.FitsSlot symbols ∧ SlotsFit (stmt.symbolsAfter symbols) rest := by
  cases stmt with
  | expression value span => exact ⟨fun fits => ⟨trivial, fits⟩, And.right⟩
  | binding name value span =>
      have names : boundNames (.binding name value span :: rest) =
          name :: boundNames rest := rfl
      rw [SlotsFit, names, List.forall_mem_cons, SymbolTable.slot_cons_self]
      simp only [SlotsFit, Stmt.symbolsAfter, SymbolTable.slot_define]
      rfl

theorem Program.supported_iff (program : Program) : program.Supported symbols ↔
    (∀ node ∈ program.nodes, node.Encodable fun _ => True) ∧
      NamesKnown symbols program ∧ SlotsFit symbols program := by
  induction program generalizing symbols with
  | nil =>
      have known : NamesKnown symbols [] := fun front stmt back shape =>
        absurd shape.symm (by simp)
      exact iff_of_true trivial ⟨List.forall_mem_nil _, known, List.forall_mem_nil _⟩
  | cons stmt rest inductionHypothesis =>
      rw [Supported, Stmt.supported_iff, inductionHypothesis, namesKnown_cons,
        slotsFit_cons, nodes_cons, List.forall_mem_append]
      constructor
      · rintro ⟨⟨shape, known, fits⟩, restShape, restKnown, restFits⟩
        exact ⟨⟨shape, restShape⟩, ⟨known, restKnown⟩, fits, restFits⟩
      · rintro ⟨⟨shape, restShape⟩, ⟨known, restKnown⟩, fits, restFits⟩
        exact ⟨⟨shape, known, fits⟩, restShape, restKnown, restFits⟩

/-- The room for literals only depends on their number. -/
theorem Literal.haveRoom_iff_of_perm {poolSize : Nat} {literals others : List Literal}
    (same : literals.Perm others) : HaveRoom poolSize literals ↔
      (others ≠ [] → poolSize + others.length ≤ 65536) := by
  rw [HaveRoom, ← List.length_eq_zero_iff, same.length_eq, List.length_eq_zero_iff,
    or_iff_not_imp_left]
  rfl

/-- What is said of a program as a whole is what compilation checks step by step. -/
theorem Program.compilable_iff (program : Program) (poolSize : Nat) :
    program.Compilable symbols poolSize ↔
      program.Supported symbols ∧ Literal.HaveRoom poolSize program.literals := by
  constructor
  · intro compilable
    have shapes : ∀ node ∈ program.nodes, node.Encodable fun _ => True := by
      intro node member
      cases node with
      | binary operator left right =>
          rintro rfl
          exact compilable.noModulo left right member
      | array items => exact compilable.shortArrays items member
      | call callee arguments => exact compilable.shortCalls callee arguments member
      | index collection position => exact compilable.noIndex collection position member
      | conditional condition consequence alternative =>
          exact compilable.noConditional condition consequence alternative member
      | _ => exact trivial
    have supported : program.Supported symbols :=
      program.supported_iff.mpr ⟨shapes, compilable.known, compilable.slots⟩
    refine ⟨supported, ?_⟩
    exact (Literal.haveRoom_iff_of_perm (program.literals_perm supported)).mpr
      compilable.room
  · rintro ⟨supported, room⟩
    obtain ⟨shapes, known, slots⟩ := program.supported_iff.mp supported
    exact
      { noIndex := fun _ _ member => shapes _ member
        noConditional := fun _ _ _ member => shapes _ member
        noModulo := fun _ _ member => shapes _ member rfl
        shortArrays := fun _ member => shapes _ member
        shortCalls := fun _ _ member => shapes _ member
        known := known
        slots := slots
        room := (Literal.haveRoom_iff_of_perm (program.literals_perm supported)).mp room }

end Programs

/-! ## What a failure leaves -/

/-- Code and constants are only appended. -/
structure Draft.Grows (draft later : Draft) : Prop where
  code : draft.code.toList <+: later.code.toList
  constants : draft.constants.toList <+: later.constants.toList

namespace Draft.Grows

variable {draft middle later : Draft}

theorem refl (draft : Draft) : draft.Grows draft :=
  ⟨List.prefix_refl _, List.prefix_refl _⟩

theorem trans (first : draft.Grows middle) (second : middle.Grows later) :
    draft.Grows later :=
  ⟨first.code.trans second.code, first.constants.trans second.constants⟩

theorem emit (grows : draft.Grows later) (opcode : Opcode) (operands : List Nat) :
    draft.Grows (later.emit opcode operands) where
  code := by
    rw [Draft.emit, Array.toList_push]
    exact grows.code.trans (List.prefix_append ..)
  constants := grows.constants

theorem emitConstant (draft : Draft) (value : Value) :
    draft.Grows (reached (draft.emitConstant value)) := by
  unfold Draft.emitConstant
  split
  · have grows : draft.Grows { draft with constants := draft.constants.push value } :=
      ⟨List.prefix_refl _, by simp⟩
    exact grows.emit _ _
  · exact refl draft

end Draft.Grows

namespace Action

open Draft

theorem perform_grows (action : Action) (draft : Draft) :
    draft.Grows (reached (action.perform draft)) := by
  cases action with
  | append opcode operands => exact (Grows.refl draft).emit opcode operands
  | refuse cause => exact .refl draft
  | mention place =>
      cases place with
      | literal literal =>
          cases literal with
          | integer value => exact .emitConstant draft _
          | string content =>
              have grows := Grows.emitConstant { draft with fresh := draft.fresh + 1 }
                (.string draft.fresh content)
              exact ⟨grows.code, grows.constants⟩
      | use name =>
          rw [perform, Mention.perform, emitName]
          split
          · exact (Grows.refl draft).emit _ _
          · exact (Grows.refl draft).emit _ _
          · exact .refl draft
      | binding name =>
          rw [perform, Mention.perform, emitBinding]
          have grows : draft.Grows
              { draft with symbols := (draft.symbols.define name).2 } :=
            ⟨List.prefix_refl _, List.prefix_refl _⟩
          dsimp only
          split
          · exact grows.emit _ _
          · exact grows

theorem performAll_grows (actions : List Action) (draft : Draft) :
    draft.Grows (reached (performAll actions draft)) := by
  induction actions generalizing draft with
  | nil => exact .refl draft
  | cons action actions inductionHypothesis =>
      have first := action.perform_grows draft
      rw [performAll_cons]
      cases performed : action.perform draft with
      | ok next =>
          rw [performed] at first
          exact first.trans (inductionHypothesis next)
      | error rejection =>
          rw [performed] at first
          exact first

end Action

theorem Stmt.grows_of_compile_error {stmt : Stmt} {draft : Draft}
    {failure : CompileFailure} (failed : stmt.compile draft = .error failure) :
    draft.Grows failure.draft ∧ failure.error.span = stmt.span := by
  have grows := Action.performAll_grows stmt.actions draft
  rw [compile, compileBody_eq_performAll] at failed
  cases performed : Action.performAll stmt.actions draft with
  | ok next =>
      rw [performed] at failed
      cases failed
  | error rejection =>
      rw [performed] at failed grows
      cases failed
      exact ⟨grows, rfl⟩

/-- A program that is not compiled has a first statement that is not. -/
theorem Program.exists_of_compile_error {program : Program} {draft : Draft}
    {failure : CompileFailure} (failed : program.compile draft = .error failure) :
    ∃ k stmt before, program[k]? = some stmt ∧
      compile (program.take k) draft = .ok before ∧ stmt.compile before = .error failure := by
  induction program generalizing draft with
  | nil => cases failed
  | cons first rest inductionHypothesis =>
      rw [compile, List.foldlM_cons] at failed
      cases compiled : first.compile draft with
      | error other =>
          rw [compiled] at failed
          cases failed
          exact ⟨0, first, draft, rfl, rfl, compiled⟩
      | ok middle =>
          rw [compiled] at failed
          obtain ⟨k, stmt, before, found, begun, stuck⟩ := inductionHypothesis failed
          refine ⟨k + 1, stmt, before, found, ?_, stuck⟩
          rw [List.take_succ_cons, compile, List.foldlM_cons, compiled]
          exact begun

/-- A program is compiled exactly when it keeps to what is said in `Compilable`. The pool
is then extended by its literals, each as often as it occurs, in the order in which the
code pushes them. Otherwise the error tells the first statement with which the program no
longer keeps to it, and what the statements before it are compiled to comes first in what
is left. -/
theorem Program.compile_exact (program : Program) (symbols : SymbolTable)
    (constants : Array Value) (fresh : Cell) :
    match program.compile (.start symbols constants fresh) with
    | .ok draft => program.Compilable symbols constants.size ∧
        program.literals.Perm (program.nodes.filterMap Expr.literal?) ∧
        draft.constants =
          constants ++ (Literal.constants fresh program.literals).toArray ∧
        draft.code.toList.filter (·.opcode = .constant) =
          (List.range' constants.size program.literals.length).map fun index =>
            ⟨.constant, [index]⟩
    | .error failure => ¬ program.Compilable symbols constants.size ∧
        ∃ k stmt before, program[k]? = some stmt ∧ failure.error.span = stmt.span ∧
          (∀ count ≤ k, Compilable symbols constants.size (program.take count)) ∧
          ¬ Compilable symbols constants.size (program.take (k + 1)) ∧
          compile (program.take k) (.start symbols constants fresh) = .ok before ∧
          before.code.toList <+: failure.draft.code.toList ∧
          before.constants.toList <+: failure.draft.constants.toList := by
  have compiles (part : Program) : part.Compilable symbols constants.size ↔
      ∃ draft, part.compile (.start symbols constants fresh) = .ok draft := by
    simp only [compilable_iff, compile_eq_ok_iff, exists_and_left, exists_eq', and_true]
    rfl
  cases outcome : program.compile (.start symbols constants fresh) with
  | ok draft =>
      obtain ⟨supported, room, rfl⟩ := of_compile_start outcome
      exact ⟨(compiles program).mpr ⟨_, outcome⟩, program.literals_perm supported, rfl,
        program.pushedConstants_code constants.size⟩
  | error failure =>
      obtain ⟨k, stmt, before, found, begun, stuck⟩ := exists_of_compile_error outcome
      obtain ⟨grows, span⟩ := Stmt.grows_of_compile_error stuck
      refine ⟨fun compilable => ?_, k, stmt, before, found, span, fun count earlier => ?_,
        fun compilable => ?_, begun, grows.code, grows.constants⟩
      · obtain ⟨draft, compiled⟩ := (compiles program).mp compilable
        cases outcome.symm.trans compiled
      · have split := List.take_append_drop count (program.take k)
        rw [List.take_take, Nat.min_eq_left earlier] at split
        rw [← split] at begun
        obtain ⟨middle, _, compiled, _⟩ := exists_compile_front begun
        exact (compiles _).mpr ⟨middle, compiled⟩
      · obtain ⟨draft, compiled⟩ := (compiles _).mp compilable
        rw [List.take_add_one, found, Option.toList_some, compile_append,
          begun] at compiled
        have single : compile [stmt] before = .error failure := by
          rw [compile, List.foldlM_cons, stuck]
          rfl
        cases single.symm.trans compiled

end ExprMachine
