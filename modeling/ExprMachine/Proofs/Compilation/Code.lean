import ExprMachine.Compilation
import ExprMachine.Proofs.Sequencing

/-!
# The code of a program

What a successful compilation appends to a draft is a function of the program,
the symbol table and the size of the pool of constants: the code and the
literals of the program, in the order in which they are evaluated. The main
statements say that compilation succeeds exactly when the program is supported
and its literals have room in the pool, and that it then appends these.
-/

namespace ExprMachine

/-! ## Literals -/

/-- A literal that takes a place in the pool of constants. -/
inductive Literal where
  | integer (value : Word)
  | string (content : String)
deriving DecidableEq, Repr

namespace Literal

/-- The constants of literals. Strings are built in the cells from the given one
on. -/
def constants (cell : Cell) : List Literal → List Value
  | [] => []
  | integer value :: literals => .integer value :: constants cell literals
  | string content :: literals => .string cell content :: constants (cell + 1) literals

/-- The number of cells that the constants of literals are built in. -/
def cellCount : List Literal → Nat
  | [] => 0
  | integer _ :: literals => cellCount literals
  | string _ :: literals => cellCount literals + 1

@[simp]
theorem length_constants (cell : Cell) (literals : List Literal) :
    (constants cell literals).length = literals.length := by
  induction literals generalizing cell with
  | nil => rfl
  | cons literal literals inductionHypothesis =>
      cases literal <;> simp [constants, inductionHypothesis]

@[simp]
theorem cellCount_append (front back : List Literal) :
    cellCount (front ++ back) = cellCount front + cellCount back := by
  induction front with
  | nil => simp [cellCount]
  | cons literal front inductionHypothesis =>
      cases literal with
      | integer _ => exact inductionHypothesis
      | string _ =>
          simp only [List.cons_append, cellCount, inductionHypothesis]
          omega

theorem constants_append (cell : Cell) (front back : List Literal) :
    constants cell (front ++ back) =
      constants cell front ++ constants (cell + cellCount front) back := by
  induction front generalizing cell with
  | nil => rfl
  | cons literal front inductionHypothesis =>
      cases literal with
      | integer _ =>
          simp only [List.cons_append, constants, inductionHypothesis, cellCount]
      | string _ =>
          simp only [List.cons_append, constants, inductionHypothesis, cellCount]
          rw [Nat.add_assoc, Nat.add_comm 1]

/-- A pool of the given size can take literals, if there are any. -/
def HaveRoom (size : Nat) (literals : List Literal) : Prop :=
  literals = [] ∨ size + literals.length ≤ maxConstants

theorem haveRoom_append (size : Nat) (front back : List Literal) :
    HaveRoom size (front ++ back) ↔
      HaveRoom size front ∧ HaveRoom (size + front.length) back := by
  unfold HaveRoom
  cases back with
  | nil => simp
  | cons literal back =>
      simp only [List.append_eq_nil_iff, reduceCtorEq, and_false, false_or,
        List.length_append, List.length_cons]
      omega

end Literal

mutual

/-- The literals of an expression in the order in which they are evaluated. -/
def Expr.literals : Expr → List Literal
  | .integer value => [.integer value]
  | .string content => [.string content]
  | .boolean _ => []
  | .identifier _ => []
  | .unary _ operand => operand.literals
  | .binary .lessThan left right => right.literals ++ left.literals
  | .binary _ left right => left.literals ++ right.literals
  | .array items => Expr.literalsOfAll items
  | .call callee arguments => callee.literals ++ Expr.literalsOfAll arguments
  | .index _ _ => []
  | .conditional _ _ _ => []

def Expr.literalsOfAll : List Expr → List Literal
  | [] => []
  | item :: items => item.literals ++ Expr.literalsOfAll items

end

/-! ## Code -/

/-- The instruction that pushes the value of a name. -/
def SymbolTable.code (symbols : SymbolTable) (name : String) : List Instruction :=
  match symbols.resolve? name with
  | some ⟨.global, slot⟩ => [⟨.getGlobal, [slot]⟩]
  | some ⟨.builtin, index⟩ => [⟨.getBuiltin, [index]⟩]
  | none => []

mutual

/-- The code of an expression, the first literal of which has the given index. -/
def Expr.code (symbols : SymbolTable) : Expr → (first : Nat) → List Instruction
  | .integer _, first => [⟨.constant, [first]⟩]
  | .string _, first => [⟨.constant, [first]⟩]
  | .boolean true, _ => [⟨.pushTrue, []⟩]
  | .boolean false, _ => [⟨.pushFalse, []⟩]
  | .identifier name, _ => symbols.code name
  | .unary operator operand, first =>
      operand.code symbols first ++ [⟨operator.opcode, []⟩]
  | .binary .lessThan left right, first =>
      right.code symbols first ++
        left.code symbols (first + right.literals.length) ++ [⟨.greaterThan, []⟩]
  | .binary operator left right, first =>
      left.code symbols first ++
        right.code symbols (first + left.literals.length) ++
          operator.opcode?.toList.map fun opcode => ⟨opcode, []⟩
  | .array items, first =>
      Expr.codeOfAll symbols items first ++ [⟨.array, [items.length]⟩]
  | .call callee arguments, first =>
      callee.code symbols first ++
        Expr.codeOfAll symbols arguments (first + callee.literals.length) ++
          [⟨.call, [arguments.length]⟩]
  | .index _ _, _ => []
  | .conditional _ _ _, _ => []

def Expr.codeOfAll (symbols : SymbolTable) :
    List Expr → (first : Nat) → List Instruction
  | [], _ => []
  | item :: items, first =>
      item.code symbols first ++
        Expr.codeOfAll symbols items (first + item.literals.length)

end

mutual

/-- The expressions that have code: all names are known, lists are not too long,
and there is no remainder, no index and no conditional. -/
def Expr.Supported (symbols : SymbolTable) : Expr → Prop
  | .integer _ => True
  | .string _ => True
  | .boolean _ => True
  | .identifier name => (symbols.resolve? name).isSome
  | .unary _ operand => operand.Supported symbols
  | .binary operator left right =>
      operator ≠ .modulo ∧ left.Supported symbols ∧ right.Supported symbols
  | .array items =>
      items.length ≤ Limited.arrayElements.limit ∧ Expr.AllSupported symbols items
  | .call callee arguments =>
      arguments.length ≤ Limited.callArguments.limit ∧
        callee.Supported symbols ∧ Expr.AllSupported symbols arguments
  | .index _ _ => False
  | .conditional _ _ _ => False

def Expr.AllSupported (symbols : SymbolTable) : List Expr → Prop
  | [] => True
  | item :: items => item.Supported symbols ∧ Expr.AllSupported symbols items

end

namespace Draft

/-- Appends code and the constants of literals. -/
def extend (draft : Draft) (code : List Instruction) (literals : List Literal) :
    Draft where
  code := draft.code ++ code.toArray
  constants := draft.constants ++ (Literal.constants draft.fresh literals).toArray
  symbols := draft.symbols
  fresh := draft.fresh + Literal.cellCount literals

@[simp]
theorem symbols_extend (draft : Draft) (code : List Instruction)
    (literals : List Literal) : (draft.extend code literals).symbols = draft.symbols :=
  rfl

@[simp]
theorem size_constants_extend (draft : Draft) (code : List Instruction)
    (literals : List Literal) :
    (draft.extend code literals).constants.size =
      draft.constants.size + literals.length := by
  simp [extend]

@[simp]
theorem extend_nil (draft : Draft) : draft.extend [] [] = draft := by
  simp [extend, Literal.constants, Literal.cellCount]

theorem extend_extend (draft : Draft) (firstCode secondCode : List Instruction)
    (firstLiterals secondLiterals : List Literal) :
    (draft.extend firstCode firstLiterals).extend secondCode secondLiterals =
      draft.extend (firstCode ++ secondCode) (firstLiterals ++ secondLiterals) := by
  simp [extend, Literal.constants_append, Array.append_assoc, Nat.add_assoc]

theorem emit_eq_extend (draft : Draft) (opcode : Opcode) (operands : List Nat) :
    draft.emit opcode operands = draft.extend [⟨opcode, operands⟩] [] := by
  simp [emit, extend, Literal.constants, Literal.cellCount]

/-- A constant is appended exactly when it has room. -/
theorem emitConstant_eq_ok_iff (draft : Draft) (value : Value) (result : Draft) :
    draft.emitConstant value = .ok result ↔
      draft.constants.size + 1 ≤ maxConstants ∧
        { draft with constants := draft.constants.push value }.emit .constant
          [draft.constants.size] = result := by
  unfold emitConstant
  by_cases room : draft.constants.size < maxConstants
  · simp [room, Nat.succ_le_of_lt room]
  · have full : ¬ draft.constants.size + 1 ≤ maxConstants := by omega
    simp [room, full]

/-- The outcome of a step of compilation: it succeeds exactly when what it
compiles is supported and the literals have room, and then it appends code and
literals. -/
def Appends (draft : Draft) (outcome : Except Rejection Draft) (supported : Prop)
    (code : List Instruction) (literals : List Literal) : Prop :=
  ∀ result, outcome = .ok result ↔
    (supported ∧ Literal.HaveRoom draft.constants.size literals) ∧
      draft.extend code literals = result

namespace Appends

variable {draft : Draft} {first : Except Rejection Draft}
  {second : Draft → Except Rejection Draft} {supported laterSupported : Prop}
  {code laterCode : List Instruction} {literals laterLiterals : List Literal}

theorem integer (draft : Draft) (value : Word) :
    draft.Appends (draft.emitConstant (.integer value)) True
      [⟨.constant, [draft.constants.size]⟩] [.integer value] := by
  intro result
  rw [emitConstant_eq_ok_iff, emit_eq_extend]
  simp [Literal.HaveRoom, extend, Literal.constants, Literal.cellCount]

theorem string (draft : Draft) (content : String) :
    draft.Appends (draft.emitString content) True
      [⟨.constant, [draft.constants.size]⟩] [.string content] := by
  intro result
  rw [emitString, emitConstant_eq_ok_iff, emit_eq_extend]
  simp [Literal.HaveRoom, extend, Literal.constants, Literal.cellCount]

theorem name (draft : Draft) (name : String) :
    draft.Appends (draft.emitName name) (draft.symbols.resolve? name).isSome
      (draft.symbols.code name) [] := by
  intro result
  unfold emitName SymbolTable.code
  split <;> simp_all [emit_eq_extend, Literal.HaveRoom]

theorem instruction (draft : Draft) (opcode : Opcode) (operands : List Nat) :
    draft.Appends (.ok (draft.emit opcode operands)) True [⟨opcode, operands⟩] [] := by
  intro result
  rw [emit_eq_extend, Except.ok.injEq]
  simp [Literal.HaveRoom]

theorem nothing (draft : Draft) : draft.Appends (.ok draft) True [] [] := by
  intro result
  rw [extend_nil, Except.ok.injEq]
  simp [Literal.HaveRoom]

theorem refused (draft : Draft) (rejection : Rejection) (code : List Instruction)
    (literals : List Literal) :
    draft.Appends (.error rejection) False code literals := by
  intro result
  simp

/-- Two steps append one after the other. -/
theorem andThen (before : draft.Appends first supported code literals)
    (after : (draft.extend code literals).Appends
      (second (draft.extend code literals)) laterSupported laterCode laterLiterals) :
    draft.Appends (first >>= second) (supported ∧ laterSupported)
      (code ++ laterCode) (literals ++ laterLiterals) := by
  intro result
  have following := after result
  rw [size_constants_extend, extend_extend] at following
  rw [except_bind_eq_ok_iff, Literal.haveRoom_append]
  constructor
  · rintro ⟨middle, begun, ended⟩
    obtain ⟨⟨holds, room⟩, rfl⟩ := (before middle).1 begun
    obtain ⟨⟨laterHolds, laterRoom⟩, same⟩ := following.1 ended
    exact ⟨⟨⟨holds, laterHolds⟩, room, laterRoom⟩, same⟩
  · rintro ⟨⟨⟨holds, laterHolds⟩, room, laterRoom⟩, same⟩
    exact ⟨draft.extend code literals,
      (before _).2 ⟨⟨holds, room⟩, rfl⟩,
      following.2 ⟨⟨laterHolds, laterRoom⟩, same⟩⟩

theorem thenEmit (before : draft.Appends first supported code literals)
    (opcode : Opcode) (operands : List Nat) :
    draft.Appends (first >>= fun draft => .ok (draft.emit opcode operands)) supported
      (code ++ [⟨opcode, operands⟩]) literals := by
  have both : draft.Appends
      (first >>= fun draft => .ok (draft.emit opcode operands)) (supported ∧ True)
      (code ++ [⟨opcode, operands⟩]) (literals ++ []) :=
    before.andThen (instruction _ opcode operands)
  rwa [and_true, List.append_nil] at both

theorem congr (before : draft.Appends first supported code literals)
    (same : supported ↔ laterSupported) :
    draft.Appends first laterSupported code literals := by
  rwa [propext same] at before

theorem operands {draft : Draft} {first second : Expr} (opcode : Opcode)
    (firstAppends : draft.Appends (first.compile draft)
      (first.Supported draft.symbols)
      (first.code draft.symbols draft.constants.size) first.literals)
    (secondAppends : ∀ draft : Draft, draft.Appends (second.compile draft)
      (second.Supported draft.symbols)
      (second.code draft.symbols draft.constants.size) second.literals) :
    draft.Appends
      (first.compile draft >>= fun draft => second.compile draft >>= fun draft =>
        .ok (draft.emit opcode []))
      (first.Supported draft.symbols ∧ second.Supported draft.symbols)
      (first.code draft.symbols draft.constants.size ++
        second.code draft.symbols (draft.constants.size + first.literals.length) ++
          [⟨opcode, []⟩])
      (first.literals ++ second.literals) := by
  have both := firstAppends.andThen (secondAppends _)
  rw [size_constants_extend, symbols_extend] at both
  have whole := both.thenEmit opcode []
  rw [bind_assoc] at whole
  exact whole

end Appends

end Draft

mutual

/-- Compiling an expression appends its code, if it is supported. -/
theorem Expr.compile_appends (expr : Expr) (draft : Draft) :
    draft.Appends (expr.compile draft) (expr.Supported draft.symbols)
      (expr.code draft.symbols draft.constants.size) expr.literals := by
  cases expr with
  | integer value => exact .integer draft value
  | string content => exact .string draft content
  | boolean value =>
      cases value with
      | true => exact .instruction draft .pushTrue []
      | false => exact .instruction draft .pushFalse []
  | identifier name => exact .name draft name
  | unary operator operand =>
      exact (Expr.compile_appends operand draft).thenEmit operator.opcode []
  | binary operator left right =>
      cases operator with
      | modulo =>
          exact (Draft.Appends.refused draft _ _ _).congr (by simp [Supported])
      | lessThan =>
          have whole := Draft.Appends.operands .greaterThan
            (Expr.compile_appends right draft) (Expr.compile_appends left)
          exact whole.congr (by simp [Supported, and_comm])
      | _ =>
          exact (Draft.Appends.operands _ (Expr.compile_appends left draft)
            (Expr.compile_appends right)).congr (by simp [Supported])
  | array items =>
      by_cases short : items.length ≤ Limited.arrayElements.limit
      · have whole :=
          (Expr.compileAll_appends items draft).thenEmit .array [items.length]
        rw [Expr.compile, if_pos short]
        exact whole.congr (by simp [Supported, short])
      · rw [Expr.compile, if_neg short]
        exact (Draft.Appends.refused draft _ _ _).congr (by simp [Supported, short])
  | call callee arguments =>
      by_cases short : arguments.length ≤ Limited.callArguments.limit
      · have operands := (Expr.compile_appends callee draft).andThen
          (Expr.compileAll_appends arguments _)
        rw [Draft.size_constants_extend, Draft.symbols_extend] at operands
        have whole := operands.thenEmit .call [arguments.length]
        rw [bind_assoc] at whole
        rw [Expr.compile, if_pos short]
        exact whole.congr (by simp [Supported, short])
      · rw [Expr.compile, if_neg short]
        exact (Draft.Appends.refused draft _ _ _).congr (by simp [Supported, short])
  | index collection position => exact .refused draft _ _ _
  | conditional condition consequence alternative => exact .refused draft _ _ _

theorem Expr.compileAll_appends (items : List Expr) (draft : Draft) :
    draft.Appends (Expr.compileAll items draft)
      (Expr.AllSupported draft.symbols items)
      (Expr.codeOfAll draft.symbols items draft.constants.size)
      (Expr.literalsOfAll items) := by
  cases items with
  | nil => exact .nothing draft
  | cons item items =>
      have both := (Expr.compile_appends item draft).andThen
        (Expr.compileAll_appends items _)
      rw [Draft.size_constants_extend] at both
      exact both

end

/-! ## Statements and programs -/

namespace Stmt

def literals (stmt : Stmt) : List Literal :=
  stmt.value.literals

def symbolsAfter (symbols : SymbolTable) : Stmt → SymbolTable
  | binding name _ _ => (symbols.define name).2
  | expression _ _ => symbols

/-- The instruction that takes the value of a statement off the stack. -/
def finish (symbols : SymbolTable) : Stmt → Instruction
  | binding name _ _ => ⟨.setGlobal, [(symbols.define name).1]⟩
  | expression _ _ => ⟨.pop, []⟩

def code (symbols : SymbolTable) (stmt : Stmt) (first : Nat) : List Instruction :=
  stmt.value.code symbols first ++ [stmt.finish symbols]

/-- Whether a name that a statement binds has a slot that operands can number. -/
def FitsSlot (symbols : SymbolTable) : Stmt → Prop
  | binding name _ _ => (symbols.define name).1 < Limited.globals.limit
  | expression _ _ => True

def Supported (symbols : SymbolTable) (stmt : Stmt) : Prop :=
  stmt.value.Supported symbols ∧ stmt.FitsSlot symbols

end Stmt

namespace Program

def literals : Program → List Literal
  | [] => []
  | stmt :: rest => stmt.literals ++ literals rest

def symbolsAfter (symbols : SymbolTable) : Program → SymbolTable
  | [] => symbols
  | stmt :: rest => symbolsAfter (stmt.symbolsAfter symbols) rest

def code (symbols : SymbolTable) : Program → (first : Nat) → List Instruction
  | [], _ => []
  | stmt :: rest, first =>
      stmt.code symbols first ++
        code (stmt.symbolsAfter symbols) rest (first + stmt.literals.length)

/-- The programs that have code. A name is known after the statement that binds
it. -/
def Supported (symbols : SymbolTable) : Program → Prop
  | [] => True
  | stmt :: rest =>
      stmt.Supported symbols ∧ Supported (stmt.symbolsAfter symbols) rest

end Program

namespace Draft

/-- Appends code and the constants of literals, and goes on with another symbol
table. -/
def extendTo (draft : Draft) (code : List Instruction) (literals : List Literal)
    (symbols : SymbolTable) : Draft :=
  { draft.extend code literals with symbols }

theorem extendTo_extendTo (draft : Draft) (firstCode secondCode : List Instruction)
    (firstLiterals secondLiterals : List Literal) (middle symbols : SymbolTable) :
    (draft.extendTo firstCode firstLiterals middle).extendTo secondCode
        secondLiterals symbols =
      draft.extendTo (firstCode ++ secondCode) (firstLiterals ++ secondLiterals)
        symbols := by
  simp [extendTo, extend, Literal.constants_append, Array.append_assoc,
    Nat.add_assoc]

theorem extend_extendTo_nil (draft : Draft) (firstCode secondCode : List Instruction)
    (literals : List Literal) (symbols : SymbolTable) :
    (draft.extend firstCode literals).extendTo secondCode [] symbols =
      draft.extendTo (firstCode ++ secondCode) literals symbols := by
  have both :=
    draft.extendTo_extendTo firstCode secondCode literals [] draft.symbols symbols
  rw [List.append_nil] at both
  exact both

@[simp]
theorem symbols_extendTo (draft : Draft) (code : List Instruction)
    (literals : List Literal) (symbols : SymbolTable) :
    (draft.extendTo code literals symbols).symbols = symbols := rfl

@[simp]
theorem size_constants_extendTo (draft : Draft) (code : List Instruction)
    (literals : List Literal) (symbols : SymbolTable) :
    (draft.extendTo code literals symbols).constants.size =
      draft.constants.size + literals.length :=
  draft.size_constants_extend code literals

/-- A name is bound exactly when its slot can be numbered. -/
theorem emitBinding_eq_ok_iff (draft : Draft) (name : String) (result : Draft) :
    draft.emitBinding name = .ok result ↔
      (draft.symbols.define name).1 < Limited.globals.limit ∧
        draft.extendTo [⟨.setGlobal, [(draft.symbols.define name).1]⟩] []
          (draft.symbols.define name).2 = result := by
  unfold emitBinding
  by_cases fits : (draft.symbols.define name).1 < Limited.globals.limit
  · simp [fits, emit_eq_extend, extendTo, extend]
  · simp [fits]

end Draft

theorem Stmt.compileBody_eq_ok_iff (stmt : Stmt) (draft result : Draft) :
    stmt.compileBody draft = .ok result ↔
      (stmt.Supported draft.symbols ∧
        Literal.HaveRoom draft.constants.size stmt.literals) ∧
        draft.extendTo (stmt.code draft.symbols draft.constants.size) stmt.literals
          (stmt.symbolsAfter draft.symbols) = result := by
  rw [compileBody, except_bind_eq_ok_iff]
  cases stmt with
  | binding name expr span =>
      simp only [Stmt.value, expr.compile_appends draft _, Stmt.Supported,
        Draft.emitBinding_eq_ok_iff]
      constructor
      · rintro ⟨_, ⟨⟨supported, room⟩, rfl⟩, fits, rfl⟩
        exact ⟨⟨⟨supported, fits⟩, room⟩,
          (draft.extend_extendTo_nil _ _ _ _).symm⟩
      · rintro ⟨⟨⟨supported, fits⟩, room⟩, rfl⟩
        exact ⟨_, ⟨⟨supported, room⟩, rfl⟩, fits,
          draft.extend_extendTo_nil _ _ _ _⟩
  | expression expr span =>
      simp only [Stmt.value, expr.compile_appends draft _, Stmt.Supported,
        Draft.emit_eq_extend, Except.ok.injEq]
      constructor
      · rintro ⟨_, ⟨⟨supported, room⟩, rfl⟩, rfl⟩
        exact ⟨⟨⟨supported, trivial⟩, room⟩,
          (draft.extend_extendTo_nil _ _ _ _).symm⟩
      · rintro ⟨⟨⟨supported, _⟩, room⟩, rfl⟩
        exact ⟨_, ⟨⟨supported, room⟩, rfl⟩, draft.extend_extendTo_nil _ _ _ _⟩

/-- Giving errors the span of their statement changes no success. -/
theorem Stmt.compile_eq_ok_iff (stmt : Stmt) (draft result : Draft) :
    stmt.compile draft = .ok result ↔
      (stmt.Supported draft.symbols ∧
        Literal.HaveRoom draft.constants.size stmt.literals) ∧
        draft.extendTo (stmt.code draft.symbols draft.constants.size) stmt.literals
          (stmt.symbolsAfter draft.symbols) = result := by
  rw [← compileBody_eq_ok_iff, compile]
  cases stmt.compileBody draft with
  | ok _ =>
      constructor
      · intro same
        cases same
        rfl
      · intro same
        cases same
        rfl
  | error _ =>
      constructor
      · intro impossible
        cases impossible
      · intro impossible
        cases impossible

/-- Compilation of a program succeeds exactly when the program is supported and
its literals have room. It then appends the code and the literals. -/
theorem Program.compile_eq_ok_iff (program : Program) (draft result : Draft) :
    program.compile draft = .ok result ↔
      (program.Supported draft.symbols ∧
        Literal.HaveRoom draft.constants.size program.literals) ∧
        draft.extendTo (program.code draft.symbols draft.constants.size)
          program.literals (program.symbolsAfter draft.symbols) = result := by
  induction program generalizing draft with
  | nil =>
      simp [compile, Supported, literals, code, symbolsAfter, Literal.HaveRoom,
        Draft.extendTo, pure, Except.pure]
  | cons stmt rest inductionHypothesis =>
      rw [compile, List.foldlM_cons, except_bind_eq_ok_iff, literals,
        Literal.haveRoom_append]
      have restCompiles := inductionHypothesis
        (draft.extendTo (stmt.code draft.symbols draft.constants.size) stmt.literals
          (stmt.symbolsAfter draft.symbols))
      rw [Draft.size_constants_extendTo, Draft.symbols_extendTo,
        Draft.extendTo_extendTo] at restCompiles
      constructor
      · rintro ⟨middle, begun, ended⟩
        obtain ⟨⟨supported, room⟩, rfl⟩ := (stmt.compile_eq_ok_iff _ _).1 begun
        obtain ⟨⟨restSupported, restRoom⟩, same⟩ := restCompiles.1 ended
        exact ⟨⟨⟨supported, restSupported⟩, room, restRoom⟩, same⟩
      · rintro ⟨⟨⟨supported, restSupported⟩, room, restRoom⟩, same⟩
        exact ⟨_, (stmt.compile_eq_ok_iff _ _).2 ⟨⟨supported, room⟩, rfl⟩,
          restCompiles.2 ⟨⟨restSupported, restRoom⟩, same⟩⟩

theorem Program.of_compile_start {program : Program} {symbols : SymbolTable}
    {constants : Array Value} {fresh : Cell} {draft : Draft}
    (compiled : program.compile (.start symbols constants fresh) = .ok draft) :
    program.Supported symbols ∧ Literal.HaveRoom constants.size program.literals ∧
      draft =
        { code := (program.code symbols constants.size).toArray
          constants := constants ++ (Literal.constants fresh program.literals).toArray
          symbols := program.symbolsAfter symbols
          fresh := fresh + Literal.cellCount program.literals } := by
  obtain ⟨⟨supported, room⟩, same⟩ := (program.compile_eq_ok_iff _ _).mp compiled
  refine ⟨supported, room, ?_⟩
  rw [← same]
  simp only [Draft.extendTo, Draft.extend, Draft.start, Array.empty_append]

end ExprMachine
