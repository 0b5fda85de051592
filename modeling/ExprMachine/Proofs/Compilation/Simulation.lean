import ExprMachine.Proofs.Compilation.StackNeed
import ExprMachine.Proofs.Compilation.Validity
import ExprMachine.Proofs.Machine.Simulation

/-!
# Compiled code follows evaluations

The code of an expression, run on any stack, follows the evaluation of the
expression: it leaves the value on top of the stack. The number of slots that it
takes above the stack is the `stackNeed` of the expression. The code of a program
follows the evaluation of the program, statement by statement, and leaves the
stack empty after each of them.
-/

namespace ExprMachine

/-! ## Pools that hold literals -/

/-- The pool holds the constants of literals from the given index on. -/
def Literal.Pooled (constants : Array Value) (first : Nat) (cell : Cell)
    (literals : List Literal) : Prop :=
  ∀ position value, (Literal.constants cell literals)[position]? = some value →
    constants[first + position]? = some value

theorem Literal.pooled_append {constants : Array Value} {first : Nat} {cell : Cell}
    {front back : List Literal}
    (pooled : Pooled constants first cell (front ++ back)) :
    Pooled constants first cell front ∧
      Pooled constants (first + front.length) (cell + cellCount front) back := by
  constructor
  · intro position value found
    apply pooled position value
    have inside : position < (Literal.constants cell front).length :=
      (List.getElem?_eq_some_iff.mp found).1
    rw [constants_append, List.getElem?_append_left inside]
    exact found
  · intro position value found
    rw [Nat.add_assoc]
    apply pooled (front.length + position) value
    rw [constants_append, ← length_constants cell front,
      List.getElem?_append_right (Nat.le_add_right ..), Nat.add_sub_cancel_left]
    exact found

/-! ## Expressions -/

theorem UnaryOperator.concludes {machine : Machine} {below : List Value}
    {operand : Value} (shape : machine.stack = below ++ [operand])
    (operator : UnaryOperator) (constants : Array Value) :
    machine.Concludes (machine.execute constants ⟨operator.opcode, []⟩) below
      (operator.evaluate operand) := by
  cases operator with
  | not =>
      have concluded := Machine.concludes_unary shape fun operand => .ok operand.negated
      rw [Value.negated_eq] at concluded
      exact concluded
  | negate =>
      have concluded := Machine.concludes_unary shape Value.opposite
      rw [Value.opposite_eq_evaluate] at concluded
      exact concluded

theorem BinaryOperator.concludes {operator : BinaryOperator} {opcode : Opcode}
    (found : operator.opcode? = some opcode) {machine : Machine} {below : List Value}
    {left right : Value} (shape : machine.stack = below ++ [left, right])
    (constants : Array Value) :
    ∃ result, operator.evaluate? left right = some result ∧
      machine.Concludes (machine.execute constants ⟨opcode, []⟩) below result := by
  have arithmetic (operation : Arithmetic) :
      machine.Concludes (machine.binary operation.apply) below
        (operation.evaluate left right) := by
    rw [← Arithmetic.apply_eq_evaluate]
    exact Machine.concludes_binary shape operation.apply
  have compared (comparison : Comparison) :
      machine.Concludes (machine.binary comparison.apply) below
        (comparison.apply left right) :=
    Machine.concludes_binary shape comparison.apply
  cases operator with
  | add =>
      cases found
      exact ⟨_, rfl, arithmetic .add⟩
  | subtract =>
      cases found
      exact ⟨_, rfl, arithmetic .subtract⟩
  | multiply =>
      cases found
      exact ⟨_, rfl, arithmetic .multiply⟩
  | divide =>
      cases found
      exact ⟨_, rfl, arithmetic .divide⟩
  | equals =>
      cases found
      refine ⟨_, rfl, ?_⟩
      rw [← Comparison.apply_equal]
      exact compared .equal
  | notEquals =>
      cases found
      refine ⟨_, rfl, ?_⟩
      rw [← Comparison.apply_notEqual]
      exact compared .notEqual
  | greaterThan =>
      cases found
      refine ⟨_, rfl, ?_⟩
      rw [← Comparison.apply_eq_exceeds]
      exact compared .greaterThan
  | lessThan => cases found
  | modulo => cases found

section Simulation

variable {symbols : SymbolTable} {constants globals : Array Value} {capacity : Nat}

/-- The code of the expression, run on any stack, follows the evaluation of the
expression. -/
def Expr.Simulated (symbols : SymbolTable) (constants globals : Array Value)
    (capacity : Nat) (expr : Expr) : Prop :=
  ∀ {machine : Machine} {scene : Scene} {stack : List Value} {first : Nat},
    Literal.Pooled constants first scene.literal expr.literals →
    machine.view = scene.view stack capacity globals →
    Follows capacity (stack.length + expr.stackNeed)
      (fun result => Leaves stack capacity globals
        (scene.literal + Literal.cellCount expr.literals) [result.1] result.2)
      (machine.executeAll constants (expr.code symbols first))
      (expr.evaluate (symbols.valuation globals) scene)

/-- The code of the expressions, run one after another on any stack, follows the
evaluation of the expressions. Some of the values on the stack are counted as
values that were evaluated before. -/
def Expr.AllSimulated (symbols : SymbolTable) (constants globals : Array Value)
    (capacity : Nat) (items : List Expr) : Prop :=
  ∀ {machine : Machine} {scene : Scene} {stack : List Value}
    {first below position : Nat},
    stack.length = below + position →
    Literal.Pooled constants first scene.literal (Expr.literalsOfAll items) →
    machine.view = scene.view stack capacity globals →
    Follows capacity (below + Expr.stackNeedFrom position items)
      (fun result => Leaves stack capacity globals
        (scene.literal + Literal.cellCount (Expr.literalsOfAll items)) result.1
        result.2)
      (machine.executeAll constants (Expr.codeOfAll symbols items first))
      (Expr.evaluateAll (symbols.valuation globals) items scene)

theorem Machine.follows_constant {machine : Machine} {scene after : Scene}
    {stack : List Value} {first : Nat} {literal : Cell} {value : Value}
    (stands : machine.view = scene.view stack capacity globals)
    (found : constants[first]? = some value) (printed : after.printed = scene.printed)
    (fresh : after.fresh = scene.fresh) (counted : after.literal = literal) :
    Follows capacity (stack.length + 1)
      (fun result => Leaves stack capacity globals literal [result.1] result.2)
      (machine.executeAll constants [⟨.constant, [first]⟩]) (.ok (value, after)) := by
  have executed : machine.execute constants ⟨.constant, [first]⟩ =
      machine.push value := by
    have operand : constants[(Instruction.mk .constant [first]).operand]? =
        some value := found
    simp only [execute, operand]
  rw [executeAll_singleton, executed]
  exact follows_push stands value printed fresh counted

theorem SymbolTable.Addressable.follows_name (addressable : symbols.Addressable)
    {name : String} (known : (symbols.resolve? name).isSome) {machine : Machine}
    {scene : Scene} {stack : List Value}
    (stands : machine.view = scene.view stack capacity globals) :
    Follows capacity (stack.length + 1)
      (fun result =>
        Leaves stack capacity globals scene.literal [result.1] result.2)
      (machine.executeAll constants (symbols.code name))
      ((Expr.identifier name).evaluate (symbols.valuation globals) scene) := by
  have globalsSame : machine.globals = globals := congrArg View.globals stands
  obtain ⟨⟨scope, index⟩, resolved⟩ := Option.isSome_iff_exists.mp known
  cases scope with
  | global =>
      simp only [SymbolTable.code, Expr.evaluate, SymbolTable.valuation, resolved]
      rw [Machine.executeAll_singleton, Machine.execute, globalsSame]
      exact Machine.follows_push stands _ rfl rfl rfl
  | builtin =>
      obtain ⟨builtin, found⟩ : ∃ builtin, Builtin.ofIndex? index = some builtin :=
        ⟨_, List.getElem?_eq_getElem (addressable.index_lt resolved)⟩
      have executed : machine.execute constants ⟨.getBuiltin, [index]⟩ =
          machine.push (.builtin builtin) := by
        have operand : Builtin.ofIndex?
            (Instruction.mk .getBuiltin [index]).operand = some builtin := found
        simp only [Machine.execute, operand]
      simp only [SymbolTable.code, Expr.evaluate, SymbolTable.valuation, resolved,
        found, Option.map_some]
      rw [Machine.executeAll_singleton, executed]
      exact Machine.follows_push stands _ rfl rfl rfl

theorem Expr.Simulated.operands {first second : Expr}
    (firstSimulated : first.Simulated symbols constants globals capacity)
    (secondSimulated : second.Simulated symbols constants globals capacity)
    {machine : Machine} {scene : Scene} {stack : List Value} {index : Nat}
    (pooled : Literal.Pooled constants index scene.literal
      (first.literals ++ second.literals))
    (stands : machine.view = scene.view stack capacity globals) (opcode : Opcode)
    {finish : Value → Value → Scene → Except Halt (Value × Scene)}
    (finishes : ∀ {next : Machine} {after : Scene} {left right : Value},
      next.view = after.view (stack ++ [left, right]) capacity globals →
      Follows capacity 0
        (fun result =>
          Leaves stack capacity globals after.literal [result.1] result.2)
        (next.execute constants ⟨opcode, []⟩) (finish left right after)) :
    Follows capacity (stack.length + max first.stackNeed (1 + second.stackNeed))
      (fun result => Leaves stack capacity globals
        (scene.literal + Literal.cellCount (first.literals ++ second.literals))
        [result.1] result.2)
      (machine.executeAll constants
        (first.code symbols index ++
          second.code symbols (index + first.literals.length) ++ [⟨opcode, []⟩]))
      (first.evaluate (symbols.valuation globals) scene >>= fun left =>
        second.evaluate (symbols.valuation globals) left.2 >>= fun right =>
          finish left.1 right.1 right.2) := by
  obtain ⟨firstPooled, secondPooled⟩ := Literal.pooled_append pooled
  rw [List.append_assoc]
  refine (firstSimulated firstPooled stands).andThen
    (stack.length + (1 + second.stackNeed)) ?_ (by omega)
  rintro ⟨left, middle⟩ next _ ⟨nextStands, middleLiteral⟩
  rw [← middleLiteral] at secondPooled
  refine (secondSimulated secondPooled nextStands).andThen 0 ?_ ?_
  · rintro ⟨right, after⟩ last _ ⟨lastStands, afterLiteral⟩
    rw [List.append_assoc] at lastStands
    have finished := finishes lastStands
    rw [Machine.executeAll_singleton]
    rw [Literal.cellCount_append, ← Nat.add_assoc, ← middleLiteral, ← afterLiteral]
    exact finished
  · rw [List.length_append, List.length_singleton]
    omega

/-- The result of a binary operator takes the place of its operands. -/
theorem BinaryOperator.follows {operator : BinaryOperator} {opcode : Opcode}
    (found : operator.opcode? = some opcode) {next : Machine} {after : Scene}
    {stack : List Value} {left right : Value}
    (stands : next.view = after.view (stack ++ [left, right]) capacity globals) :
    Follows capacity 0
      (fun result => Leaves stack capacity globals after.literal [result.1] result.2)
      (next.execute constants ⟨opcode, []⟩) (after.combine operator left right) := by
  have shape : next.stack = stack ++ [left, right] := congrArg View.stack stands
  obtain ⟨result, evaluated, concludes⟩ := operator.concludes found shape constants
  rw [Scene.combine, evaluated]
  exact Machine.follows_concludes stands concludes
    (BinaryOperator.raisesOfValues evaluated) rfl

/-- Less-than is greater-than with its operands in the opposite order. -/
theorem BinaryOperator.follows_lessThan {next : Machine} {after : Scene}
    {stack : List Value} {left right : Value}
    (stands : next.view = after.view (stack ++ [right, left]) capacity globals) :
    Follows capacity 0
      (fun result => Leaves stack capacity globals after.literal [result.1] result.2)
      (next.execute constants ⟨.greaterThan, []⟩)
      (after.combine .lessThan left right) := by
  have found : BinaryOperator.greaterThan.opcode? = some .greaterThan := rfl
  exact BinaryOperator.follows found stands

mutual

/-- The code of a supported expression follows its evaluation. -/
theorem Expr.simulated (addressable : symbols.Addressable) (expr : Expr)
    (supported : expr.Supported symbols) :
    expr.Simulated symbols constants globals capacity := by
  intro machine scene stack first pooled stands
  cases expr with
  | integer value =>
      have found : constants[first]? = some (.integer value) :=
        pooled 0 (.integer value) rfl
      exact Machine.follows_constant stands found rfl rfl rfl
  | string content =>
      have found : constants[first]? = some (.string scene.literal content) :=
        pooled 0 (.string scene.literal content) rfl
      exact Machine.follows_constant stands found rfl rfl rfl
  | boolean value =>
      cases value with
      | true =>
          rw [Expr.code, Machine.executeAll_singleton]
          exact Machine.follows_push stands _ rfl rfl rfl
      | false =>
          rw [Expr.code, Machine.executeAll_singleton]
          exact Machine.follows_push stands _ rfl rfl rfl
  | identifier name => exact addressable.follows_name supported stands
  | unary operator operand =>
      have before := Expr.simulated addressable operand supported pooled stands
      refine before.andThen 0 ?_ (Nat.max_zero _).symm
      rintro ⟨value, after⟩ next _ ⟨nextStands, afterLiteral⟩
      have shape : next.stack = stack ++ [value] := congrArg View.stack nextStands
      rw [Machine.executeAll_singleton]
      exact Machine.follows_concludes nextStands (operator.concludes shape constants)
        (operator.raisesOfValues value) afterLiteral
  | binary operator left right =>
      obtain ⟨known, leftSupported, rightSupported⟩ := supported
      have leftSimulated :
          left.Simulated symbols constants globals capacity :=
        Expr.simulated addressable left leftSupported
      have rightSimulated :
          right.Simulated symbols constants globals capacity :=
        Expr.simulated addressable right rightSupported
      cases operator with
      | modulo => exact absurd rfl known
      | lessThan =>
          exact rightSimulated.operands leftSimulated pooled stands .greaterThan
            BinaryOperator.follows_lessThan
      | _ =>
          exact leftSimulated.operands rightSimulated pooled stands _
            (BinaryOperator.follows rfl)
  | array items =>
      have before := Expr.allSimulated addressable items supported.2
        (Nat.add_zero stack.length).symm pooled stands
      refine before.andThen (stack.length + 1) ?_ (by rw [Expr.stackNeed]; omega)
      rintro ⟨values, after⟩ next evaluated ⟨nextStands, afterLiteral⟩
      have count := Expr.length_of_evaluateAll evaluated
      rw [Machine.executeAll_singleton, ← count]
      exact Machine.follows_collect nextStands afterLiteral
  | call callee arguments =>
      obtain ⟨calleePooled, argumentsPooled⟩ := Literal.pooled_append pooled
      have before :=
        Expr.simulated addressable callee supported.2.1 calleePooled stands
      rw [Expr.code, List.append_assoc]
      refine before.andThen
        (stack.length + Expr.stackNeedFrom 1 arguments) ?_
        (by rw [Expr.stackNeed]; omega)
      rintro ⟨function, middle⟩ next _ ⟨nextStands, middleLiteral⟩
      rw [← middleLiteral] at argumentsPooled
      have during := Expr.allSimulated addressable arguments supported.2.2
        List.length_append argumentsPooled nextStands
      refine during.andThen 0 ?_ (Nat.max_zero _).symm
      rintro ⟨values, after⟩ last evaluated ⟨lastStands, afterLiteral⟩
      have count := Expr.length_of_evaluateAll evaluated
      rw [List.append_assoc] at lastStands
      rw [Machine.executeAll_singleton, ← count, Expr.literals,
        Literal.cellCount_append, ← Nat.add_assoc, ← middleLiteral, ← afterLiteral]
      exact Machine.follows_call lastStands rfl
  | index collection position => exact supported.elim
  | conditional condition consequence alternative => exact supported.elim

theorem Expr.allSimulated (addressable : symbols.Addressable) (items : List Expr)
    (supported : Expr.AllSupported symbols items) :
    Expr.AllSimulated symbols constants globals capacity items := by
  intro machine scene stack first below position counted pooled stands
  cases items with
  | nil =>
      have shape : machine.stack = stack := congrArg View.stack stands
      have slots : machine.slots.size = capacity := congrArg View.capacity stands
      have bound := machine.length_stack_le
      rw [shape, slots] at bound
      refine Follows.of_shows ?_ rfl ⟨?_, rfl⟩
      · rw [Expr.stackNeedFrom]
        omega
      · rw [List.append_nil]
        exact stands
  | cons item items =>
      obtain ⟨itemPooled, restPooled⟩ := Literal.pooled_append pooled
      have before := Expr.simulated addressable item supported.1 itemPooled stands
      refine before.andThen (below + Expr.stackNeedFrom (position + 1) items) ?_
        (by rw [Expr.stackNeedFrom]; omega)
      rintro ⟨value, middle⟩ next _ ⟨nextStands, middleLiteral⟩
      rw [← middleLiteral] at restPooled
      have counted : (stack ++ [value]).length = below + (position + 1) := by
        rw [List.length_append, List.length_singleton, counted, Nat.add_assoc]
      have during := Expr.allSimulated addressable items supported.2 counted
        restPooled nextStands
      refine during.map ?_
      rintro ⟨values, after⟩ last ⟨lastStands, afterLiteral⟩
      rw [List.append_assoc] at lastStands
      refine ⟨lastStands, ?_⟩
      rw [Expr.literalsOfAll, Literal.cellCount_append, ← Nat.add_assoc,
        ← middleLiteral]
      exact afterLiteral

end

/-! ## Statements and programs -/

/-- The machine stands where an evaluation has got to: its stack is empty, its
globals hold what the names stand for, and the value of the last statement was
popped last. -/
structure Arrives (symbols : SymbolTable) (capacity : Nat) (stage : Stage)
    (machine : Machine) : Prop where
  view : machine.view = stage.scene.view [] capacity machine.globals
  names : symbols.valuation machine.globals = stage.valuation
  last : machine.lastPopped = stage.last

theorem Stmt.symbolsAfter_wellFormed (wellFormed : symbols.WellFormed) {stmt : Stmt}
    (fits : stmt.FitsSlot symbols) : (stmt.symbolsAfter symbols).WellFormed := by
  cases stmt with
  | binding name value span => exact wellFormed.define fits
  | expression value span => exact wellFormed

/-- The instruction that ends a statement takes its value off the stack, and
stores it if the statement binds a name. -/
theorem Stmt.finish_arrives (wellFormed : symbols.WellFormed) (stmt : Stmt)
    {machine : Machine} {scene : Scene} {value : Value}
    (stands : machine.view = scene.view [value] capacity globals) :
    ∃ next, machine.execute constants (stmt.finish symbols) = .ok next ∧
      Arrives (stmt.symbolsAfter symbols) capacity
        ⟨stmt.valuationAfter (symbols.valuation globals) value, value, scene⟩
        next := by
  have shape : machine.stack = [] ++ [value] := congrArg View.stack stands
  cases stmt with
  | binding name expr span =>
      obtain ⟨next, reached, nextView, last⟩ :=
        Machine.setGlobal_of_stack shape (symbols.define name).1
      have globalsSame : machine.globals = globals := congrArg View.globals stands
      rw [globalsSame, stands] at nextView
      have stored :
          next.globals = Machine.store globals (symbols.define name).1 value :=
        congrArg View.globals nextView
      refine ⟨next, reached, ?_, ?_, last⟩
      · rw [nextView, stored]
        rfl
      · rw [stored]
        exact wellFormed.valuation_store globals name value
  | expression expr span =>
      obtain ⟨next, reached, nextView, last⟩ :=
        Machine.discard_of_stack shape constants []
      rw [stands] at nextView
      have kept : next.globals = globals := congrArg View.globals nextView
      refine ⟨next, reached, ?_, ?_, last⟩
      · rw [nextView, kept]
        rfl
      · rw [kept]
        rfl

/-- The code of a supported program follows the evaluation of the program. -/
theorem Program.simulated (wellFormed : symbols.WellFormed) (program : Program)
    (supported : program.Supported symbols) {machine : Machine} {stage : Stage}
    {first : Nat}
    (pooled : Literal.Pooled constants first stage.scene.literal program.literals)
    (arrives : Arrives symbols capacity stage machine) :
    Follows capacity program.stackNeed
      (Arrives (program.symbolsAfter symbols) capacity)
      (machine.executeAll constants (program.code symbols first))
      (program.evaluateFrom stage) := by
  induction program generalizing symbols machine stage first with
  | nil => exact Follows.of_shows (Nat.zero_le _) rfl arrives
  | cons stmt rest inductionHypothesis =>
      obtain ⟨⟨valueSupported, fits⟩, restSupported⟩ := supported
      obtain ⟨valuePooled, restPooled⟩ := Literal.pooled_append pooled
      have before := Expr.simulated wellFormed.addressable stmt.value valueSupported
        valuePooled arrives.view
      rw [arrives.names] at before
      rw [code, Stmt.code, List.append_assoc]
      refine before.andThen (stackNeed rest) ?_ (by rw [stackNeed]; simp)
      rintro ⟨value, scene⟩ next _ ⟨nextStands, sceneLiteral⟩
      obtain ⟨last, finished, lastArrives⟩ :=
        stmt.finish_arrives wellFormed nextStands
      have restArrives := inductionHypothesis
        (Stmt.symbolsAfter_wellFormed wellFormed fits) restSupported
        (by rw [sceneLiteral]; exact restPooled) lastArrives
      rw [arrives.names] at restArrives
      rw [Machine.executeAll_append, Machine.executeAll_singleton, finished]
      exact restArrives

end Simulation

end ExprMachine
