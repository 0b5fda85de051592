import ExprMachine.Proofs.Machine.Depth

/-!
# Compiled programs do not go wrong

The code of an expression leaves the stack one value deeper, and the code of a
statement as deep as it was, whatever the values are. So the machine finds the
operands of each instruction of a compiled program, and its runs never end with
an error or a fault of the bytecode.
-/

namespace ExprMachine

open Instruction

variable {symbols : SymbolTable}

/-! ## The depth after compiled code -/

theorem Instruction.depthAfterAll_push (instruction : Instruction)
    (takesNone : instruction.takes = 0) (leavesOne : instruction.leaves = 1)
    (depth : Nat) : depthAfterAll depth [instruction] = some (depth + 1) := by
  rw [depthAfterAll_singleton, depthAfter, takesNone, leavesOne,
    if_pos (Nat.zero_le _)]
  rfl

theorem Instruction.depthAfter_replace {instruction : Instruction} {count : Nat}
    (takesCount : instruction.takes = count) (depth : Nat) :
    depthAfter (depth + count) instruction =
      some (depth + instruction.leaves) := by
  rw [depthAfter, takesCount, if_pos (Nat.le_add_left ..), Nat.add_sub_cancel]

theorem UnaryOperator.takes_opcode (operator : UnaryOperator) :
    takes ⟨operator.opcode, []⟩ = 1 ∧ leaves ⟨operator.opcode, []⟩ = 1 := by
  cases operator <;> exact ⟨rfl, rfl⟩

theorem SymbolTable.depthAfterAll_code {name : String}
    (known : (symbols.resolve? name).isSome) (depth : Nat) :
    depthAfterAll depth (symbols.code name) = some (depth + 1) := by
  obtain ⟨⟨scope, index⟩, resolved⟩ := Option.isSome_iff_exists.mp known
  cases scope with
  | global =>
      simp only [SymbolTable.code, resolved]
      exact depthAfterAll_push _ rfl rfl depth
  | builtin =>
      simp only [SymbolTable.code, resolved]
      exact depthAfterAll_push _ rfl rfl depth

theorem Instruction.depthAfterAll_replace {code : List Instruction}
    {instruction : Instruction} {depth count : Nat}
    (pushes : depthAfterAll depth code = some (depth + count))
    (takesCount : instruction.takes = count) :
    depthAfterAll depth (code ++ [instruction]) =
      some (depth + instruction.leaves) := by
  rw [depthAfterAll_append, pushes, Option.bind_some, depthAfterAll_singleton]
  exact depthAfter_replace takesCount depth

theorem Instruction.depthAfterAll_pushes {front back : List Instruction}
    {depth count more : Nat}
    (pushes : depthAfterAll depth front = some (depth + count))
    (pushesMore : depthAfterAll (depth + count) back = some (depth + count + more)) :
    depthAfterAll depth (front ++ back) = some (depth + (count + more)) := by
  rw [depthAfterAll_append, pushes, Option.bind_some, pushesMore, Nat.add_assoc]

mutual

/-- The code of a supported expression leaves one more value. -/
theorem Expr.depthAfterAll_code (expr : Expr) (supported : expr.Supported symbols)
    (first depth : Nat) :
    depthAfterAll depth (expr.code symbols first) = some (depth + 1) := by
  cases expr with
  | integer value => exact depthAfterAll_push ⟨.constant, [first]⟩ rfl rfl depth
  | string content => exact depthAfterAll_push ⟨.constant, [first]⟩ rfl rfl depth
  | boolean value =>
      cases value with
      | true => exact depthAfterAll_push ⟨.pushTrue, []⟩ rfl rfl depth
      | false => exact depthAfterAll_push ⟨.pushFalse, []⟩ rfl rfl depth
  | identifier name => exact SymbolTable.depthAfterAll_code supported depth
  | unary operator operand =>
      have pushes := Expr.depthAfterAll_code operand supported first depth
      obtain ⟨takesOne, leavesOne⟩ := operator.takes_opcode
      rw [Expr.code, depthAfterAll_replace pushes takesOne, leavesOne]
  | binary operator left right =>
      obtain ⟨known, leftSupported, rightSupported⟩ := supported
      have pushesLeft := Expr.depthAfterAll_code left leftSupported
      have pushesRight := Expr.depthAfterAll_code right rightSupported
      cases operator with
      | modulo => exact absurd rfl known
      | lessThan =>
          exact depthAfterAll_replace
            (depthAfterAll_pushes (pushesRight _ _) (pushesLeft _ _)) rfl
      | _ =>
          exact depthAfterAll_replace
            (depthAfterAll_pushes (pushesLeft _ _) (pushesRight _ _)) rfl
  | array items =>
      exact depthAfterAll_replace
        (Expr.depthAfterAll_codeOfAll items supported.2 first depth) rfl
  | call callee arguments =>
      have pushesCallee :=
        Expr.depthAfterAll_code callee supported.2.1 first depth
      have pushesArguments := Expr.depthAfterAll_codeOfAll arguments supported.2.2
        (first + callee.literals.length) (depth + 1)
      exact depthAfterAll_replace (depthAfterAll_pushes pushesCallee pushesArguments)
        (Nat.add_comm arguments.length 1)
  | index collection position => exact supported.elim
  | conditional condition consequence alternative => exact supported.elim

theorem Expr.depthAfterAll_codeOfAll (items : List Expr)
    (supported : Expr.AllSupported symbols items) (first depth : Nat) :
    depthAfterAll depth (Expr.codeOfAll symbols items first) =
      some (depth + items.length) := by
  cases items with
  | nil => exact rfl
  | cons item items =>
      have pushesItem := Expr.depthAfterAll_code item supported.1 first depth
      have pushesRest := Expr.depthAfterAll_codeOfAll items supported.2
        (first + item.literals.length) (depth + 1)
      rw [Expr.codeOfAll, depthAfterAll_pushes pushesItem pushesRest,
        List.length_cons, Nat.add_comm 1]

end

theorem Stmt.depthAfterAll_code {stmt : Stmt} (supported : stmt.Supported symbols)
    (first depth : Nat) :
    depthAfterAll depth (stmt.code symbols first) = some depth := by
  have pushes := Expr.depthAfterAll_code stmt.value supported.1 first depth
  cases stmt with
  | binding name value span => exact depthAfterAll_replace pushes rfl
  | expression value span => exact depthAfterAll_replace pushes rfl

/-- The code of a supported program leaves the stack as deep as it was. -/
theorem Program.depthAfterAll_code (program : Program)
    (supported : program.Supported symbols) (first depth : Nat) :
    depthAfterAll depth (program.code symbols first) = some depth := by
  induction program generalizing symbols first with
  | nil => rfl
  | cons stmt rest inductionHypothesis =>
      rw [code, depthAfterAll_append, Stmt.depthAfterAll_code supported.1,
        Option.bind_some]
      exact inductionHypothesis supported.2 _

theorem Program.depthAfterAll_of_compile {program : Program} {constants : Array Value}
    {fresh : Cell} {draft : Draft}
    (compiled : program.compile (.start symbols constants fresh) = .ok draft)
    (depth : Nat) : depthAfterAll depth draft.code.toList = some depth := by
  obtain ⟨supported, _, rfl⟩ := Program.of_compile_start compiled
  exact program.depthAfterAll_code supported _ depth

/-! ## Statement boundaries -/

theorem Program.compile_append (front back : Program) (draft : Draft) :
    Program.compile (front ++ back) draft =
      Program.compile front draft >>= fun middle => Program.compile back middle :=
  List.foldlM_append

theorem Program.exists_compile_front {front back : Program} {constants : Array Value}
    {fresh : Cell} {draft : Draft}
    (compiled : Program.compile (front ++ back) (.start symbols constants fresh) =
      .ok draft) :
    ∃ middle rest, front.compile (.start symbols constants fresh) = .ok middle ∧
      draft.code.toList = middle.code.toList ++ rest := by
  rw [compile_append, except_bind_eq_ok_iff] at compiled
  obtain ⟨middle, begun, ended⟩ := compiled
  obtain ⟨_, rfl⟩ := (back.compile_eq_ok_iff _ _).mp ended
  exact ⟨middle, _, begun, Array.toList_append⟩

/-! ## Runs of compiled programs -/

section Runs

variable {constants : Array Value} {machine : Machine} {front back : List Instruction}

/-- An instruction that a run gets to finds its operands. -/
theorem Instruction.takes_le_of_run {instruction : Instruction} {depth : Nat}
    (valid : CodeValid constants.size (front ++ instruction :: back))
    (told : depthAfterAll machine.top (front ++ instruction :: back) = some depth)
    {next : Machine} (reached : machine.run ⟨encodeAll front, constants⟩ = .ok next) :
    instruction.takes ≤ next.top := by
  have frontValid : CodeValid constants.size front :=
    (List.forall_mem_append.mp valid).1
  rw [depthAfterAll_append, Option.bind_eq_some_iff] at told
  obtain ⟨middle, frontTold, backTold⟩ := told
  rw [depthAfterAll_cons, Option.bind_eq_some_iff] at backTold
  obtain ⟨_, headTold, _⟩ := backTold
  rw [Machine.run_eq_executeAll frontValid] at reached
  have height := Machine.top_of_executeAll frontValid frontTold reached
  rw [height]
  exact takes_le_of_depthAfter headTold

/-- An error of the values or of the size of the stack is none of the bytecode. -/
theorem EndsAt.error_of_program {depth : Nat} {stopped : Stopped}
    (ends : EndsAt depth (.error stopped)) :
    ∃ error, stopped.cause = .error error ∧ error ≠ .stackUnderflow ∧
      ∀ byte offset, error ≠ .unknownOpcode byte offset := by
  obtain ⟨error, cause, ofValues | ⟨capacity, rfl⟩⟩ := ends
  · refine ⟨error, cause, ?_, ?_⟩
    · rintro rfl
      exact ofValues
    · rintro byte offset rfl
      exact ofValues
  · refine ⟨_, cause, ?_, ?_⟩
    · intro impossible
      cases impossible
    · intro byte offset impossible
      cases impossible

end Runs

/-- Compiled code never goes wrong, for any values and any size of the stack.
* Its bytes are read back as whole instructions, and the instructions are valid:
  their operands fit, the constants are in the pool and the builtins exist.
* Whenever a run gets to an instruction, there are enough operands.
* Whenever a run gets to the end of a statement, the stack is empty.
* A run that goes through leaves the stack empty. One that stops does so with an
  error of the program, which is neither an underflow of the stack nor an unknown
  opcode. -/
theorem Program.compiled_safe {program : Program} {constants : Array Value}
    {fresh : Cell} {draft : Draft} (addressable : symbols.Addressable)
    (compiled : program.compile (.start symbols constants fresh) = .ok draft)
    (stackSize : Nat) (globals : Array Value) (cell : Cell) :
    let code := draft.code.toList
    let start := Machine.start stackSize globals cell
    let run := fun code => start.run ⟨encodeAll code, draft.constants⟩
    ((Line.ofStream draft.bytecode.code).map Line.content = code.map .instruction ∧
      ∀ instruction ∈ code, instruction.Valid draft.constants.size) ∧
    (∀ before instruction after machine, code = before ++ instruction :: after →
      run before = .ok machine → instruction.takes ≤ machine.top) ∧
    (∀ front back, program = front ++ back → ∃ middle rest,
      Program.compile front (.start symbols constants fresh) = .ok middle ∧
        code = middle.code.toList ++ rest ∧
          ∀ machine, run middle.code.toList = .ok machine → machine.top = 0) ∧
    (∀ machine, start.run draft.bytecode = .ok machine → machine.top = 0) ∧
    ∀ stopped, start.run draft.bytecode = .error stopped →
      ∃ error, stopped.cause = .error error ∧ error ≠ .stackUnderflow ∧
        ∀ byte offset, error ≠ .unknownOpcode byte offset := by
  intro code start run
  have valid : CodeValid draft.constants.size code :=
    Program.valid_of_compile addressable compiled
  have told : depthAfterAll start.top code = some 0 :=
    Program.depthAfterAll_of_compile compiled 0
  have runs : start.run draft.bytecode = start.executeAll draft.constants code :=
    Machine.run_eq_executeAll valid start
  refine ⟨⟨?_, valid⟩, ?_, ?_, ?_, ?_⟩
  · have fits : ∀ instruction ∈ code, instruction.Fits :=
      fun instruction member => (valid instruction member).fits
    rw [Draft.bytecode, Line.ofStream_encodeAll fits, Line.ofCode_map_content]
  · intro before instruction after machine split reached
    rw [split] at valid told
    exact takes_le_of_run valid told reached
  · rintro front back rfl
    obtain ⟨middle, rest, begun, split⟩ := Program.exists_compile_front compiled
    refine ⟨middle, rest, begun, split, ?_⟩
    intro machine reached
    have frontValid : CodeValid draft.constants.size middle.code.toList := by
      intro instruction member
      refine valid instruction ?_
      rw [show code = middle.code.toList ++ rest from split]
      exact List.mem_append_left rest member
    have frontTold : depthAfterAll start.top middle.code.toList = some 0 :=
      Program.depthAfterAll_of_compile begun 0
    have frontRuns := Machine.run_eq_executeAll frontValid start
    exact Machine.top_of_executeAll frontValid frontTold (frontRuns.symm.trans reached)
  · intro machine ended
    exact Machine.top_of_executeAll valid told (runs.symm.trans ended)
  · intro stopped failed
    have ends := Machine.endsAt_executeAll valid told
    rw [← runs, failed] at ends
    exact ends.error_of_program

/-- A sum of an integer and a truth value is an error, but none of the bytecode. -/
theorem Program.compiled_safe_sum :
    let program : Program :=
      [.expression (.binary .add (.integer 1) (.boolean true)) .unknown]
    ∃ draft, program.compile (.start .withBuiltins #[] 0) = .ok draft ∧
      ∀ stopped, (Machine.start 2 #[] 0).run draft.bytecode = .error stopped →
        ∃ error, stopped.cause = .error error ∧ error ≠ .stackUnderflow ∧
          ∀ byte offset, error ≠ .unknownOpcode byte offset := by
  intro program
  have supported : program.Supported .withBuiltins := by
    simp [program, Program.Supported, Stmt.Supported, Stmt.FitsSlot, Stmt.value,
      Expr.Supported]
  have room : Literal.HaveRoom 0 program.literals := Or.inr (by decide)
  have compiled := (program.compile_eq_ok_iff (.start .withBuiltins #[] 0) _).mpr
    ⟨⟨supported, room⟩, rfl⟩
  have addressable := SymbolTable.wellFormed_withBuiltins.addressable
  obtain ⟨_, _, _, _, stops⟩ := Program.compiled_safe addressable compiled 2 #[] 0
  exact ⟨_, compiled, stops⟩

end ExprMachine
