import ExprMachine.Proofs.Compilation.Code
import ExprMachine.Proofs.Decoding
import ExprMachine.Proofs.SymbolTable

/-!
# Compiled instructions are valid

The operands of compiled instructions fit their widths, and they number constants
of the pool and builtins that exist. So the bytes of a compiled program are read
back as the instructions they were made of, and running them is executing these.
-/

namespace ExprMachine

/-- The operands of the instruction fit, and they number what exists. -/
structure Instruction.Valid (poolSize : Nat) (instruction : Instruction) : Prop where
  fits : instruction.Fits
  constant_lt : instruction.opcode = .constant → instruction.operand < poolSize
  builtin_lt : instruction.opcode = .getBuiltin →
    instruction.operand < Builtin.all.length

namespace Instruction

theorem valid_plain {opcode : Opcode} (plain : opcode.widths = []) (poolSize : Nat) :
    Valid poolSize ⟨opcode, []⟩ where
  fits := by
    rw [Fits, plain]
    exact List.Forall₂.nil
  constant_lt := by
    intro same
    change opcode = _ at same
    rw [same] at plain
    cases plain
  builtin_lt := by
    intro same
    change opcode = _ at same
    rw [same] at plain
    cases plain

theorem valid_constant {poolSize index : Nat} (inPool : index < poolSize)
    (small : index < maxConstants) : Valid poolSize ⟨.constant, [index]⟩ where
  fits := List.Forall₂.cons small List.Forall₂.nil
  constant_lt := fun _ => inPool
  builtin_lt := by
    intro impossible
    cases impossible

/-- An instruction with one operand is valid when the operand fits and numbers
neither a constant nor a builtin. -/
theorem valid_operand {opcode : Opcode} {width operand : Nat}
    (widths : opcode.widths = [width]) (small : operand < 256 ^ width)
    (noConstant : opcode ≠ .constant) (noBuiltin : opcode ≠ .getBuiltin)
    (poolSize : Nat) : Valid poolSize ⟨opcode, [operand]⟩ where
  fits := by
    rw [Fits, widths]
    exact List.Forall₂.cons small List.Forall₂.nil
  constant_lt := fun same => absurd same noConstant
  builtin_lt := fun same => absurd same noBuiltin

theorem valid_getBuiltin {index : Nat} (known : index < Builtin.all.length)
    (poolSize : Nat) : Valid poolSize ⟨.getBuiltin, [index]⟩ where
  fits := by
    refine List.Forall₂.cons ?_ List.Forall₂.nil
    change index < 8 at known
    omega
  constant_lt := by
    intro impossible
    cases impossible
  builtin_lt := fun _ => known

end Instruction

def CodeValid (poolSize : Nat) (code : List Instruction) : Prop :=
  ∀ instruction ∈ code, instruction.Valid poolSize

namespace CodeValid

variable {poolSize : Nat} {front back : List Instruction}

theorem append (frontValid : CodeValid poolSize front)
    (backValid : CodeValid poolSize back) : CodeValid poolSize (front ++ back) :=
  List.forall_mem_append.mpr ⟨frontValid, backValid⟩

theorem singleton {instruction : Instruction} (valid : instruction.Valid poolSize) :
    CodeValid poolSize [instruction] :=
  List.forall_mem_singleton.mpr valid

end CodeValid

variable {symbols : SymbolTable} {poolSize : Nat}

theorem UnaryOperator.widths_opcode (operator : UnaryOperator) :
    operator.opcode.widths = [] := by
  cases operator <;> rfl

theorem SymbolTable.Addressable.code_valid (addressable : symbols.Addressable)
    (name : String) (poolSize : Nat) : CodeValid poolSize (symbols.code name) := by
  unfold SymbolTable.code
  split
  · next slot resolved =>
      exact .singleton (Instruction.valid_operand rfl (addressable.slot_lt resolved)
        (by decide) (by decide) poolSize)
  · next index resolved =>
      exact .singleton
        (Instruction.valid_getBuiltin (addressable.index_lt resolved) poolSize)
  · exact List.forall_mem_nil _

/-- Literals have their places in a pool, from the given index on. -/
structure Literal.Placed (poolSize first : Nat) (literals : List Literal) : Prop where
  room : HaveRoom first literals
  inPool : first + literals.length ≤ poolSize

theorem Literal.placed_append {first : Nat} {front back : List Literal}
    (placed : Placed poolSize first (front ++ back)) :
    Placed poolSize first front ∧ Placed poolSize (first + front.length) back := by
  obtain ⟨room, inPool⟩ := placed
  obtain ⟨frontRoom, backRoom⟩ := (haveRoom_append first front back).mp room
  rw [List.length_append] at inPool
  exact ⟨⟨frontRoom, by omega⟩, ⟨backRoom, by omega⟩⟩

theorem Literal.Placed.valid_constant {first : Nat} {literal : Literal}
    (placed : Placed poolSize first [literal]) :
    Instruction.Valid poolSize ⟨.constant, [first]⟩ := by
  obtain ⟨none | room, inPool⟩ := placed
  · cases none
  · exact Instruction.valid_constant inPool room

mutual

/-- The instructions of a supported expression are valid. -/
theorem Expr.code_valid (addressable : symbols.Addressable) (expr : Expr)
    (supported : expr.Supported symbols) {first : Nat}
    (placed : Literal.Placed poolSize first expr.literals) :
    CodeValid poolSize (expr.code symbols first) := by
  cases expr with
  | integer value => exact .singleton placed.valid_constant
  | string content => exact .singleton placed.valid_constant
  | boolean value =>
      cases value with
      | true => exact .singleton (Instruction.valid_plain rfl poolSize)
      | false => exact .singleton (Instruction.valid_plain rfl poolSize)
  | identifier name => exact addressable.code_valid name poolSize
  | unary operator operand =>
      have operandValid := Expr.code_valid addressable operand supported placed
      have valid := Instruction.valid_plain operator.widths_opcode poolSize
      exact operandValid.append (.singleton valid)
  | binary operator left right =>
      obtain ⟨known, leftSupported, rightSupported⟩ := supported
      cases operator with
      | modulo => exact absurd rfl known
      | lessThan =>
          obtain ⟨rightPlaced, leftPlaced⟩ := Literal.placed_append placed
          exact ((Expr.code_valid addressable right rightSupported rightPlaced).append
            (Expr.code_valid addressable left leftSupported leftPlaced)).append
              (.singleton (Instruction.valid_plain rfl poolSize))
      | _ =>
          obtain ⟨leftPlaced, rightPlaced⟩ := Literal.placed_append placed
          exact ((Expr.code_valid addressable left leftSupported leftPlaced).append
            (Expr.code_valid addressable right rightSupported rightPlaced)).append
              (.singleton (Instruction.valid_plain rfl poolSize))
  | array items =>
      have small : items.length < 256 ^ 2 := Nat.lt_succ_of_le supported.1
      have itemsValid := Expr.codeOfAll_valid addressable items supported.2 placed
      exact itemsValid.append (.singleton
        (Instruction.valid_operand rfl small (by decide) (by decide) poolSize))
  | call callee arguments =>
      obtain ⟨short, calleeSupported, argumentsSupported⟩ := supported
      have small : arguments.length < 256 ^ 1 := Nat.lt_succ_of_le short
      obtain ⟨calleePlaced, argumentsPlaced⟩ := Literal.placed_append placed
      have calleeValid :=
        Expr.code_valid addressable callee calleeSupported calleePlaced
      have argumentsValid := Expr.codeOfAll_valid addressable arguments
        argumentsSupported argumentsPlaced
      exact (calleeValid.append argumentsValid).append (.singleton
        (Instruction.valid_operand rfl small (by decide) (by decide) poolSize))
  | index collection position => exact supported.elim
  | conditional condition consequence alternative => exact supported.elim

theorem Expr.codeOfAll_valid (addressable : symbols.Addressable) (items : List Expr)
    (supported : Expr.AllSupported symbols items) {first : Nat}
    (placed : Literal.Placed poolSize first (Expr.literalsOfAll items)) :
    CodeValid poolSize (Expr.codeOfAll symbols items first) := by
  cases items with
  | nil => exact List.forall_mem_nil _
  | cons item items =>
      obtain ⟨itemPlaced, restPlaced⟩ := Literal.placed_append placed
      exact (Expr.code_valid addressable item supported.1 itemPlaced).append
        (Expr.codeOfAll_valid addressable items supported.2 restPlaced)

end

/-! ## Programs -/

theorem Stmt.symbolsAfter_addressable (addressable : symbols.Addressable) {stmt : Stmt}
    (fits : stmt.FitsSlot symbols) : (stmt.symbolsAfter symbols).Addressable := by
  cases stmt with
  | binding name value span => exact addressable.define fits
  | expression value span => exact addressable

theorem Stmt.finish_valid {stmt : Stmt} (fits : stmt.FitsSlot symbols)
    (poolSize : Nat) : (stmt.finish symbols).Valid poolSize := by
  cases stmt with
  | binding name value span =>
      exact Instruction.valid_operand rfl fits (by decide) (by decide) poolSize
  | expression value span => exact Instruction.valid_plain rfl poolSize

theorem Program.code_valid (addressable : symbols.Addressable) (program : Program)
    (supported : program.Supported symbols) {first : Nat}
    (placed : Literal.Placed poolSize first program.literals) :
    CodeValid poolSize (program.code symbols first) := by
  induction program generalizing symbols first with
  | nil => exact List.forall_mem_nil _
  | cons stmt rest inductionHypothesis =>
      obtain ⟨⟨valueSupported, fits⟩, restSupported⟩ := supported
      obtain ⟨stmtPlaced, restPlaced⟩ := Literal.placed_append placed
      have valueValid :=
        Expr.code_valid addressable stmt.value valueSupported stmtPlaced
      have finishValid := Stmt.finish_valid fits poolSize
      have restValid := inductionHypothesis
        (Stmt.symbolsAfter_addressable addressable fits) restSupported restPlaced
      exact (valueValid.append (.singleton finishValid)).append restValid

/-- A compiled program is made of valid instructions. -/
theorem Program.valid_of_compile (addressable : symbols.Addressable)
    {program : Program} {constants : Array Value} {fresh : Cell} {draft : Draft}
    (compiled : program.compile (.start symbols constants fresh) = .ok draft) :
    CodeValid draft.constants.size draft.code.toList := by
  obtain ⟨supported, room, rfl⟩ := Program.of_compile_start compiled
  refine program.code_valid addressable supported ⟨room, ?_⟩
  simp

/-- Running the bytes of valid instructions is executing the instructions. -/
theorem Machine.run_eq_executeAll {constants : Array Value}
    {code : List Instruction} (valid : CodeValid constants.size code)
    (machine : Machine) :
    machine.run ⟨Instruction.encodeAll code, constants⟩ =
      machine.executeAll constants code :=
  runFrom_encodeAll (fun instruction member => (valid instruction member).fits)
    constants 0 machine

end ExprMachine
