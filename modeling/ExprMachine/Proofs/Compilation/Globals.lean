import ExprMachine.Proofs.Machine.Globals
import ExprMachine.Proofs.SymbolTable

/-!
# Globals of compiled programs

The code of an expression fills no slot, and reads only the slots of names in the
symbol table. The code of a binding fills the slot of its name. So the code of a
program leaves as many globals as the symbol table has handed out slots, and each slot
that it reads was handed out before or is filled by earlier code.
-/

namespace ExprMachine

variable {symbols : SymbolTable}

/-- The code fills no slot, and the slots that it reads are those of names. -/
def ReadsGlobals (symbols : SymbolTable) (code : List Instruction) : Prop :=
  ∀ instruction ∈ code, instruction.opcode ≠ .setGlobal ∧
    ∀ slot, instruction = ⟨.getGlobal, [slot]⟩ →
      ∃ name, symbols.resolve? name = some ⟨.global, slot⟩

namespace ReadsGlobals

theorem append {front back : List Instruction} (frontReads : ReadsGlobals symbols front)
    (backReads : ReadsGlobals symbols back) : ReadsGlobals symbols (front ++ back) :=
  List.forall_mem_append.mpr ⟨frontReads, backReads⟩

theorem other {opcode : Opcode} (noStore : opcode ≠ .setGlobal)
    (noLoad : opcode ≠ .getGlobal) (operands : List Nat) :
    ReadsGlobals symbols [⟨opcode, operands⟩] := by
  refine List.forall_mem_singleton.mpr ⟨noStore, fun slot same => ?_⟩
  injection same with sameOpcode
  exact absurd sameOpcode noLoad

end ReadsGlobals

theorem UnaryOperator.readsGlobals (operator : UnaryOperator) :
    ReadsGlobals symbols [⟨operator.opcode, []⟩] := by
  cases operator <;> exact .other (by decide) (by decide) []

theorem BinaryOperator.readsGlobals (operator : BinaryOperator) :
    ReadsGlobals symbols
      (operator.opcode?.toList.map fun opcode => ⟨opcode, []⟩) := by
  cases operator with
  | lessThan | modulo => exact List.forall_mem_nil _
  | _ => exact .other (by decide) (by decide) []

theorem SymbolTable.readsGlobals_code (symbols : SymbolTable) (name : String) :
    ReadsGlobals symbols (symbols.code name) := by
  unfold SymbolTable.code
  split
  · next slot resolved =>
      refine List.forall_mem_singleton.mpr ⟨nofun, fun other same => ?_⟩
      cases same
      exact ⟨name, resolved⟩
  · exact .other (by decide) (by decide) _
  · exact List.forall_mem_nil _

mutual

theorem Expr.readsGlobals_code (expr : Expr) (first : Nat) :
    ReadsGlobals symbols (expr.code symbols first) := by
  cases expr with
  | integer value => exact .other (by decide) (by decide) _
  | string content => exact .other (by decide) (by decide) _
  | boolean value => cases value <;> exact .other (by decide) (by decide) _
  | identifier name => exact symbols.readsGlobals_code name
  | unary operator operand =>
      exact (operand.readsGlobals_code first).append operator.readsGlobals
  | binary operator left right =>
      have leftReads := left.readsGlobals_code
      have rightReads := right.readsGlobals_code
      cases operator with
      | lessThan =>
          exact ((rightReads _).append (leftReads _)).append
            (.other (by decide) (by decide) [])
      | _ =>
          exact ((leftReads _).append (rightReads _)).append
            (BinaryOperator.readsGlobals _)
  | array items =>
      exact (Expr.readsGlobals_codeOfAll items first).append
        (.other (by decide) (by decide) _)
  | call callee arguments =>
      exact ((callee.readsGlobals_code first).append
        (Expr.readsGlobals_codeOfAll arguments _)).append
          (.other (by decide) (by decide) _)
  | index collection position => exact List.forall_mem_nil _
  | conditional condition consequence alternative => exact List.forall_mem_nil _

theorem Expr.readsGlobals_codeOfAll (items : List Expr) (first : Nat) :
    ReadsGlobals symbols (Expr.codeOfAll symbols items first) := by
  cases items with
  | nil => exact List.forall_mem_nil _
  | cons item items =>
      exact (item.readsGlobals_code first).append
        (Expr.readsGlobals_codeOfAll items _)

end

/-! ## The number of globals -/

theorem ReadsGlobals.globalsAfterAll {code : List Instruction}
    (reads : ReadsGlobals symbols code) (count : Nat) :
    Instruction.globalsAfterAll count code = count := by
  induction code with
  | nil => rfl
  | cons instruction code inductionHypothesis =>
      obtain ⟨⟨noStore, _⟩, rest⟩ := List.forall_mem_cons.mp reads
      rw [Instruction.globalsAfterAll, List.foldl_cons,
        Instruction.globalsAfter_of_ne noStore]
      exact inductionHypothesis rest

theorem Stmt.numbered_symbolsAfter (numbered : symbols.Numbered) (stmt : Stmt) :
    (stmt.symbolsAfter symbols).Numbered := by
  cases stmt with
  | binding name value span => exact numbered.define name
  | expression value span => exact numbered

theorem Stmt.globalsAfterAll_code (numbered : symbols.Numbered) (stmt : Stmt)
    (first : Nat) :
    Instruction.globalsAfterAll symbols.globalCount (stmt.code symbols first) =
      (stmt.symbolsAfter symbols).globalCount := by
  rw [code, Instruction.globalsAfterAll_append,
    (stmt.value.readsGlobals_code first).globalsAfterAll]
  cases stmt with
  | binding name value span => exact (numbered.globalCount_define name).symm
  | expression value span => rfl

namespace Program

theorem numbered_symbolsAfter (numbered : symbols.Numbered) (program : Program) :
    (program.symbolsAfter symbols).Numbered := by
  induction program generalizing symbols with
  | nil => exact numbered
  | cons stmt rest inductionHypothesis =>
      exact inductionHypothesis (stmt.numbered_symbolsAfter numbered)

/-- The code of a program leaves as many globals as slots are handed out. -/
theorem globalsAfterAll_code (numbered : symbols.Numbered) (program : Program)
    (first : Nat) :
    Instruction.globalsAfterAll symbols.globalCount (program.code symbols first) =
      (program.symbolsAfter symbols).globalCount := by
  induction program generalizing symbols first with
  | nil => rfl
  | cons stmt rest inductionHypothesis =>
      rw [code, Instruction.globalsAfterAll_append, stmt.globalsAfterAll_code numbered]
      exact inductionHypothesis (stmt.numbered_symbolsAfter numbered) _

end Program

/-! ## Slots that are filled -/

/-- A slot handed out by a statement was handed out before, or is filled by it. -/
theorem Stmt.lt_or_fills {stmt : Stmt} {slot : Nat}
    (inside : slot < (stmt.symbolsAfter symbols).globalCount) (first : Nat) :
    slot < symbols.globalCount ∨ ⟨.setGlobal, [slot]⟩ ∈ stmt.code symbols first := by
  cases stmt with
  | expression value span => exact Or.inl inside
  | binding name value span =>
      have finish : (⟨.setGlobal, [(symbols.define name).1]⟩ : Instruction) ∈
          (Stmt.binding name value span).code symbols first :=
        List.mem_append_right _ (List.mem_singleton_self _)
      change slot < (symbols.define name).2.globalCount at inside
      rcases symbols.define_cases name with ⟨_, _, defined⟩ | ⟨_, defined⟩
      · rw [defined] at inside
        exact Or.inl inside
      · rw [defined] at inside finish
        rcases Nat.lt_succ_iff_lt_or_eq.mp inside with before | rfl
        · exact Or.inl before
        · exact Or.inr finish

theorem Stmt.lt_of_reads {stmt : Stmt} {slot first : Nat} (numbered : symbols.Numbered)
    (reads : ⟨.getGlobal, [slot]⟩ ∈ stmt.code symbols first) :
    slot < symbols.globalCount := by
  rcases List.mem_append.mp reads with inValue | inFinish
  · obtain ⟨name, resolved⟩ :=
      (stmt.value.readsGlobals_code first _ inValue).2 slot rfl
    exact numbered.slot_lt resolved
  · cases stmt <;> cases List.mem_singleton.mp inFinish

/-- A slot handed out by a program was handed out before, or is filled by its code. -/
theorem Program.lt_or_fills {program : Program} {slot : Nat}
    (inside : slot < (program.symbolsAfter symbols).globalCount) (first : Nat) :
    slot < symbols.globalCount ∨ ⟨.setGlobal, [slot]⟩ ∈ program.code symbols first := by
  induction program generalizing symbols first with
  | nil => exact Or.inl inside
  | cons stmt rest inductionHypothesis =>
      rcases inductionHypothesis inside (first + stmt.literals.length) with
        handed | filled
      · exact (Stmt.lt_or_fills handed first).imp_right (List.mem_append_left _)
      · exact Or.inr (List.mem_append_right _ filled)

/-- A slot that the code of a program reads was handed out before, or is filled by
earlier code. -/
theorem Program.lt_or_fills_of_reads {program : Program} {slot first : Nat}
    {before after : List Instruction} (numbered : symbols.Numbered)
    (split : program.code symbols first =
      before ++ ⟨.getGlobal, [slot]⟩ :: after) :
    slot < symbols.globalCount ∨ ⟨.setGlobal, [slot]⟩ ∈ before := by
  induction program generalizing symbols first before with
  | nil => exact absurd split.symm (by simp [code])
  | cons stmt rest inductionHypothesis =>
      rw [code, List.append_eq_append_iff] at split
      have later : ∀ {middle}, Program.code (stmt.symbolsAfter symbols) rest
          (first + stmt.literals.length) = middle ++ ⟨.getGlobal, [slot]⟩ :: after →
            slot < symbols.globalCount ∨
              ⟨.setGlobal, [slot]⟩ ∈ stmt.code symbols first ++ middle := by
        intro middle restSplit
        rcases inductionHypothesis (stmt.numbered_symbolsAfter numbered) restSplit with
          inside | filled
        · exact (Stmt.lt_or_fills inside first).imp_right
            (List.mem_append_left middle)
        · exact Or.inr (List.mem_append_right _ filled)
      rcases split with ⟨middle, rfl, restSplit⟩ | ⟨middle, stmtSplit, restSplit⟩
      · exact later restSplit
      · cases middle with
        | nil =>
            have ahead : Program.code (stmt.symbolsAfter symbols) rest
                (first + stmt.literals.length) =
                [] ++ ⟨.getGlobal, [slot]⟩ :: after := restSplit.symm
            rw [List.append_nil] at stmtSplit
            have filled := later ahead
            rwa [List.append_nil, stmtSplit] at filled
        | cons instruction middle =>
            injection restSplit with same _
            subst same
            have reads : ⟨.getGlobal, [slot]⟩ ∈ stmt.code symbols first := by
              rw [stmtSplit]
              exact List.mem_append_right _ List.mem_cons_self
            exact Or.inl (Stmt.lt_of_reads numbered reads)

end ExprMachine
