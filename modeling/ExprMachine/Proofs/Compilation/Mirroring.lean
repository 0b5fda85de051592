import ExprMachine.Proofs.Compilation.Safety
import ExprMachine.Proofs.Machine.Mirroring

/-!
# Copies of compiled programs

The constants of a program are built in order from a given cell on, so its constants
for another cell are relocated copies of them. A copy of a machine that runs the
same code with copies of the constants stays a copy, and if the program has any
statements, then the value that each of the two popped last is that of the last
statement.
-/

namespace ExprMachine

variable {relocation : Relocation} {earlier : String}

namespace Literal

theorem relocate_constants_of_apply {cell target : Nat} (literals : List Literal)
    (moved : ∀ distance, distance < cellCount literals →
      relocation.apply (cell + distance) = target + distance) :
    (constants cell literals).map (Value.relocate relocation) =
      constants target literals := by
  induction literals generalizing cell target with
  | nil => rfl
  | cons literal literals inductionHypothesis =>
      cases literal with
      | integer value =>
          rw [constants, List.map_cons, inductionHypothesis moved]
          rfl
      | string content =>
          have first : relocation.apply cell = target := moved 0 (Nat.succ_pos _)
          have rest : (constants (cell + 1) literals).map (Value.relocate relocation) =
              constants (target + 1) literals := by
            refine inductionHypothesis fun distance inside => ?_
            have next := moved (distance + 1) (Nat.succ_lt_succ inside)
            rwa [Nat.add_comm distance, ← Nat.add_assoc, ← Nat.add_assoc] at next
          rw [constants, List.map_cons, rest, Value.relocate, first]
          rfl

theorem relocate_constants {cell : Nat} (inside : relocation.boundary ≤ cell)
    (literals : List Literal) :
    (constants cell literals).map (Value.relocate relocation) =
      constants (relocation.apply cell) literals :=
  relocate_constants_of_apply literals fun distance _ =>
    relocation.apply_add_of_le inside distance

theorem within_constants (cell : Nat) (literals : List Literal) :
    ∀ value ∈ constants cell literals, value.Within (cell + cellCount literals) := by
  induction literals generalizing cell with
  | nil => exact List.forall_mem_nil _
  | cons literal literals inductionHypothesis =>
      cases literal with
      | integer value =>
          exact List.forall_mem_cons.mpr ⟨trivial, inductionHypothesis cell⟩
      | string content =>
          have rest := inductionHypothesis (cell + 1)
          rw [Nat.add_right_comm, Nat.add_assoc] at rest
          have first : cell < cell + (cellCount literals + 1) :=
            Nat.lt_add_of_pos_right (Nat.succ_pos _)
          exact List.forall_mem_cons.mpr ⟨first, rest⟩

end Literal

/-! ## Copies of constants -/

namespace Copied

/-- The constants are copied if they are relocated one by one, and more constants
come after the copies. -/
theorem of_append {constants copies : Array Value} {more : List Value}
    (within : ∀ value ∈ constants, value.Within relocation.boundary)
    (same : copies.toList = constants.toList.map (Value.relocate relocation) ++ more) :
    Copied relocation constants copies := by
  intro index value found
  refine ⟨within value (Array.mem_of_getElem? found), ?_⟩
  rw [← Array.getElem?_toList] at found ⊢
  have inside : index < constants.toList.length :=
    (List.getElem?_eq_some_iff.mp found).1
  rw [same, List.getElem?_append_left (by rwa [List.length_map]), List.getElem?_map,
    found]
  rfl

end Copied

/-- The draft with relocated constants. -/
def Draft.relocate (relocation : Relocation) (draft : Draft) : Draft :=
  { draft with
    constants := draft.constants.map (Value.relocate relocation)
    fresh := relocation.apply draft.fresh }

/-- With relocated constants, the same program is compiled to the same draft with
relocated constants. -/
theorem Program.compile_relocate {program : Program} {symbols : SymbolTable}
    {constants : Array Value} {fresh : Nat} {draft : Draft}
    (inside : relocation.boundary ≤ fresh)
    (compiled : program.compile (.start symbols constants fresh) = .ok draft) :
    program.compile (.start symbols (constants.map (Value.relocate relocation))
      (relocation.apply fresh)) = .ok (draft.relocate relocation) := by
  obtain ⟨supported, room, rfl⟩ := Program.of_compile_start compiled
  refine (program.compile_eq_ok_iff _ _).mpr ⟨⟨supported, ?_⟩, ?_⟩
  · rwa [Draft.start, Array.size_map]
  · have literals := Literal.relocate_constants inside program.literals
    simp [Draft.extendTo, Draft.extend, Draft.start, Draft.relocate, ← literals,
      relocation.apply_add_of_le inside]

/-! ## Runs -/

/-- The code of a program with statements ends with the end of its last statement. -/
theorem Program.exists_code_finish (program : Program) (nonempty : program ≠ [])
    (symbols : SymbolTable) (first : Nat) :
    ∃ front stmt table, program.code symbols first = front ++ [Stmt.finish table stmt] := by
  induction program generalizing symbols first with
  | nil => exact absurd rfl nonempty
  | cons stmt rest inductionHypothesis =>
      by_cases last : rest = []
      · subst last
        exact ⟨stmt.value.code symbols first, stmt, symbols, List.append_nil _⟩
      · obtain ⟨front, final, table, shape⟩ :=
          inductionHypothesis last (stmt.symbolsAfter symbols)
            (first + stmt.literals.length)
        refine ⟨stmt.code symbols first ++ front, final, table, ?_⟩
        rw [code, shape, List.append_assoc]

namespace Machine

variable {machine copy : Machine} {constants copies : Array Value}

theorem Mirrors.finish (mirrors : Mirrors relocation earlier machine copy)
    (enough : 1 ≤ machine.top) (symbols : SymbolTable) (stmt : Stmt) :
    PopsMirrored relocation (machine.execute constants (stmt.finish symbols))
      (copy.execute copies (stmt.finish symbols)) := by
  cases stmt with
  | binding name value span => exact (mirrors.setGlobal enough _).2
  | expression value span => exact (mirrors.discard enough constants copies []).2

/-- The code of a compiled program does the same in the copy. If there is any, the
values popped last are copies of each other. -/
theorem Mirrors.executeAll_compiled {symbols : SymbolTable} {program : Program}
    {pool : Array Value} {fresh : Cell} {draft : Draft}
    (addressable : symbols.Addressable)
    (compiled : program.compile (.start symbols pool fresh) = .ok draft)
    (copied : Copied relocation draft.constants copies)
    (mirrors : Mirrors relocation earlier machine copy) :
    OutcomeMirrors relocation earlier
        (machine.executeAll draft.constants draft.code.toList)
        (copy.executeAll copies draft.code.toList) ∧
      (program ≠ [] → PopsMirrored relocation
        (machine.executeAll draft.constants draft.code.toList)
        (copy.executeAll copies draft.code.toList)) := by
  have valid := Program.valid_of_compile addressable compiled
  have told := Program.depthAfterAll_of_compile compiled machine.top
  refine ⟨mirrors.executeAll valid copied told, fun nonempty => ?_⟩
  obtain ⟨_, _, shape⟩ := Program.of_compile_start compiled
  obtain ⟨front, final, table, ends⟩ :=
    program.exists_code_finish nonempty symbols pool.size
  have split : draft.code.toList = front ++ [Stmt.finish table final] := by
    rw [shape]
    exact ends
  rw [split] at valid told ⊢
  rw [Instruction.depthAfterAll_append, Option.bind_eq_some_iff] at told
  obtain ⟨middle, frontTold, finalTold⟩ := told
  rw [Instruction.depthAfterAll_singleton] at finalTold
  have frontValid := (List.forall_mem_append.mp valid).1
  intro next copyNext ended copyEnded
  -- Both runs get to the end of the last statement, and this pops the two values.
  rw [executeAll_append] at ended copyEnded
  obtain ⟨before, reached, ended⟩ := (except_bind_eq_ok_iff _ _ _).mp ended
  obtain ⟨copyBefore, copyReached, copyEnded⟩ :=
    (except_bind_eq_ok_iff _ _ _).mp copyEnded
  rw [executeAll_singleton] at ended copyEnded
  have height := top_of_executeAll frontValid frontTold reached
  have enough : 1 ≤ before.top := by
    have takes := Instruction.takes_le_of_depthAfter finalTold
    rw [← height] at takes
    cases final <;> exact takes
  have frontMirrors := mirrors.executeAll frontValid copied frontTold
  rw [reached, copyReached] at frontMirrors
  cases frontMirrors with
  | ok beforeMirrors =>
      exact beforeMirrors.finish enough table final next copyNext ended copyEnded

/-- A machine that is just started, and its copy. -/
theorem mirrors_start {globals : Array Value} {fresh : Cell}
    (within : ∀ value ∈ globals, value.Within fresh)
    (inside : relocation.boundary ≤ fresh) (stackSize : Nat)
    (copyView : copy.view =
      ⟨[], stackSize, globals.map (Value.relocate relocation), earlier,
        relocation.apply fresh⟩) :
    Mirrors relocation earlier (start stackSize globals fresh) copy where
  view := by
    rw [copyView]
    simp [View.copied, Machine.view, Machine.stack, start]
  within := by
    refine ⟨?_, within⟩
    simp [Machine.view, Machine.stack, start]
  inside := inside

end Machine

end ExprMachine
