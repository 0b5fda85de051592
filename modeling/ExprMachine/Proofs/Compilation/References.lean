import ExprMachine.Proofs.Compilation.Actions
import ExprMachine.Proofs.Decoding
import ExprMachine.Proofs.SymbolTable

/-!
# What compiled operands refer to

The instructions that refer to constants, globals and builtins are emitted for the
literals and names of a program, in order. Here programs are compiled one after
another, each with the names and constants that the one before left behind, also
when its compilation failed. Whatever is emitted is read back from the bytes with
the index that the pool or the symbol table gave, with one exception: a name whose
binding was refused for want of slots stays in the table, and a later use of it
is read back with the low bytes of its slot.
-/

namespace ExprMachine

/-- Whether the operand of an instruction numbers a constant, a global or a
builtin. -/
def Instruction.refers (instruction : Instruction) : Bool :=
  match instruction.opcode with
  | .constant | .getGlobal | .setGlobal | .getBuiltin => true
  | _ => false

namespace Mention

/-- The instruction that a mention needs, if the name is known. A literal takes the
next place in the pool. -/
def reference (symbols : SymbolTable) (poolSize : Nat) : Mention → List Instruction
  | literal _ => [⟨.constant, [poolSize]⟩]
  | use name => symbols.code name
  | binding name => [⟨.setGlobal, [(symbols.define name).1]⟩]

def symbolsAfter (symbols : SymbolTable) : Mention → SymbolTable
  | binding name => (symbols.define name).2
  | _ => symbols

/-- The literal that is mentioned. -/
def literals : Mention → List Literal
  | .literal content => [content]
  | _ => []

/-- The instructions that mentions need, one after the other. -/
def references (symbols : SymbolTable) (poolSize : Nat) : List Mention → List Instruction
  | [] => []
  | mention :: rest =>
      mention.reference symbols poolSize ++
        references (mention.symbolsAfter symbols) (poolSize + mention.literals.length)
          rest

end Mention

/-! ## Carrying on -/

/-- The draft that the next program is compiled from. -/
def Draft.next (draft : Draft) : Draft :=
  .start draft.symbols draft.constants draft.fresh

/-- The draft that actions lead to, also when they fail. -/
def Draft.reached : Except Rejection Draft → Draft
  | .ok draft => draft
  | .error rejection => rejection.draft

namespace Program

/-- The draft that the compilation of a program leads to, also when it fails. -/
def reach (carried : Draft) (program : Program) : Draft :=
  Draft.reached ((program.compile carried.next).mapError CompileFailure.rejection)

/-- The draft that programs compiled one after another lead to. -/
def reachAll (carried : Draft) (programs : List Program) : Draft :=
  programs.foldl reach carried

/-- The compilation of the program fails because a name would need the given slot. -/
def RefusedSlot (carried : Draft) (program : Program) (slot : Nat) : Prop :=
  ∃ failure, program.compile carried.next = .error failure ∧
    failure.error.cause = .tooMany .globals (slot + 1)

end Program

/-! ## Instructions that refer to nothing -/

namespace Action

/-- The instruction that is appended refers to nothing, and has all its operands. -/
def Plain : Action → Prop
  | append opcode operands =>
      Instruction.refers ⟨opcode, operands⟩ = false ∧
        operands.length = opcode.widths.length
  | _ => True

def AllPlain (actions : List Action) : Prop :=
  ∀ action ∈ actions, action.Plain

theorem AllPlain.append {front back : List Action} (frontPlain : AllPlain front)
    (backPlain : AllPlain back) : AllPlain (front ++ back) :=
  List.forall_mem_append.mpr ⟨frontPlain, backPlain⟩

theorem AllPlain.singleton {action : Action} (plain : action.Plain) :
    AllPlain [action] :=
  List.forall_mem_singleton.mpr plain

end Action

open ExprMachine.Action

theorem UnaryOperator.plain_opcode (operator : UnaryOperator) :
    Plain (.append operator.opcode []) := by
  cases operator <;> exact ⟨rfl, rfl⟩

mutual

theorem Expr.actions_plain (expr : Expr) : AllPlain expr.actions := by
  cases expr with
  | integer value => exact .singleton trivial
  | string content => exact .singleton trivial
  | boolean value => cases value <;> exact .singleton ⟨rfl, rfl⟩
  | identifier name => exact .singleton trivial
  | unary operator operand =>
      exact operand.actions_plain.append (.singleton operator.plain_opcode)
  | binary operator left right =>
      have leftPlain := left.actions_plain
      have rightPlain := right.actions_plain
      cases operator with
      | modulo => exact .singleton trivial
      | lessThan => exact rightPlain.append (leftPlain.append (.singleton ⟨rfl, rfl⟩))
      | _ => exact leftPlain.append (rightPlain.append (.singleton ⟨rfl, rfl⟩))
  | array items =>
      rw [Expr.actions]
      split
      · exact (Expr.actionsOfAll_plain items).append (.singleton ⟨rfl, rfl⟩)
      · exact .singleton trivial
  | call callee arguments =>
      rw [Expr.actions]
      split
      · exact callee.actions_plain.append
          ((Expr.actionsOfAll_plain arguments).append (.singleton ⟨rfl, rfl⟩))
      · exact .singleton trivial
  | index collection position => exact .singleton trivial
  | conditional condition consequence alternative => exact .singleton trivial

theorem Expr.actionsOfAll_plain (items : List Expr) :
    AllPlain (Expr.actionsOfAll items) := by
  cases items with
  | nil => exact List.forall_mem_nil _
  | cons item items => exact item.actions_plain.append (Expr.actionsOfAll_plain items)

end

theorem Stmt.actions_plain (stmt : Stmt) : AllPlain stmt.actions := by
  refine stmt.value.actions_plain.append (.singleton ?_)
  cases stmt with
  | binding name value span => exact trivial
  | expression value span => exact ⟨rfl, rfl⟩

theorem Program.actions_plain (program : Program) : AllPlain program.actions := by
  intro action member
  obtain ⟨stmt, _, stmtMember⟩ := List.mem_flatMap.mp member
  exact stmt.actions_plain action stmtMember

/-! ## One mention -/

namespace SymbolTable

/-- The name has a slot that no operand can number. -/
def Oversized (symbols : SymbolTable) (name : String) (slot : Nat) : Prop :=
  symbols.resolve? name = some ⟨.global, slot⟩ ∧ Limited.globals.limit ≤ slot

/-- Each builtin name has the index of a builtin. -/
def BuiltinsKnown (symbols : SymbolTable) : Prop :=
  ∀ name index, symbols.resolve? name = some ⟨.builtin, index⟩ →
    index < Builtin.all.length

theorem BuiltinsKnown.define {symbols : SymbolTable} (known : symbols.BuiltinsKnown)
    (name : String) : (symbols.define name).2.BuiltinsKnown := by
  intro other index resolved
  rw [resolve?_define] at resolved
  split at resolved
  · cases resolved
  · exact known other index resolved

/-- A definition leaves a slot that no operand can number only for a name that had it
before or is given it. -/
theorem Oversized.of_define {symbols : SymbolTable} {name other : String} {slot : Nat}
    (oversized : (symbols.define name).2.Oversized other slot) :
    symbols.Oversized other slot ∨ (symbols.define name).1 = slot := by
  obtain ⟨resolved, large⟩ := oversized
  rw [resolve?_define] at resolved
  split at resolved
  · cases resolved
    exact Or.inr rfl
  · exact Or.inl ⟨resolved, large⟩

end SymbolTable

namespace Mention

variable {mention : Mention} {draft next : Draft}

/-- A mention that succeeds appends the instruction that it needs and the constant of
its literal. -/
theorem exists_of_perform (performed : mention.perform draft = .ok next) :
    ∃ instruction,
      mention.reference draft.symbols draft.constants.size = [instruction] ∧
        next =
          { code := draft.code.push instruction
            constants :=
              draft.constants ++ (Literal.constants draft.fresh mention.literals).toArray
            symbols := mention.symbolsAfter draft.symbols
            fresh := draft.fresh + Literal.cellCount mention.literals } := by
  cases mention with
  | literal content =>
      refine ⟨⟨.constant, [draft.constants.size]⟩, rfl, ?_⟩
      cases content with
      | integer value =>
          obtain ⟨_, rfl⟩ := (draft.emitConstant_eq_ok_iff _ _).mp performed
          rfl
      | string text =>
          obtain ⟨_, rfl⟩ := (Draft.emitConstant_eq_ok_iff _ _ _).mp performed
          rfl
  | use name =>
      change draft.emitName name = _ at performed
      rw [reference, SymbolTable.code]
      rw [Draft.emitName] at performed
      cases resolved : draft.symbols.resolve? name with
      | none =>
          rw [resolved] at performed
          cases performed
      | some binding =>
          obtain ⟨scope, index⟩ := binding
          rw [resolved] at performed
          cases scope <;> cases performed <;> exact ⟨_, rfl, rfl⟩
  | binding name =>
      obtain ⟨_, rfl⟩ := (draft.emitBinding_eq_ok_iff _ _).mp performed
      exact ⟨_, rfl, by simp [Draft.extendTo, Draft.extend, literals, symbolsAfter]⟩

/-- A mention that fails appends nothing. -/
theorem kept_of_perform {rejection : Rejection}
    (performed : mention.perform draft = .error rejection) :
    rejection.draft.code = draft.code ∧
      rejection.draft.constants = draft.constants := by
  cases mention with
  | literal content =>
      cases content <;>
        simp only [perform, Draft.emitString, Draft.emitConstant] at performed <;>
        split at performed <;> cases performed <;> exact ⟨rfl, rfl⟩
  | use name =>
      simp only [perform, Draft.emitName] at performed
      split at performed <;> cases performed
      exact ⟨rfl, rfl⟩
  | binding name =>
      simp only [perform, Draft.emitBinding] at performed
      split at performed <;> cases performed
      exact ⟨rfl, rfl⟩

/-- The instruction that a mention needs refers to something, and is complete. -/
theorem refers_of_mem {symbols : SymbolTable} {poolSize : Nat}
    {instruction : Instruction}
    (member : instruction ∈ mention.reference symbols poolSize) :
    instruction.refers = true ∧ instruction.Complete := by
  cases mention with
  | literal content =>
      cases List.mem_singleton.mp member
      exact ⟨rfl, rfl⟩
  | binding name =>
      cases List.mem_singleton.mp member
      exact ⟨rfl, rfl⟩
  | use name =>
      rw [reference, SymbolTable.code] at member
      split at member
      · cases List.mem_singleton.mp member
        exact ⟨rfl, rfl⟩
      · cases List.mem_singleton.mp member
        exact ⟨rfl, rfl⟩
      · cases member

/-- The operand that a mention needs fits, unless the mention is a use of a name with
a slot that no operand can number. -/
theorem fits_of_perform (known : draft.symbols.BuiltinsKnown)
    (performed : mention.perform draft = .ok next) {instruction : Instruction}
    (member :
      instruction ∈ mention.reference draft.symbols draft.constants.size) :
    instruction.Fits ∨ ∃ name slot, mention = .use name ∧
      draft.symbols.Oversized name slot ∧ instruction = ⟨.getGlobal, [slot]⟩ := by
  cases mention with
  | literal content =>
      cases List.mem_singleton.mp member
      have room : draft.constants.size + 1 ≤ maxConstants := by
        cases content with
        | integer value => exact ((draft.emitConstant_eq_ok_iff _ _).mp performed).1
        | string text => exact ((Draft.emitConstant_eq_ok_iff _ _ _).mp performed).1
      exact Or.inl (.cons room .nil)
  | binding name =>
      cases List.mem_singleton.mp member
      have fits := ((draft.emitBinding_eq_ok_iff _ _).mp performed).1
      exact Or.inl (.cons fits .nil)
  | use name =>
      rw [reference, SymbolTable.code] at member
      split at member
      · next slot resolved =>
          cases List.mem_singleton.mp member
          by_cases large : Limited.globals.limit ≤ slot
          · exact Or.inr ⟨name, slot, rfl, ⟨resolved, large⟩, rfl⟩
          · exact Or.inl (.cons (Nat.lt_of_not_le large) .nil)
      · next index resolved =>
          cases List.mem_singleton.mp member
          have small : index < 8 := known name index resolved
          exact Or.inl (.cons (Nat.lt_trans small (by decide)) .nil)
      · cases member

theorem known_symbolsAfter {symbols : SymbolTable} (known : symbols.BuiltinsKnown)
    (mention : Mention) : (mention.symbolsAfter symbols).BuiltinsKnown := by
  cases mention with
  | binding name => exact known.define name
  | _ => exact known

/-- A mention that succeeds gives no name a slot that operands cannot number. -/
theorem oversized_of_perform (performed : mention.perform draft = .ok next)
    {name : String} {slot : Nat}
    (oversized : (mention.symbolsAfter draft.symbols).Oversized name slot) :
    draft.symbols.Oversized name slot := by
  cases mention with
  | binding bound =>
      have fits := ((draft.emitBinding_eq_ok_iff _ _).mp performed).1
      rcases oversized.of_define with before | same
      · exact before
      · have large := oversized.2
        rw [← same] at large
        exact absurd fits (Nat.not_lt_of_le large)
  | _ => exact oversized

/-- A mention that fails gives a name such a slot only when this is why it fails. -/
theorem oversized_of_rejection {rejection : Rejection}
    (performed : mention.perform draft = .error rejection) {name : String} {slot : Nat}
    (oversized : rejection.draft.symbols.Oversized name slot) :
    draft.symbols.Oversized name slot ∨
      rejection.cause = .tooMany .globals (slot + 1) := by
  cases mention with
  | literal content =>
      cases content <;>
        simp only [perform, Draft.emitString, Draft.emitConstant] at performed <;>
        split at performed <;> cases performed <;> exact Or.inl oversized
  | use name =>
      simp only [perform, Draft.emitName] at performed
      split at performed <;> cases performed
      exact Or.inl oversized
  | binding bound =>
      simp only [perform, Draft.emitBinding] at performed
      split at performed <;> cases performed
      rcases oversized.of_define with before | same
      · exact Or.inl before
      · rw [← same]
        exact Or.inr rfl

theorem references_cons (symbols : SymbolTable) (poolSize : Nat) (mention : Mention)
    (rest : List Mention) :
    references symbols poolSize (mention :: rest) =
      mention.reference symbols poolSize ++
        references (mention.symbolsAfter symbols) (poolSize + mention.literals.length)
          rest := rfl

end Mention

/-! ## All actions -/

/-- A draft is reached from another one by what the given mentions need, and by
instructions that refer to nothing. -/
structure Draft.Records (draft reached : Draft) (performed : List Mention) : Prop where
  code : ∃ emitted, reached.code.toList = draft.code.toList ++ emitted ∧
    (∀ instruction ∈ emitted, instruction.Complete) ∧
      emitted.filter Instruction.refers =
        Mention.references draft.symbols draft.constants.size performed
  constants : reached.constants.toList =
    draft.constants.toList ++
      Literal.constants draft.fresh (performed.flatMap Mention.literals)
  fits : ∀ reference ∈
    Mention.references draft.symbols draft.constants.size performed,
      reference.Fits ∨ ∃ name slot, .use name ∈ performed ∧
        draft.symbols.Oversized name slot ∧ reference = ⟨.getGlobal, [slot]⟩

namespace Draft.Records

variable {draft next reached : Draft} {performed : List Mention}

theorem nothing (sameCode : reached.code = draft.code)
    (sameConstants : reached.constants = draft.constants) :
    draft.Records reached [] where
  code := ⟨[], by rw [sameCode, List.append_nil], List.forall_mem_nil _, rfl⟩
  constants := by rw [sameConstants]; exact (List.append_nil _).symm
  fits := List.forall_mem_nil _

theorem append {opcode : Opcode} {operands : List Nat}
    (plain : Plain (.append opcode operands))
    (rest : (draft.emit opcode operands).Records reached performed) :
    draft.Records reached performed where
  code := by
    obtain ⟨emitted, shape, complete, references⟩ := rest.code
    refine ⟨⟨opcode, operands⟩ :: emitted, ?_, ?_, ?_⟩
    · rw [shape, Draft.emit, Array.toList_push, List.append_assoc]
      rfl
    · exact List.forall_mem_cons.mpr ⟨plain.2, complete⟩
    · rw [List.filter_cons_of_neg (Bool.eq_false_iff.mp plain.1)]
      exact references
  constants := rest.constants
  fits := rest.fits

theorem mention {mention : Mention} (known : draft.symbols.BuiltinsKnown)
    (begun : mention.perform draft = .ok next)
    (rest : next.Records reached performed) :
    draft.Records reached (mention :: performed) := by
  obtain ⟨instruction, needed, rfl⟩ := Mention.exists_of_perform begun
  have only : instruction ∈ mention.reference draft.symbols draft.constants.size := by
    rw [needed]
    exact List.mem_singleton_self _
  obtain ⟨refers, complete⟩ := Mention.refers_of_mem only
  have poolSize :
      (draft.constants ++
        (Literal.constants draft.fresh mention.literals).toArray).size =
        draft.constants.size + mention.literals.length := by
    simp
  obtain ⟨⟨emitted, shape, restComplete, references⟩, constants, fits⟩ := rest
  rw [poolSize] at references fits
  refine ⟨⟨instruction :: emitted, ?_, ?_, ?_⟩, ?_, ?_⟩
  · rw [shape, Array.toList_push, List.append_assoc]
    rfl
  · exact List.forall_mem_cons.mpr ⟨complete, restComplete⟩
  · rw [List.filter_cons_of_pos refers, references, Mention.references_cons, needed]
    rfl
  · rw [constants, Array.toList_append, List.append_assoc, List.flatMap_cons,
      Literal.constants_append]
  · intro reference member
    rw [Mention.references_cons, List.mem_append] at member
    rcases member with own | later
    · refine (Mention.fits_of_perform known begun own).imp_right ?_
      rintro ⟨name, slot, rfl, oversized, shape⟩
      exact ⟨name, slot, List.mem_cons_self, oversized, shape⟩
    · refine (fits reference later).imp_right ?_
      rintro ⟨name, slot, used, oversized, shape⟩
      exact ⟨name, slot, List.mem_cons_of_mem _ used,
        Mention.oversized_of_perform begun oversized, shape⟩

end Draft.Records

namespace Action

/-- Actions emit what a front part of their mentions needs, and what all of them need
when none of the actions fails. -/
theorem performAll_records {actions : List Action} (plain : AllPlain actions)
    {draft : Draft} (known : draft.symbols.BuiltinsKnown) :
    ∃ performed rest, actions.filterMap mention? = performed ++ rest ∧
      draft.Records (.reached (performAll actions draft)) performed ∧
        ∀ result, performAll actions draft = .ok result → rest = [] := by
  induction actions generalizing draft with
  | nil => exact ⟨[], [], rfl, .nothing rfl rfl, fun _ _ => rfl⟩
  | cons action actions inductionHypothesis =>
      obtain ⟨headPlain, restPlain⟩ := List.forall_mem_cons.mp plain
      rw [performAll_cons]
      cases action with
      | append opcode operands =>
          have nextKnown : (draft.emit opcode operands).symbols.BuiltinsKnown := known
          obtain ⟨performed, rest, split, records, ended⟩ :=
            inductionHypothesis restPlain nextKnown
          exact ⟨performed, rest, split, records.append headPlain, ended⟩
      | refuse cause => exact ⟨[], _, rfl, .nothing rfl rfl, nofun⟩
      | mention place =>
          cases begun : place.perform draft with
          | error rejection =>
              obtain ⟨sameCode, sameConstants⟩ := Mention.kept_of_perform begun
              rw [perform, begun]
              exact ⟨[], _, rfl, .nothing sameCode sameConstants, nofun⟩
          | ok next =>
              have nextKnown : next.symbols.BuiltinsKnown := by
                obtain ⟨_, _, rfl⟩ := Mention.exists_of_perform begun
                exact Mention.known_symbolsAfter known place
              obtain ⟨performed, rest, split, records, ended⟩ :=
                inductionHypothesis restPlain nextKnown
              rw [perform, begun]
              refine ⟨place :: performed, rest, ?_, records.mention known begun, ended⟩
              have head : mention? (.mention place) = some place := rfl
              rw [List.filterMap_cons_some head, split, List.cons_append]

/-- Actions only give a name a slot that no operand can number when this is why they
fail. -/
theorem oversized_of_performAll {actions : List Action} {draft : Draft} {name : String}
    {slot : Nat}
    (oversized :
      (Draft.reached (performAll actions draft)).symbols.Oversized name slot) :
    draft.symbols.Oversized name slot ∨
      ∃ rejection, performAll actions draft = .error rejection ∧
        rejection.cause = .tooMany .globals (slot + 1) := by
  induction actions generalizing draft with
  | nil => exact Or.inl oversized
  | cons action actions inductionHypothesis =>
      rw [performAll_cons] at oversized ⊢
      cases action with
      | append opcode operands => exact inductionHypothesis oversized
      | refuse cause => exact Or.inl oversized
      | mention place =>
          cases begun : place.perform draft with
          | error rejection =>
              rw [perform, begun] at oversized ⊢
              refine (Mention.oversized_of_rejection begun oversized).imp_right ?_
              intro cause
              exact ⟨rejection, rfl, cause⟩
          | ok next =>
              rw [perform, begun] at oversized ⊢
              refine (inductionHypothesis oversized).imp_left ?_
              intro before
              obtain ⟨_, _, rfl⟩ := Mention.exists_of_perform begun
              exact Mention.oversized_of_perform begun before

/-- An action leaves the symbol table as it is, or adds one definition to it. -/
theorem symbols_perform (action : Action) (draft : Draft) :
    (Draft.reached (action.perform draft)).symbols = draft.symbols ∨
      ∃ name, (Draft.reached (action.perform draft)).symbols =
        (draft.symbols.define name).2 := by
  cases action with
  | append opcode operands => exact Or.inl rfl
  | refuse cause => exact Or.inl rfl
  | mention place =>
      rw [perform]
      cases place with
      | literal content =>
          cases content <;>
            simp only [Mention.perform, Draft.emitString, Draft.emitConstant] <;>
            split <;> exact Or.inl rfl
      | use name =>
          rw [Mention.perform, Draft.emitName]
          split <;> exact Or.inl rfl
      | binding name =>
          refine Or.inr ⟨name, ?_⟩
          simp only [Mention.perform, Draft.emitBinding]
          split <;> rfl

/-- What every definition preserves of a symbol table, actions preserve. -/
theorem symbols_reached (holds : SymbolTable → Prop)
    (kept : ∀ symbols name, holds symbols → holds (symbols.define name).2)
    {actions : List Action} {draft : Draft} (begun : holds draft.symbols) :
    holds (Draft.reached (performAll actions draft)).symbols := by
  induction actions generalizing draft with
  | nil => exact begun
  | cons action actions inductionHypothesis =>
      have after : holds (Draft.reached (action.perform draft)).symbols := by
        rcases action.symbols_perform draft with same | ⟨name, defined⟩
        · rw [same]
          exact begun
        · rw [defined]
          exact kept _ name begun
      rw [performAll_cons]
      cases performed : action.perform draft with
      | ok next =>
          rw [performed] at after
          exact inductionHypothesis after
      | error rejection =>
          rw [performed] at after
          exact after

end Action

/-! ## Programs one after another -/

namespace Program

theorem reach_eq (carried : Draft) (program : Program) :
    program.reach carried =
      Draft.reached (performAll program.actions carried.next) := by
  rw [reach, compile_mapError]

/-- A program that is compiled gives a name a slot that no operand can number only
when it is refused this slot. -/
theorem oversized_of_reach {carried : Draft} {program : Program} {name : String}
    {slot : Nat} (oversized : (program.reach carried).symbols.Oversized name slot) :
    carried.symbols.Oversized name slot ∨ program.RefusedSlot carried slot := by
  rw [reach_eq] at oversized
  refine (oversized_of_performAll oversized).imp_right ?_
  rintro ⟨rejection, failed, cause⟩
  rw [← compile_mapError] at failed
  cases compiled : program.compile carried.next with
  | ok draft =>
      rw [compiled] at failed
      cases failed
  | error failure =>
      rw [compiled] at failed
      cases failed
      exact ⟨failure, compiled, cause⟩

/-- One of the programs was refused the slot, when it was its turn. -/
def AnyRefusedSlot (carried : Draft) (programs : List Program) (slot : Nat) : Prop :=
  ∃ front program back, programs = front ++ program :: back ∧
    RefusedSlot (reachAll carried front) program slot

theorem oversized_of_reachAll {carried : Draft} {programs : List Program}
    {name : String} {slot : Nat}
    (oversized : (reachAll carried programs).symbols.Oversized name slot) :
    carried.symbols.Oversized name slot ∨ AnyRefusedSlot carried programs slot := by
  induction programs generalizing carried with
  | nil => exact Or.inl oversized
  | cons program programs inductionHypothesis =>
      rcases inductionHypothesis oversized with before | ⟨front, later, back, rfl, refused⟩
      · refine (oversized_of_reach before).imp_right ?_
        intro refused
        exact ⟨[], program, programs, rfl, refused⟩
      · exact Or.inr ⟨program :: front, later, back, rfl, refused⟩

theorem known_reachAll {carried : Draft} (known : carried.symbols.BuiltinsKnown)
    (programs : List Program) : (reachAll carried programs).symbols.BuiltinsKnown := by
  induction programs generalizing carried with
  | nil => exact known
  | cons program programs inductionHypothesis =>
      refine inductionHypothesis ?_
      rw [reach_eq]
      exact symbols_reached SymbolTable.BuiltinsKnown
        (fun _ name before => before.define name) known

end Program

/-- Programs are compiled one after another, the first one with the builtins or no
names at all and with any pool of constants, and each of the others with the names
and constants that the one before left behind, whether or not it could be compiled.
Then, for each of them:
* Its bytes are whole instructions. Those that refer to constants, globals and
  builtins are, in order, what a front part of the literals and names of the program
  needs, with the operands cut to their widths; if it could be compiled, what all of
  them need.
* The literals have the places in the pool that their instructions number.
* Cutting changes nothing, unless a name is used that has a slot which no operand can
  number. An earlier program was then refused this slot.
* So what is read back is exactly what the program refers to, when no earlier program
  was refused a slot. -/
theorem Program.references_decoded (bare : Bool) (constants : Array Value) (fresh : Cell)
    (earlier : List Program) (program : Program) :
    let start := Draft.start (.initial bare) constants fresh
    let carried := reachAll start earlier
    let reached := program.reach carried
    ∃ (code : List Instruction) (performed rest : List Mention),
      program.mentions = performed ++ rest ∧
      (∀ draft, program.compile carried.next = .ok draft → rest = []) ∧
      (Line.ofStream reached.bytecode.code).map Line.content =
        code.map .instruction ∧
      let needed :=
        Mention.references carried.symbols carried.constants.size performed
      code.filter Instruction.refers = needed.map Instruction.cut ∧
      reached.constants.toList =
        carried.constants.toList ++
          Literal.constants carried.fresh (performed.flatMap Mention.literals) ∧
      (∀ reference ∈ needed, reference.cut = reference ∨
        ∃ name slot, .use name ∈ performed ∧ carried.symbols.Oversized name slot ∧
          reference = ⟨.getGlobal, [slot]⟩ ∧ AnyRefusedSlot start earlier slot) ∧
      ((∀ slot, ¬ AnyRefusedSlot start earlier slot) →
        code.filter Instruction.refers = needed) := by
  intro start carried reached
  have known : carried.next.symbols.BuiltinsKnown :=
    known_reachAll (fun _ _ resolved => (SymbolTable.builtin_of_initial resolved).2)
      earlier
  have refused : ∀ {name slot}, carried.symbols.Oversized name slot →
      AnyRefusedSlot start earlier slot := by
    intro name slot oversized
    rcases oversized_of_reachAll oversized with before | refused
    · cases (SymbolTable.builtin_of_initial before.1).1
    · exact refused
  obtain ⟨performed, rest, split, ⟨⟨emitted, shape, complete, refers⟩, pool, fits⟩,
    ended⟩ := performAll_records program.actions_plain known
  rw [← reach_eq] at shape pool
  change reached.code.toList = emitted at shape
  have exact : ∀ reference ∈
      Mention.references carried.symbols carried.constants.size performed,
        reference.cut = reference ∨ ∃ name slot, .use name ∈ performed ∧
          carried.symbols.Oversized name slot ∧ reference = ⟨.getGlobal, [slot]⟩ ∧
            AnyRefusedSlot start earlier slot := by
    intro reference member
    refine (fits reference member).imp Instruction.Fits.cut_eq ?_
    rintro ⟨name, slot, used, oversized, same⟩
    exact ⟨name, slot, used, oversized, same, refused oversized⟩
  have decoded : (emitted.map Instruction.cut).filter Instruction.refers =
      (Mention.references carried.symbols carried.constants.size performed).map
        Instruction.cut := by
    change _ = Mention.references carried.symbols carried.constants.size _ at refers
    rw [← refers, List.filter_map]
    rfl
  refine ⟨emitted.map Instruction.cut, performed, rest, split, ?_, ?_, decoded, pool,
    exact, ?_⟩
  · intro draft compiled
    refine ended draft ?_
    rw [← compile_mapError, compiled]
    rfl
  · rw [Draft.bytecode, shape, Line.content_ofStream_encodeAll complete]
  · intro noneRefused
    rw [decoded]
    refine (List.map_congr_left ?_).trans (List.map_id _)
    intro reference member
    rcases exact reference member with same | ⟨_, slot, _, _, _, refused⟩
    · exact same
    · exact absurd refused (noneRefused slot)

/-! ## A name that was refused its slot -/

namespace Program

/-- A use of a name with a slot that no operand can number is compiled, and is read
back as a use of another slot. -/
theorem decoded_of_oversized {carried : Draft} {name : String} {slot : Nat}
    (oversized : carried.symbols.Oversized name slot) (span : Span) :
    ∃ draft, Program.compile [.expression (.identifier name) span] carried.next =
        .ok draft ∧
      (Line.ofStream draft.bytecode.code).map Line.content =
        [.instruction ⟨.getGlobal, [slot % Limited.globals.limit]⟩,
          .instruction ⟨.pop, []⟩] := by
  let program : Program := [.expression (.identifier name) span]
  have known : (carried.symbols.resolve? name).isSome := by
    rw [oversized.1]
    rfl
  have supported : program.Supported carried.symbols := ⟨⟨known, trivial⟩, trivial⟩
  have room : Literal.HaveRoom carried.constants.size program.literals := Or.inl rfl
  have compiled := (program.compile_eq_ok_iff carried.next _).mpr
    ⟨⟨supported, room⟩, rfl⟩
  refine ⟨_, compiled, ?_⟩
  obtain ⟨_, _, shape⟩ := Program.of_compile_start compiled
  have code : program.code carried.symbols carried.constants.size =
      [⟨.getGlobal, [slot]⟩, ⟨.pop, []⟩] := by
    simp only [program, Program.code, Stmt.code, Stmt.value, Stmt.finish, Expr.code,
      SymbolTable.code, oversized.1]
    rfl
  rw [shape, Draft.bytecode, code]
  have complete : ∀ instruction ∈
      [(⟨.getGlobal, [slot]⟩ : Instruction), ⟨.pop, []⟩], instruction.Complete := by
    intro instruction member
    rcases List.mem_pair.mp member with rfl | rfl <;> rfl
  exact Line.content_ofStream_encodeAll complete

theorem symbols_reach_binding (carried : Draft) (name : String) (span : Span) :
    (reach carried [.binding name (.boolean true) span]).symbols =
      (carried.symbols.define name).2 := by
  have reached : reach carried [.binding name (.boolean true) span] =
      Draft.reached (((carried.next.emit .pushTrue []).emitBinding name)) := by
    rw [reach_eq]
    exact congrArg Draft.reached (performAll_singleton (.mention (.binding name)) _)
  rw [reached]
  simp only [Draft.emitBinding]
  split <;> rfl

/-- Names that differ in their lengths. -/
def nameOfLength (length : Nat) : String :=
  String.ofList (List.replicate length 'g')

theorem nameOfLength_inj {length other : Nat}
    (same : nameOfLength length = nameOfLength other) : length = other := by
  have characters := congrArg (fun name => name.toList.length) same
  simpa [nameOfLength] using characters

/-- Programs each of which binds one more name. -/
def bindingsOfLengths (count : Nat) : List Program :=
  (List.range count).map fun length =>
    [.binding (nameOfLength length) (.boolean true) .unknown]

theorem symbols_reachAll_bindings (constants : Array Value) (fresh : Cell)
    (count : Nat) :
    let symbols :=
      (reachAll (.start .empty constants fresh) (bindingsOfLengths count)).symbols
    symbols.globalCount = count ∧ ∀ length, symbols.resolve? (nameOfLength length) =
      if length < count then some ⟨.global, length⟩ else none := by
  induction count with
  | zero =>
      refine ⟨rfl, fun length => ?_⟩
      simp [bindingsOfLengths, reachAll, Draft.start, SymbolTable.resolve?,
        SymbolTable.empty]
  | succ count inductionHypothesis =>
      obtain ⟨counted, resolved⟩ := inductionHypothesis
      have own := resolved count
      rw [if_neg (Nat.lt_irrefl count)] at own
      rw [bindingsOfLengths, List.range_succ, List.map_append, reachAll,
        List.foldl_append]
      change let symbols := (reach (reachAll _ (bindingsOfLengths count)) _).symbols
        symbols.globalCount = _ ∧ ∀ length, symbols.resolve? _ = _
      rw [symbols_reach_binding]
      generalize (reachAll _ (bindingsOfLengths count)).symbols = symbols at *
      have defined : symbols.define (nameOfLength count) =
          (count, symbols.bindFresh (nameOfLength count)) := by
        rw [SymbolTable.define, own, counted]
      rw [defined]
      refine ⟨congrArg Nat.succ counted, fun length => ?_⟩
      rw [SymbolTable.resolve?_bindFresh, counted, resolved length]
      by_cases same : nameOfLength count = nameOfLength length
      · cases nameOfLength_inj same
        rw [if_pos rfl, if_pos (Nat.lt_succ_self count)]
      · have different : length ≠ count := fun equal => same (by rw [equal])
        rw [if_neg same]
        simp only [Nat.lt_succ_iff_lt_or_eq, different, or_false]

/-- When more names are bound than there are slots, the last one is refused its slot.
Its use is compiled all the same, and is read back as a use of another name. -/
theorem decoded_after_refusal {count : Nat} (full : Limited.globals.limit ≤ count) :
    let carried := reachAll (.start .empty #[] 0) (bindingsOfLengths (count + 1))
    let last := nameOfLength count
    carried.symbols.resolve? last = some ⟨.global, count⟩ ∧
      ∃ draft, Program.compile [.expression (.identifier last) .unknown] carried.next =
          .ok draft ∧
        (Line.ofStream draft.bytecode.code).map Line.content =
          [.instruction ⟨.getGlobal, [count % Limited.globals.limit]⟩,
            .instruction ⟨.pop, []⟩] := by
  intro carried last
  have resolved := (symbols_reachAll_bindings #[] 0 (count + 1)).2 count
  rw [if_pos (Nat.lt_succ_self count)] at resolved
  exact ⟨resolved, decoded_of_oversized ⟨resolved, full⟩ .unknown⟩

end Program

end ExprMachine
