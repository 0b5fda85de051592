import ExprMachine.Command.Arguments
import ExprMachine.Proofs.Sequencing

/-!
# Asking for a form

Arguments that ask for no form can be preceded by a request for one. They are read as
before, and nothing but the form is added to what they ask for.
-/

namespace ExprMachine

namespace Form

/-- The form as the value of an option. -/
def name : Form → String
  | tree => "ast"
  | bytecode => "bytecode"

end Form

namespace Arguments

/-- The arguments with a request for a form. -/
def asking (form : Form) (arguments : Arguments) : Arguments :=
  { arguments with emit := some form }

variable (form : Form) {arguments next : Arguments}

/-! ## Options and files -/

theorem set_asking {option : ValueOption} {text : String}
    (set : arguments.set option text = .ok next) (absent : next.emit = none) :
    arguments.emit = none ∧
      (arguments.asking form).set option text = .ok (next.asking form) := by
  cases option with
  | emit =>
      obtain ⟨value, once, same⟩ := (except_bind_eq_ok_iff _ _ _).mp set
      cases same
      cases absent
      unfold setOnce at once
      split at once <;> cases once
  | code | explain | stackSize | format | history =>
      obtain ⟨value, once, same⟩ := (except_bind_eq_ok_iff _ _ _).mp set
      cases same
      exact ⟨absent, (except_bind_eq_ok_iff _ _ _).mpr ⟨value, once, rfl⟩⟩

theorem turnOn_asking {switch : Switch} (turned : arguments.turnOn switch = .ok next) :
    next.emit = arguments.emit ∧
      (arguments.asking form).turnOn switch = .ok (next.asking form) := by
  cases switch with
  | noColour =>
      by_cases on : arguments.noColour = true
      · cases (if_pos on).symm.trans turned
      · cases (if_neg on).symm.trans turned
        exact ⟨rfl, if_neg on⟩
  | verbose =>
      cases turned
      exact ⟨rfl, rfl⟩
  | help | version => cases turned

theorem setFile_asking {file : String} (set : arguments.setFile file = .ok next) :
    next.emit = arguments.emit ∧
      (arguments.asking form).setFile file = .ok (next.asking form) := by
  unfold setFile at set
  split at set
  · cases set
  · rename_i first
    split at set
    · cases set
    · rename_i named
      cases set
      exact ⟨rfl, (if_neg first).trans (if_neg named)⟩

theorem withDefault_asking {α : Type} {option : ValueOption} {current : Option α}
    {text : Option String} (set : arguments.withDefault option current text = .ok next)
    (absent : next.emit = none) :
    arguments.emit = none ∧ (arguments.asking form).withDefault option current text =
      .ok (next.asking form) := by
  unfold withDefault at set ⊢
  split at set
  · exact set_asking form set absent
  · cases set
    exact ⟨absent, rfl⟩

end Arguments

namespace Progress

/-- The progress with a request for a form. -/
def asking (form : Form) (progress : Progress) : Progress :=
  { progress with arguments := progress.arguments.asking form }

variable (form : Form) {arguments : Arguments} {progress next : Progress}

/-! ## One argument -/

theorem takeLong_asking {text : List Char} (taken : takeLong arguments text = .ok next)
    (absent : next.arguments.emit = none) :
    arguments.emit = none ∧
      takeLong (arguments.asking form) text = .ok (next.asking form) := by
  simp only [takeLong] at taken ⊢
  split at taken
  · obtain ⟨set, found, rfl⟩ := exists_of_except_map_eq_ok taken
    obtain ⟨none, again⟩ := Arguments.set_asking form found absent
    rw [again]
    exact ⟨none, rfl⟩
  · cases taken
    exact ⟨absent, rfl⟩
  · split at taken
    · obtain ⟨set, found, rfl⟩ := exists_of_except_map_eq_ok taken
      obtain ⟨same, again⟩ := Arguments.turnOn_asking form found
      rw [again]
      exact ⟨same.symm.trans absent, rfl⟩
    · cases taken
    · cases taken

theorem takeLetters_asking {letters : List Char}
    (taken : takeLetters arguments letters = .ok next)
    (absent : next.arguments.emit = none) :
    arguments.emit = none ∧
      takeLetters (arguments.asking form) letters = .ok (next.asking form) := by
  fun_induction takeLetters arguments letters with
  | case1 arguments =>
      cases taken
      exact ⟨absent, rfl⟩
  | case2 arguments letters inductionHypothesis =>
      obtain ⟨set, found, rest⟩ := (except_bind_eq_ok_iff _ _ _).mp taken
      obtain ⟨same, again⟩ := Arguments.turnOn_asking form found
      obtain ⟨none, more⟩ := inductionHypothesis set rest
      exact ⟨same.symm.trans none, (except_bind_eq_ok_iff _ _ _).mpr ⟨_, again, more⟩⟩
  | case3 | case4 | case8 => cases taken
  | case5 =>
      cases taken
      exact ⟨absent, rfl⟩
  | case6 arguments value =>
      obtain ⟨set, found, rfl⟩ := exists_of_except_map_eq_ok taken
      obtain ⟨none, again⟩ := Arguments.set_asking form found absent
      refine ⟨none, ?_⟩
      rw [takeLetters, again]
      rfl
  | case7 arguments value notEmpty noSign =>
      obtain ⟨set, found, rfl⟩ := exists_of_except_map_eq_ok taken
      obtain ⟨none, again⟩ := Arguments.set_asking form found absent
      refine ⟨none, ?_⟩
      rw [takeLetters, again]
      · rfl
      · exact notEmpty
      · exact noSign

theorem takeFresh_asking {text : String} (taken : takeFresh arguments text = .ok next)
    (absent : next.arguments.emit = none) :
    arguments.emit = none ∧
      takeFresh (arguments.asking form) text = .ok (next.asking form) := by
  unfold takeFresh at taken ⊢
  split at taken
  · cases taken
    exact ⟨absent, rfl⟩
  · exact takeLong_asking form taken absent
  · exact takeLetters_asking form taken absent
  · obtain ⟨set, found, rfl⟩ := exists_of_except_map_eq_ok taken
    obtain ⟨same, again⟩ := Arguments.setFile_asking form found
    rw [again]
    exact ⟨same.symm.trans absent, rfl⟩

theorem take_asking {text : String} (taken : progress.take text = .ok next)
    (absent : next.arguments.emit = none) :
    progress.arguments.emit = none ∧
      (progress.asking form).take text = .ok (next.asking form) := by
  obtain ⟨arguments, awaiting, onlyFiles⟩ := progress
  cases onlyFiles with
  | true =>
      obtain ⟨set, found, same⟩ := (except_bind_eq_ok_iff _ _ _).mp taken
      cases same
      obtain ⟨same, again⟩ := Arguments.setFile_asking form found
      exact ⟨same.symm.trans absent, (except_bind_eq_ok_iff _ _ _).mpr ⟨_, again, rfl⟩⟩
  | false =>
      cases awaiting with
      | none => exact takeFresh_asking form taken absent
      | some option =>
          by_cases other : Arguments.looksLikeOption text = true
          · cases (if_pos other).symm.trans taken
          · obtain ⟨set, found, rfl⟩ :=
              exists_of_except_map_eq_ok ((if_neg other).symm.trans taken)
            obtain ⟨none, again⟩ := Arguments.set_asking form found absent
            refine ⟨none, (if_neg other).trans ?_⟩
            exact (congrArg (Except.map settled) again).trans rfl

/-! ## All arguments -/

/-- The arguments are taken one by one, each as it was. -/
theorem foldlM_take_asking {texts : List String}
    (taken : texts.foldlM take progress = .ok next) (absent : next.arguments.emit = none) :
    progress.arguments.emit = none ∧
      texts.foldlM take (progress.asking form) = .ok (next.asking form) := by
  induction texts generalizing progress with
  | nil =>
      cases taken
      exact ⟨absent, rfl⟩
  | cons text texts inductionHypothesis =>
      rw [List.foldlM_cons] at taken ⊢
      obtain ⟨middle, first, rest⟩ := (except_bind_eq_ok_iff _ _ _).mp taken
      obtain ⟨none, more⟩ := inductionHypothesis rest
      obtain ⟨noneBefore, again⟩ := take_asking form first none
      exact ⟨noneBefore, (except_bind_eq_ok_iff _ _ _).mpr ⟨_, again, more⟩⟩

theorem finish_asking (finished : progress.finish = .ok arguments) :
    progress.arguments = arguments ∧
      (progress.asking form).finish = .ok (arguments.asking form) := by
  obtain ⟨given, awaiting, onlyFiles⟩ := progress
  cases awaiting with
  | some option => cases finished
  | none =>
      cases finished
      exact ⟨rfl, rfl⟩

/-- The request for a form, as two arguments before all others. -/
theorem take_request :
    start.take "--emit" = .ok ⟨.empty, some .emit, false⟩ ∧
      take ⟨.empty, some .emit, false⟩ form.name = .ok (start.asking form) := by
  cases form <;> constructor <;> with_unfolding_all rfl

end Progress

namespace Arguments

variable {arguments : Arguments}

/-- A request for a form adds the form to what is asked for, and changes nothing else. -/
theorem read_asking (form : Form) {texts : List String} {environment : Environment}
    (understood : read texts environment = .ok arguments) (absent : arguments.emit = none) :
    read ("--emit" :: form.name :: texts) environment = .ok (arguments.asking form) := by
  obtain ⟨progress, taken, understood⟩ := (except_bind_eq_ok_iff _ _ _).mp understood
  obtain ⟨given, finished, understood⟩ := (except_bind_eq_ok_iff _ _ _).mp understood
  obtain ⟨sized, size, understood⟩ := (except_bind_eq_ok_iff _ _ _).mp understood
  obtain ⟨complete, history, understood⟩ := (except_bind_eq_ok_iff _ _ _).mp understood
  have same : complete = arguments ∧
      ¬(complete.code.isSome && complete.file.isSome) = true := by
    split at understood
    · cases understood
    · cases understood
      exact ⟨rfl, ‹_›⟩
  obtain ⟨rfl, noConflict⟩ := same
  obtain ⟨noneSized, historyAgain⟩ := withDefault_asking form history absent
  obtain ⟨noneGiven, sizeAgain⟩ := withDefault_asking form size noneSized
  obtain ⟨rfl, finishedAgain⟩ := Progress.finish_asking form finished
  obtain ⟨_, takenAgain⟩ := Progress.foldlM_take_asking form taken noneGiven
  have asked : ("--emit" :: form.name :: texts).foldlM Progress.take .start =
      .ok (progress.asking form) := by
    obtain ⟨option, value⟩ := Progress.take_request form
    refine (except_bind_eq_ok_iff _ _ _).mpr ⟨_, option, ?_⟩
    exact (except_bind_eq_ok_iff _ _ _).mpr ⟨_, value, takenAgain⟩
  refine (except_bind_eq_ok_iff _ _ _).mpr ⟨_, asked, ?_⟩
  refine (except_bind_eq_ok_iff _ _ _).mpr ⟨_, finishedAgain, ?_⟩
  refine (except_bind_eq_ok_iff _ _ _).mpr ⟨_, sizeAgain, ?_⟩
  refine (except_bind_eq_ok_iff _ _ _).mpr ⟨_, historyAgain, ?_⟩
  exact if_neg noConflict

end Arguments

end ExprMachine
