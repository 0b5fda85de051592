import ExprMachine.Diagnostic.Document
import ExprMachine.Proofs.Json.OneLine
import ExprMachine.Proofs.Json.Records

/-!
# Diagnostics are read as they were written

A diagnostic that is written for programs stands on one line, and the document that is read
from the line tells all of the diagnostic but its source. The keys of the document are in
alphabetical order, and parts that the diagnostic does not have are left out.
-/

namespace ExprMachine

open Json

/-- The document tells the label, and where its span begins in the source if there is one. -/
structure Label.Told (label : Label) (source : Option String) (document : Json) : Prop where
  keys : document.keys? = some
    (if source.isSome then ["col", "end", "line", "message", "start"]
      else ["end", "message", "start"])
  start : (document.member? "start").bind integer? = some (label.span.start : Int)
  stop : (document.member? "end").bind integer? = some (label.span.stop : Int)
  message : (document.member? "message").bind text? = some label.message
  line : (document.member? "line").map integer? =
    source.map fun source => some ((locate source label.span).line : Int)
  column : (document.member? "col").map integer? =
    source.map fun source => some ((locate source label.span).column : Int)

/-- The document tells the diagnostic. A part that may be missing is a member of it exactly
when the diagnostic has this part. -/
structure Diagnostic.Told (diagnostic : Diagnostic) (document : Json) : Prop where
  keys : document.keys? = some
    ((diagnostic.code.map fun _ => "code").toList ++
      (diagnostic.label.map fun _ => "label").toList ++ ["message", "notes", "severity"] ++
        (diagnostic.suggestion.map fun _ => "suggestion").toList)
  severity : (document.member? "severity").bind text? = some "error"
  message : (document.member? "message").bind text? = some diagnostic.message
  notes : (document.member? "notes").bind texts? = some diagnostic.notes
  code : (document.member? "code").map text? = diagnostic.code.map some
  suggestion : (document.member? "suggestion").map text? = diagnostic.suggestion.map some
  label : Option.Rel (fun label => label.Told diagnostic.source) diagnostic.label
    (document.member? "label")

namespace Json

@[simp]
theorem integer?_ofNat (value : Nat) : (ofNat value).integer? = some (value : Int) :=
  integer?_ofInt value

theorem written_ofNat (value : Nat) : (ofNat value).Written :=
  written_ofInt value

end Json

/-! ## Labels -/

namespace Label

variable (label : Label) (source : Option String)

theorem told_toJson : label.Told source (label.toJson source) := by
  cases source <;> constructor <;> simp [toJson]

theorem written_toJson : (label.toJson source).Written := by
  cases source <;> exact written_record (by simp [written_ofNat, written_ofText])

theorem ordered_toJson : (label.toJson source).Ordered := by
  have keys := (label.told_toJson source).keys
  have sorted : (if source.isSome then ["col", "end", "line", "message", "start"]
      else ["end", "message", "start"]).Pairwise (· < ·) := by
    split <;> decide
  cases source <;> exact ordered_record keys sorted (by simp [Ordered, ofNat, ofText])

end Label

/-! ## Diagnostics -/

namespace Diagnostic

theorem find?_optionalMember (key name : String) (value : Option Json) :
    (optionalMember name value).find? (fun member => member.1 = key) =
      if name = key then value.map (name, ·) else none := by
  cases value with
  | none => simp [optionalMember]
  | some value => by_cases same : name = key <;> simp [optionalMember, same]

theorem map_fst_optionalMember (name : String) (value : Option Json) :
    (optionalMember name value).map Prod.fst = (value.map fun _ => name).toList := by
  cases value <;> rfl

theorem mem_optionalMember {key : String} {value : Option Json} {member : String × Json} :
    member ∈ optionalMember key value ↔ ∃ found, value = some found ∧ member = (key, found) := by
  cases value <;> simp [optionalMember]

variable (diagnostic : Diagnostic)

theorem told_toJson : diagnostic.Told diagnostic.toJson := by
  constructor
  case label =>
    cases found : diagnostic.label <;>
      simp [toJson, find?_optionalMember, found, Label.told_toJson]
  all_goals simp [toJson, find?_optionalMember, map_fst_optionalMember, Function.comp_def]

/-- Each member is a text, or tells the notes or the label. -/
theorem exists_members : ∃ members, diagnostic.toJson = record members ∧
    ∀ member ∈ members, (∃ text, member.2 = ofText text) ∨
      member.2 = array (diagnostic.notes.map ofText) ∨
        ∃ label : Label, member.2 = label.toJson diagnostic.source := by
  refine ⟨_, rfl, fun member inside => ?_⟩
  simp only [List.mem_append, mem_optionalMember, Option.map_eq_some_iff, List.mem_cons,
    List.not_mem_nil, or_false] at inside
  rcases inside with ((code | label) | fixed) | suggestion
  · obtain ⟨_, ⟨code, _, rfl⟩, rfl⟩ := code
    exact Or.inl ⟨code, rfl⟩
  · obtain ⟨_, ⟨label, _, rfl⟩, rfl⟩ := label
    exact Or.inr (Or.inr ⟨label, rfl⟩)
  · rcases fixed with rfl | rfl | rfl
    · exact Or.inl ⟨_, rfl⟩
    · exact Or.inr (Or.inl rfl)
    · exact Or.inl ⟨_, rfl⟩
  · obtain ⟨_, ⟨suggestion, _, rfl⟩, rfl⟩ := suggestion
    exact Or.inl ⟨suggestion, rfl⟩

theorem written_toJson : diagnostic.toJson.Written := by
  obtain ⟨members, same, parts⟩ := diagnostic.exists_members
  rw [same]
  refine written_record fun member inside => ?_
  rcases parts member inside with ⟨text, isText⟩ | isNotes | ⟨label, isLabel⟩
  · rw [isText]
    exact written_ofText text
  · rw [isNotes]
    exact written_array (List.forall_mem_map.mpr fun note _ => written_ofText note)
  · rw [isLabel]
    exact label.written_toJson _

theorem ordered_toJson : diagnostic.toJson.Ordered := by
  have keys := diagnostic.told_toJson.keys
  obtain ⟨members, same, parts⟩ := diagnostic.exists_members
  rw [same] at keys ⊢
  refine ordered_record keys ?_ fun member inside => ?_
  · -- The keys are some of all keys that there can be, which are in order.
    have some {α : Type} (key : String) (value : Option α) :
        (value.map fun _ => key).toList.Sublist [key] := by
      cases value <;> simp
    have all : ["code", "label", "message", "notes", "severity", "suggestion"].Pairwise
        (· < ·) := by
      decide
    exact all.sublist <|
      (((some "code" _).append (some "label" _)).append (.refl _)).append (some "suggestion" _)
  · rcases parts member inside with ⟨text, isText⟩ | isNotes | ⟨label, isLabel⟩
    · rw [isText]
      trivial
    · rw [isNotes]
      exact ordered_array (List.forall_mem_map.mpr fun note _ => trivial)
    · rw [isLabel]
      exact label.ordered_toJson _

/-- A diagnostic that is written for programs is one line without control characters. The
document that is read from it tells all of the diagnostic but the source, and has its keys in
alphabetical order. Lines that are written one after another can be told apart. -/
theorem line_lossless :
    (∀ diagnostic : Diagnostic, Printable diagnostic.toJson.compact.toList ∧
      ∃ document, read? diagnostic.toJson.compact = some document ∧
        document.Ordered ∧ diagnostic.Told document) ∧
    ∀ diagnostics : List Diagnostic,
      (String.join (diagnostics.map line)).toList.splitOn '\n' =
        (diagnostics.map fun diagnostic => diagnostic.toJson.compact.toList) ++ [[]] := by
  refine ⟨fun diagnostic => ?_, fun diagnostics => ?_⟩
  · refine ⟨printable_compact diagnostic.written_toJson, diagnostic.toJson, ?_,
      diagnostic.ordered_toJson, diagnostic.told_toJson⟩
    exact read?_compact diagnostic.written_toJson
  · have printable : ∀ rendered ∈ diagnostics.map fun diagnostic => diagnostic.toJson.compact,
        Printable rendered.toList :=
      List.forall_mem_map.mpr fun diagnostic _ => printable_compact diagnostic.written_toJson
    have lines := splitOn_lines printable
    rwa [List.map_map, List.map_map] at lines

end Diagnostic

end ExprMachine
