import ExprMachine.Proofs.Json.RoundTrip

/-!
# Records

What a record is made of is found in its document again: the fields by their names, and
the texts of an array in their order. The keys of a record stand in the order in which
they were given.
-/

namespace ExprMachine.Json

/-! ## Records -/

theorem mapM_of_forall {α β : Type} {items : List α} {read : α → Option β}
    (expected : α → β) (each : ∀ item ∈ items, read item = some (expected item)) :
    items.mapM read = some (items.map expected) := by
  induction items with
  | nil => rfl
  | cons item items inductionHypothesis =>
      obtain ⟨head, tail⟩ := List.forall_mem_cons.mp each
      rw [List.mapM_cons, head, inductionHypothesis tail]
      rfl

theorem filter_of_nodup {members : List (String × Json)}
    (distinct : (members.map Prod.fst).Nodup) {member : String × Json}
    (inside : member ∈ members) :
    members.filter (fun other => other.1 = member.1) = [member] := by
  induction members with
  | nil => cases inside
  | cons first members inductionHypothesis =>
      obtain ⟨fresh, distinct⟩ := List.nodup_cons.mp distinct
      rcases List.mem_cons.mp inside with rfl | later
      · have others : members.filter (fun other => other.1 = member.1) = [] := by
          rw [List.filter_eq_nil_iff]
          intro other otherInside same
          exact fresh (List.mem_map.mpr ⟨other, otherInside, of_decide_eq_true same⟩)
        rw [List.filter_cons_of_pos (by simp), others]
      · have different : first.1 ≠ member.1 := fun same =>
          fresh (List.mem_map.mpr ⟨member, later, same.symm⟩)
        rw [List.filter_cons_of_neg (by simp [different]), inductionHypothesis distinct later]

/-- The fields of a record are found by their names. -/
theorem fields?_record {members : List (String × Json)} {names : List String}
    (named : members.map Prod.fst = names) (distinct : names.Nodup) :
    (record members).fields? names = some (members.map fun member => some member.2) := by
  subst named
  have keys : (members.map fun member => (escape member.1, member.2)).mapM
      (fun member => (unescape? member.1).map fun key => (key, member.2)) = some members := by
    rw [List.mapM_map, mapM_of_forall id]
    · rw [List.map_id]
    · intro member _
      simp
  rw [record, fields?, keys]
  simp only [bind, Option.bind]
  rw [List.mapM_map, mapM_of_forall fun member => some member.2]
  intro member inside
  simp only [Function.comp_apply, filter_of_nodup distinct inside]

@[simp]
theorem text?_ofText (text : String) : (ofText text).text? = some text :=
  unescape?_escape text

/-! ## Parts -/

/-- The value of the member with the given key. -/
def member? (key : String) : Json → Option Json
  | .object members =>
      (members.find? fun member => unescape? member.1 = some key).map Prod.snd
  | _ => none

def keys? : Json → Option (List String)
  | .object members => members.mapM fun member => unescape? member.1
  | _ => none

/-- The texts that an array consists of. -/
def texts? : Json → Option (List String)
  | .array items => items.mapM text?
  | _ => none

@[simp]
theorem member?_record (key : String) (members : List (String × Json)) :
    (record members).member? key =
      (members.find? fun member => member.1 = key).map Prod.snd := by
  rw [record, member?, List.find?_map, Option.map_map]
  simp only [Function.comp_def, unescape?_escape, Option.some.injEq]

@[simp]
theorem keys?_record (members : List (String × Json)) :
    (record members).keys? = some (members.map Prod.fst) := by
  rw [record, keys?, List.mapM_map, mapM_of_forall Prod.fst]
  intro member _
  rw [Function.comp_apply, unescape?_escape]

@[simp]
theorem texts?_ofText (texts : List String) :
    (array (texts.map ofText)).texts? = some texts := by
  rw [texts?, List.mapM_map, mapM_of_forall id]
  · rw [List.map_id]
  · intro text _
    rw [Function.comp_apply, text?_ofText, id]

/-! ## Order of keys -/

mutual

/-- The keys of each object in the document are in alphabetical order, and no key stands
there twice. -/
def Ordered : Json → Prop
  | .null | .boolean _ | .number _ | .string _ => True
  | .array items => AllOrdered items
  | .object members =>
      (∃ keys, (object members).keys? = some keys ∧ keys.Pairwise (· < ·)) ∧
        MembersOrdered members

def AllOrdered : List Json → Prop
  | [] => True
  | item :: items => item.Ordered ∧ AllOrdered items

def MembersOrdered : List (String × Json) → Prop
  | [] => True
  | (_, value) :: members => value.Ordered ∧ MembersOrdered members

end

theorem ordered_array {items : List Json} (each : ∀ item ∈ items, item.Ordered) :
    (array items).Ordered := by
  rw [Ordered]
  induction items with
  | nil => trivial
  | cons item items inductionHypothesis =>
      obtain ⟨head, tail⟩ := List.forall_mem_cons.mp each
      exact ⟨head, inductionHypothesis tail⟩

theorem ordered_record {members : List (String × Json)} {keys : List String}
    (found : (record members).keys? = some keys) (sorted : keys.Pairwise (· < ·))
    (each : ∀ member ∈ members, member.2.Ordered) : (record members).Ordered := by
  refine ⟨⟨keys, found, sorted⟩, ?_⟩
  clear found
  induction members with
  | nil => trivial
  | cons member members inductionHypothesis =>
      obtain ⟨head, tail⟩ := List.forall_mem_cons.mp each
      exact ⟨head, inductionHypothesis tail⟩

/-! ## Literals -/

theorem written_ofText (text : String) : (ofText text).Written :=
  ⟨text, rfl⟩

theorem written_ofInt (value : Int) : (ofInt value).Written :=
  ⟨value, rfl⟩

theorem written_array {items : List Json} (each : ∀ item ∈ items, item.Written) :
    (array items).Written := by
  rw [Written]
  induction items with
  | nil => trivial
  | cons item items inductionHypothesis =>
      obtain ⟨head, tail⟩ := List.forall_mem_cons.mp each
      exact ⟨head, inductionHypothesis tail⟩

theorem written_record {members : List (String × Json)}
    (each : ∀ member ∈ members, member.2.Written) : (record members).Written := by
  rw [record, Written]
  induction members with
  | nil => trivial
  | cons member members inductionHypothesis =>
      obtain ⟨head, tail⟩ := List.forall_mem_cons.mp each
      exact ⟨⟨_, rfl⟩, head, inductionHypothesis tail⟩

theorem written_tagged (tag : String) {document : Json} (written : document.Written) :
    (tagged tag document).Written :=
  ⟨⟨tag, rfl⟩, written, trivial⟩

end ExprMachine.Json
