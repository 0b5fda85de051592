import ExprMachine.Json.Printing
import ExprMachine.Proofs.Json.Literals

/-!
# Documents are read as they are printed

Whatever blanks a layout puts between the parts of a document, the document that is read
is the one that was printed, as long as its literals are those of texts and of integers.
-/

namespace ExprMachine.Json

/-! ## Blanks -/

def Blank (text : List Char) : Prop :=
  ∀ c ∈ text, isBlank c

/-- A layout that puts nothing but blanks between the parts of a document. -/
structure Layout.Sound (layout : Layout) : Prop where
  blank_lineBreak (depth : Nat) : Blank (layout.lineBreak depth).toList
  colon : ∃ blanks, layout.colon.toList = ':' :: blanks ∧ Blank blanks

theorem Layout.sound_compact : compact.Sound where
  blank_lineBreak _ := List.forall_mem_nil _
  colon := ⟨[], rfl, List.forall_mem_nil _⟩

theorem Layout.sound_indented : indented.Sound where
  blank_lineBreak depth := by
    intro c member
    rw [indented, String.toList_append, List.mem_append] at member
    rcases member with first | later
    · cases List.mem_singleton.mp first
      rfl
    · rw [String.toList_ofList] at later
      cases List.eq_of_mem_replicate later
      rfl
  colon := ⟨[' '], rfl, by simp [Blank, isBlank]⟩

section Blanks

variable {blanks rest : List Char} {c : Char}

theorem skipBlank_append (blank : Blank blanks) (text : List Char) :
    skipBlank (blanks ++ text) = skipBlank text :=
  List.dropWhile_append_of_pos blank

theorem skipBlank_cons (visible : isBlank c = false) : skipBlank (c :: rest) = c :: rest :=
  List.dropWhile_cons_of_neg (by simp [visible])

/-- Blanks and brackets can stand after a number. -/
theorem endsNumber_append (blank : Blank blanks) (ends : EndsNumber rest) :
    EndsNumber (blanks ++ rest) := by
  cases blanks with
  | nil => exact ends
  | cons c blanks =>
      intro first same
      cases same
      have visible := blank c List.mem_cons_self
      simp only [isBlank, Bool.or_eq_true, decide_eq_true_eq] at visible
      rcases visible with ((rfl | rfl) | rfl) | rfl <;> decide

/-- No number goes on with a comma or a bracket. -/
theorem endsNumber_cons (mark : c = ',' ∨ c = ']' ∨ c = '\x7d') (rest : List Char) :
    EndsNumber (c :: rest) := by
  intro first same
  cases same
  rcases mark with rfl | rfl | rfl <;> decide

end Blanks

/-! ## Printed text -/

mutual

/-- The characters of a printed document. -/
def characters (layout : Layout) (depth : Nat) : Json → List Char
  | .null => ['n', 'u', 'l', 'l']
  | .boolean true => ['t', 'r', 'u', 'e']
  | .boolean false => ['f', 'a', 'l', 's', 'e']
  | .number literal => literal.toList
  | .string literal => '"' :: literal.toList ++ ['"']
  | .array [] => ['[', ']']
  | .array (first :: items) =>
      '[' :: (layout.lineBreak (depth + 1)).toList ++ first.characters layout (depth + 1) ++
        charactersOfItems layout (depth + 1) items ++ (layout.lineBreak depth).toList ++ [']']
  | .object [] => ['\x7b', '\x7d']
  | .object ((key, first) :: members) =>
      '\x7b' :: (layout.lineBreak (depth + 1)).toList ++ '"' :: key.toList ++ '"' ::
        layout.colon.toList ++ first.characters layout (depth + 1) ++
        charactersOfMembers layout (depth + 1) members ++ (layout.lineBreak depth).toList ++
        ['\x7d']

def charactersOfItems (layout : Layout) (depth : Nat) : List Json → List Char
  | [] => []
  | item :: items =>
      ',' :: (layout.lineBreak depth).toList ++ item.characters layout depth ++
        charactersOfItems layout depth items

def charactersOfMembers (layout : Layout) (depth : Nat) : List (String × Json) → List Char
  | [] => []
  | (key, value) :: members =>
      ',' :: (layout.lineBreak depth).toList ++ '"' :: key.toList ++ '"' ::
        layout.colon.toList ++ value.characters layout depth ++
        charactersOfMembers layout depth members

end

mutual

theorem toList_append (layout : Layout) (depth : Nat) (done : String) :
    ∀ document : Json, (document.append layout depth done).toList =
      done.toList ++ document.characters layout depth
  | .null | .boolean true | .boolean false | .number _ | .string _ | .array []
  | .object [] => by
      simp [append, characters]
  | .array (first :: items) => by
      simp [append, characters, toList_appendItems layout (depth + 1) _ items,
        toList_append layout (depth + 1) _ first]
  | .object ((key, first) :: members) => by
      simp [append, characters, toList_appendMembers layout (depth + 1) _ members,
        toList_append layout (depth + 1) _ first]

theorem toList_appendItems (layout : Layout) (depth : Nat) (done : String) :
    ∀ items : List Json, (appendItems layout depth items done).toList =
      done.toList ++ charactersOfItems layout depth items
  | [] => by simp [appendItems, charactersOfItems]
  | item :: items => by
      simp [appendItems, charactersOfItems, toList_appendItems layout depth _ items,
        toList_append layout depth _ item]

theorem toList_appendMembers (layout : Layout) (depth : Nat) (done : String) :
    ∀ members : List (String × Json), (appendMembers layout depth members done).toList =
      done.toList ++ charactersOfMembers layout depth members
  | [] => by simp [appendMembers, charactersOfMembers]
  | (key, value) :: members => by
      simp [appendMembers, charactersOfMembers, toList_appendMembers layout depth _ members,
        toList_append layout depth _ value]

end

/-! ## Documents with written literals -/

mutual

/-- The literals of the document are those of texts and of integers. -/
def Written : Json → Prop
  | .null | .boolean _ => True
  | .number literal => ∃ value : Int, literal = toString value
  | .string literal => ∃ text, literal = escape text
  | .array items => AllWritten items
  | .object members => MembersWritten members

def AllWritten : List Json → Prop
  | [] => True
  | item :: items => item.Written ∧ AllWritten items

def MembersWritten : List (String × Json) → Prop
  | [] => True
  | (key, value) :: members =>
      (∃ text, key = escape text) ∧ value.Written ∧ MembersWritten members

end

theorem isBlank_of_number {c : Char} (known : c = '-' ∨ c.isDigit) : isBlank c = false := by
  rw [← Bool.not_eq_true]
  intro blank
  simp only [isBlank, Bool.or_eq_true, decide_eq_true_eq] at blank
  rcases blank with ((rfl | rfl) | rfl) | rfl <;> simp at known

/-- A document begins with a character that is no blank and no closing bracket. -/
theorem exists_characters_eq_cons {document : Json} (written : document.Written)
    (layout : Layout) (depth : Nat) :
    ∃ c text, document.characters layout depth = c :: text ∧ isBlank c = false ∧ c ≠ ']' := by
  match document, written with
  | .null, _ | .boolean true, _ | .boolean false, _ | .string _, _ | .array [], _
  | .array (_ :: _), _ | .object [], _ | .object (_ :: _), _ =>
      exact ⟨_, _, rfl, rfl, by decide⟩
  | .number _, ⟨value, same⟩ =>
      subst same
      obtain ⟨c, text, split, known⟩ := exists_toString_eq_cons value
      refine ⟨c, text, split, isBlank_of_number known, ?_⟩
      rintro rfl
      simp at known

/-! ## Reading what was printed -/

section Reading

variable {blanks rest : List Char}

theorem readValue_append (blank : Blank blanks) (fuel : Nat) (text : List Char) :
    readValue fuel (blanks ++ text) = readValue fuel text := by
  cases fuel with
  | zero => rfl
  | succ fuel => rw [readValue, readValue, skipBlank_append blank]

theorem readItems_append (blank : Blank blanks) (fuel : Nat) (done : Array Json)
    (text : List Char) : readItems fuel done (blanks ++ text) = readItems fuel done text := by
  cases fuel with
  | zero => rfl
  | succ fuel => rw [readItems, readItems, readValue_append blank]

theorem readMembers_append (blank : Blank blanks) (fuel : Nat) (done : Array (String × Json))
    (text : List Char) :
    readMembers fuel done (blanks ++ text) = readMembers fuel done text := by
  cases fuel with
  | zero => rfl
  | succ fuel => rw [readMembers, readMembers, readKey, readKey, skipBlank_append blank]

theorem readValue_string (fuel : Nat) (text : String) :
    readValue (fuel + 1) ('"' :: ((escape text).toList ++ '"' :: rest)) =
      some (ofText text, rest) := by
  have read := readLiteral_escape text.toList "" rest
  rw [readValue, skipBlank_cons rfl, escape, String.toList_ofList]
  simp only [read]
  rfl

theorem readValue_number (fuel : Nat) (value : Int) (ends : EndsNumber rest) :
    readValue (fuel + 1) ((toString value).toList ++ rest) = some (ofInt value, rest) := by
  have read := readNumber_ofInt value ends
  obtain ⟨c, text, split, known⟩ := exists_toString_eq_cons value
  have visible : isBlank c = false := isBlank_of_number known
  rw [split, List.cons_append] at read ⊢
  rw [readValue, skipBlank_cons visible]
  split
  case h_7 => exact read
  all_goals
    next same =>
      obtain ⟨rfl, _⟩ := List.cons.inj same
      simp at known

theorem readValue_bracket {c : Char} {text : List Char} (blank : Blank blanks)
    (visible : isBlank c = false) (inside : c ≠ ']') (fuel : Nat) :
    readValue (fuel + 1) ('[' :: (blanks ++ c :: text)) = readItems fuel #[] (c :: text) := by
  rw [readValue, skipBlank_cons rfl]
  simp only [skipBlank_append blank, skipBlank_cons visible]
  split
  · next same => exact absurd (List.cons.inj same).1 inside
  · rfl

theorem readValue_brace {text : List Char} (blank : Blank blanks) (fuel : Nat) :
    readValue (fuel + 1) ('\x7b' :: (blanks ++ '"' :: text)) =
      readMembers fuel #[] ('"' :: text) := by
  rw [readValue, skipBlank_cons rfl]
  have quote : isBlank '"' = false := rfl
  simp only [skipBlank_append blank, skipBlank_cons quote]
  split
  · next same => cases same
  · rfl

theorem readKey_escape {layout : Layout} (sound : layout.Sound) (key : String) :
    ∃ blanks, Blank blanks ∧ ∀ text,
      readKey ('"' :: ((escape key).toList ++ '"' :: (layout.colon.toList ++ text))) =
        some (escape key, blanks ++ text) := by
  obtain ⟨blanks, colon, blank⟩ := sound.colon
  refine ⟨blanks, blank, fun text => ?_⟩
  have read := readLiteral_escape key.toList "" (':' :: (blanks ++ text))
  rw [readKey, skipBlank_cons rfl, colon, escape, String.toList_ofList]
  simp only [List.cons_append, read]
  rfl

end Reading

/-! The brackets around parts and the commas between them are what pays for the fuel that is
used up on the way to the parts. -/

mutual

/-- A document is read up to what stands after it. -/
theorem readValue_characters {layout : Layout} (sound : layout.Sound) (depth : Nat) :
    ∀ document : Json, document.Written → ∀ {fuel : Nat} {rest : List Char},
      (document.characters layout depth).length < fuel → EndsNumber rest →
        readValue fuel (document.characters layout depth ++ rest) = some (document, rest)
  | .null, _, fuel + 1, rest, enough, _ => by
      rfl
  | .boolean true, _, fuel + 1, rest, enough, _ => by
      rfl
  | .boolean false, _, fuel + 1, rest, enough, _ => by
      rfl
  | .number literal, ⟨value, same⟩, fuel + 1, rest, enough, ends => by
      subst same
      exact readValue_number fuel value ends
  | .string literal, ⟨text, same⟩, fuel + 1, rest, enough, _ => by
      subst same
      simp only [characters, List.cons_append, List.append_assoc, List.nil_append]
      exact readValue_string fuel text
  | .array [], _, fuel + 1, rest, enough, _ => by
      rfl
  | .array (first :: items), ⟨writtenFirst, written⟩, fuel + 1, rest, enough, _ => by
      simp only [characters, List.length_append, List.length_cons] at enough
      obtain ⟨c, text, begins, visible, inside⟩ :=
        exists_characters_eq_cons writtenFirst layout (depth + 1)
      have room : (first.characters layout (depth + 1)).length +
          (charactersOfItems layout (depth + 1) items).length + 1 < fuel := by
        omega
      -- The first item is no closing bracket, so there are items to read.
      have read := readItems_characters sound (depth + 1) first items writtenFirst written room
        #[] rest (sound.blank_lineBreak depth)
      simp only [characters, List.cons_append, List.append_assoc, List.nil_append]
      rw [begins, List.cons_append] at read ⊢
      rw [readValue_bracket (sound.blank_lineBreak (depth + 1)) visible inside, read]
      rfl
  | .object [], _, fuel + 1, rest, enough, _ => by
      rfl
  | .object ((key, first) :: members), ⟨⟨text, same⟩, writtenFirst, written⟩, fuel + 1, rest,
      enough, _ => by
      subst same
      simp only [characters, List.length_append, List.length_cons] at enough
      have room : (first.characters layout (depth + 1)).length +
          (charactersOfMembers layout (depth + 1) members).length + 1 < fuel := by
        omega
      have read := readMembers_characters sound (depth + 1) text first members writtenFirst
        written room #[] rest (sound.blank_lineBreak depth)
      simp only [characters, List.cons_append, List.append_assoc, List.nil_append]
      rw [readValue_brace (sound.blank_lineBreak (depth + 1)), read]
      rfl

theorem readItems_characters {layout : Layout} (sound : layout.Sound) (depth : Nat) :
    ∀ (first : Json) (items : List Json), first.Written → AllWritten items →
      ∀ {fuel : Nat}, (first.characters layout depth).length +
          (charactersOfItems layout depth items).length + 1 < fuel →
        ∀ (done : Array Json) (rest : List Char) {blanks : List Char}, Blank blanks →
          readItems fuel done (first.characters layout depth ++
              (charactersOfItems layout depth items ++ (blanks ++ ']' :: rest))) =
            some (.array (done.toList ++ first :: items), rest)
  | first, [], writtenFirst, _, fuel + 1, enough, done, rest, blanks, blank => by
      have room : (first.characters layout depth).length < fuel := by omega
      have ends : EndsNumber (blanks ++ ']' :: rest) :=
        endsNumber_append blank (endsNumber_cons (Or.inr (Or.inl rfl)) rest)
      -- What stands after the last item ends a number, blanks or not.
      have bracket : isBlank ']' = false := rfl
      have read := readValue_characters sound depth first writtenFirst room ends
      rw [readItems, charactersOfItems, List.nil_append, read]
      simp only [skipBlank_append blank, skipBlank_cons bracket, Array.toList_push]
  | first, item :: items, writtenFirst, ⟨writtenItem, written⟩, fuel + 1, enough, done, rest,
      blanks, blank => by
      simp only [charactersOfItems, List.length_append, List.length_cons] at enough
      have room : (first.characters layout depth).length < fuel := by omega
      have later : (item.characters layout depth).length +
          (charactersOfItems layout depth items).length + 1 < fuel := by
        omega
      have comma : isBlank ',' = false := rfl
      have read := fun text => readValue_characters sound depth first writtenFirst room
        (endsNumber_cons (Or.inl (rfl : ',' = ',')) text)
      have following := readItems_characters sound depth item items writtenItem written later
        (done.push first) rest blank
      simp only [charactersOfItems, List.cons_append, List.append_assoc]
      rw [readItems, read]
      simp only [skipBlank_cons comma, readItems_append (sound.blank_lineBreak depth),
        following, Array.toList_push, List.append_assoc, List.singleton_append]

theorem readMembers_characters {layout : Layout} (sound : layout.Sound) (depth : Nat) :
    ∀ (key : String) (first : Json) (members : List (String × Json)), first.Written →
      MembersWritten members →
      ∀ {fuel : Nat}, (first.characters layout depth).length +
          (charactersOfMembers layout depth members).length + 1 < fuel →
        ∀ (done : Array (String × Json)) (rest : List Char) {blanks : List Char},
          Blank blanks →
          readMembers fuel done ('"' :: ((escape key).toList ++ '"' ::
              (layout.colon.toList ++ (first.characters layout depth ++
                (charactersOfMembers layout depth members ++ (blanks ++ '\x7d' :: rest)))))) =
            some (.object (done.toList ++ (escape key, first) :: members), rest)
  | key, first, [], writtenFirst, _, fuel + 1, enough, done, rest, blanks, blank => by
      have room : (first.characters layout depth).length < fuel := by omega
      have ends : EndsNumber (blanks ++ '\x7d' :: rest) :=
        endsNumber_append blank (endsNumber_cons (Or.inr (Or.inr rfl)) rest)
      have brace : isBlank '\x7d' = false := rfl
      have read := readValue_characters sound depth first writtenFirst room ends
      obtain ⟨lead, blankLead, keyRead⟩ := readKey_escape sound key
      rw [charactersOfMembers, List.nil_append, readMembers, keyRead]
      simp only [readValue_append blankLead, read, skipBlank_append blank, skipBlank_cons brace,
        Array.toList_push]
  | key, first, (next, value) :: members, writtenFirst, ⟨⟨text, same⟩, writtenValue, written⟩,
      fuel + 1, enough, done, rest, blanks, blank => by
      subst same
      simp only [charactersOfMembers, List.length_append, List.length_cons] at enough
      have room : (first.characters layout depth).length < fuel := by omega
      have later : (value.characters layout depth).length +
          (charactersOfMembers layout depth members).length + 1 < fuel := by
        omega
      have comma : isBlank ',' = false := rfl
      have read := fun text => readValue_characters sound depth first writtenFirst room
        (endsNumber_cons (Or.inl (rfl : ',' = ',')) text)
      have following := readMembers_characters sound depth text value members writtenValue
        written later (done.push (escape key, first)) rest blank
      obtain ⟨lead, blankLead, keyRead⟩ := readKey_escape sound key
      simp only [charactersOfMembers, List.cons_append, List.append_assoc]
      rw [readMembers, keyRead]
      simp only [readValue_append blankLead, read, skipBlank_cons comma,
        readMembers_append (sound.blank_lineBreak depth), following, Array.toList_push,
        List.append_assoc, List.singleton_append]

end

/-- A document with written literals is read as it was printed. -/
theorem read?_append {layout : Layout} (sound : layout.Sound) {document : Json}
    (written : document.Written) (depth : Nat) :
    read? (document.append layout depth "") = some document := by
  have text : (document.append layout depth "").toList =
      document.characters layout depth ++ [] := by
    rw [toList_append, List.append_nil]
    rfl
  have ends : EndsNumber [] := by
    intro c impossible
    cases impossible
  have read := readValue_characters sound depth document written (Nat.lt_succ_self _) ends
  rw [read?, text]
  simp only [List.append_nil] at read ⊢
  rw [read]
  rfl

theorem read?_compact {document : Json} (written : document.Written) :
    read? document.compact = some document :=
  read?_append Layout.sound_compact written 0

theorem read?_indented {document : Json} (written : document.Written) :
    read? document.indented = some document :=
  read?_append Layout.sound_indented written 0

end ExprMachine.Json
