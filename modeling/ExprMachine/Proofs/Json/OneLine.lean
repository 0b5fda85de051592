import ExprMachine.Proofs.Json.RoundTrip

/-!
# Documents on one line

A compact document has no control characters: those of its texts are escaped. So it stands
on one line, and documents that are followed by line feeds can be told apart.
-/

namespace ExprMachine.Json

/-- The text has no control characters. -/
def Printable (text : List Char) : Prop :=
  ∀ c ∈ text, 0x20 ≤ c.toNat

theorem Printable.append {front back : List Char} (printable : Printable front)
    (others : Printable back) : Printable (front ++ back) :=
  List.forall_mem_append.mpr ⟨printable, others⟩

theorem Printable.cons {c : Char} {text : List Char} (visible : 0x20 ≤ c.toNat)
    (printable : Printable text) : Printable (c :: text) :=
  List.forall_mem_cons.mpr ⟨visible, printable⟩

theorem printable_of_all {text : List Char} (each : text.all (Nat.ble 0x20 ·.toNat) = true) :
    Printable text :=
  fun c member => Nat.le_of_ble_eq_true (List.all_eq_true.mp each c member)

/-! ## Literals -/

/-- There are few control characters, so that what holds of each can be tried out. -/
theorem of_control {p : Char → Prop} (each : ∀ value < 0x20, p (Char.ofNat value)) {c : Char}
    (control : c.toNat < 0x20) : p c := by
  have known := each c.toNat control
  rwa [Char.ofNat_toNat] at known

theorem le_toNat_of_simpleEscape? {mark : Char} (known : (simpleEscape? mark).isSome) :
    0x20 ≤ mark.toNat := by
  by_contra control
  have none := of_control (p := fun c => (simpleEscape? c).isSome = false) (by decide)
    (Nat.lt_of_not_le control)
  cases none.symm.trans known

theorem le_toNat_of_hexValue? {digit : Char} (known : (hexValue? digit).isSome) :
    0x20 ≤ digit.toNat := by
  by_contra control
  have none := of_control (p := fun c => (hexValue? c).isSome = false) (by decide)
    (Nat.lt_of_not_le control)
  cases none.symm.trans known

theorem isSome_of_codeUnit? {first second third fourth : Char} {unit : Nat}
    (known : codeUnit? first second third fourth = some unit) :
    (hexValue? third).isSome ∧ (hexValue? fourth).isSome := by
  simp only [codeUnit?, Option.bind_eq_bind, Option.bind_eq_some_iff] at known
  obtain ⟨_, _, _, _, _, isThird, _, isFourth, _⟩ := known
  exact ⟨Option.isSome_of_mem isThird, Option.isSome_of_mem isFourth⟩

theorem printable_of_escaped {c : Char} {written : List Char} (escaped : Escaped c written) :
    Printable written := by
  cases escaped with
  | simple known =>
      have mark := le_toNat_of_simpleEscape? (Option.isSome_of_mem known)
      have lead : Printable ['\\'] := printable_of_all rfl
      exact lead.append (.cons mark nofun)
  | @unit high low known _ =>
      obtain ⟨isHigh, isLow⟩ := isSome_of_codeUnit? known
      have lead : Printable ['\\', 'u', '0', '0'] := printable_of_all rfl
      exact lead.append <|
        .cons (le_toNat_of_hexValue? isHigh) (.cons (le_toNat_of_hexValue? isLow) nofun)
  | plain _ _ visible => exact .cons (Nat.not_lt.mp visible) nofun

theorem printable_escape (text : String) : Printable (escape text).toList := by
  rw [escape, String.toList_ofList]
  intro c member
  obtain ⟨other, _, inside⟩ := List.mem_flatMap.mp member
  exact printable_of_escaped (escaped_escapeCharacter other) c inside

theorem printable_toString (value : Int) : Printable (toString value).toList := by
  have digits : Printable (Nat.toDigits 10 value.natAbs) := by
    intro c member
    by_contra control
    have none := of_control (p := fun c => c.isDigit = false) (by decide)
      (Nat.lt_of_not_le control)
    cases none.symm.trans (isDigit_of_toDigits member)
  rw [toList_toString]
  split
  · have sign : Printable ['-'] := printable_of_all rfl
    exact sign.append digits
  · exact digits

/-! ## Documents -/

mutual

theorem printable_characters (depth : Nat) :
    ∀ document : Json, document.Written → Printable (document.characters .compact depth)
  | .null, _ => (printable_of_all rfl : Printable ['n', 'u', 'l', 'l'])
  | .boolean true, _ => (printable_of_all rfl : Printable ['t', 'r', 'u', 'e'])
  | .boolean false, _ => (printable_of_all rfl : Printable ['f', 'a', 'l', 's', 'e'])
  | .number literal, ⟨value, same⟩ => by
      subst same
      exact printable_toString value
  | .string literal, ⟨text, same⟩ => by
      subst same
      have quote : Printable ['"'] := printable_of_all rfl
      exact (quote.append (printable_escape text)).append quote
  | .array [], _ => (printable_of_all rfl : Printable ['[', ']'])
  | .array (first :: items), ⟨writtenFirst, written⟩ => by
      have head := printable_characters (depth + 1) first writtenFirst
      have tail := printable_charactersOfItems (depth + 1) items written
      have opening : Printable ['['] := printable_of_all rfl
      have closing : Printable [']'] := printable_of_all rfl
      simp only [characters, Layout.compact, String.toList_empty, List.append_nil]
      exact ((opening.append head).append tail).append closing
  | .object [], _ => (printable_of_all rfl : Printable ['\x7b', '\x7d'])
  | .object ((key, first) :: members), ⟨⟨text, same⟩, writtenFirst, written⟩ => by
      subst same
      have head := printable_characters (depth + 1) first writtenFirst
      have tail := printable_charactersOfMembers (depth + 1) members written
      have opening : Printable ['\x7b', '"'] := printable_of_all rfl
      have colon : Printable ['"', ':'] := printable_of_all rfl
      have closing : Printable ['\x7d'] := printable_of_all rfl
      have name := (opening.append (printable_escape text)).append colon
      simp only [characters, Layout.compact, String.toList_empty, List.append_nil]
      exact ((name.append head).append tail).append closing

theorem printable_charactersOfItems (depth : Nat) :
    ∀ items : List Json, AllWritten items → Printable (charactersOfItems .compact depth items)
  | [], _ => nofun
  | item :: items, ⟨writtenItem, written⟩ => by
      have head := printable_characters depth item writtenItem
      have tail := printable_charactersOfItems depth items written
      have comma : Printable [','] := printable_of_all rfl
      simp only [charactersOfItems, Layout.compact, String.toList_empty]
      exact (comma.append head).append tail

theorem printable_charactersOfMembers (depth : Nat) :
    ∀ members : List (String × Json), MembersWritten members →
      Printable (charactersOfMembers .compact depth members)
  | [], _ => nofun
  | (key, value) :: members, ⟨⟨text, same⟩, writtenValue, written⟩ => by
      subst same
      have head := printable_characters depth value writtenValue
      have tail := printable_charactersOfMembers depth members written
      have comma : Printable [',', '"'] := printable_of_all rfl
      have colon : Printable ['"', ':'] := printable_of_all rfl
      have name := (comma.append (printable_escape text)).append colon
      simp only [charactersOfMembers, Layout.compact, String.toList_empty]
      exact (name.append head).append tail

end

theorem printable_compact {document : Json} (written : document.Written) :
    Printable document.compact.toList := by
  rw [compact, toList_append]
  exact printable_characters 0 document written

theorem Printable.not_mem_lineFeed {text : List Char} (printable : Printable text) :
    '\n' ∉ text :=
  fun member => absurd (printable '\n' member) (by decide)

/-- Lines that are written one after another are found again at the line feeds. -/
theorem splitOn_lines {lines : List String} (each : ∀ line ∈ lines, Printable line.toList) :
    (String.join (lines.map (· ++ "\n"))).toList.splitOn '\n' =
      lines.map String.toList ++ [[]] := by
  induction lines with
  | nil => rfl
  | cons line lines inductionHypothesis =>
      obtain ⟨head, tail⟩ := List.forall_mem_cons.mp each
      let others := String.join (lines.map (· ++ "\n"))
      have one : line.toList.splitOn '\n' = [line.toList] :=
        List.splitOnP_eq_singleton fun c member =>
          beq_false_of_ne fun same => head.not_mem_lineFeed (same ▸ member)
      calc
        (String.join ((line :: lines).map (· ++ "\n"))).toList.splitOn '\n'
          = (line.toList ++ '\n' :: others.toList).splitOn '\n' := by simp [others]
        _ = line.toList.splitOn '\n' ++ others.toList.splitOn '\n' :=
            List.splitOnP_append_cons _ _ (beq_self_eq_true '\n')
        _ = (line :: lines).map String.toList ++ [[]] := by
            rw [one, inductionHypothesis tail]
            rfl

end ExprMachine.Json
