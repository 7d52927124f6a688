import Thesaurus.Json.Format
import Thesaurus.Proofs.Spelling

/-!
# What is written for a value

A value is written in one of its spellings, provided it has one: only a number can be without. A
format is lawful if it writes each value in one of its spellings and reads each spelling of a value
as the value. So a value that is written is read back as it was, its members in order and its
numbers digit by digit. The strict grammar and the writer make a lawful format.
-/

namespace Thesaurus.Json

/-- A value that can be written: each number in it is one that the grammar has. -/
def Value.Spellable (value : Value) : Prop := ∃ chars, value.SpelledAs chars

section Parts

/-- A string is written in front of what follows it. -/
theorem writeText_eq (content : Option String) (rest : List Char) :
    writeText content rest = writeText content [] ++ rest := by
  cases content with
  | some content =>
    rw [writeText, writeText, List.cons_append, List.append_assoc]
    rfl
  | none => rfl

/-- A string is written in one of its spellings. -/
theorem writeText_spelledAs (content : Option String) :
    TextSpelledAs content (writeText content []) := by
  cases content with
  | some content =>
    obtain ⟨pieces, hwritten, hspell⟩ := Quoted.exists_pieces_encode content.toList
    exact .text hwritten hspell
  | none =>
    -- the first half of a pair alone
    have hwritten : Quoted.SpelledAs [.unit 0xD800] (['\\', 'u', 'd', '8', '0', '0'] ++ []) :=
      .cons (.unit (by decide)) .nil
    have hnone : ∀ text, ¬ Quoted.Spell [.unit 0xD800] text := by
      intro text hspell
      have hjoin : Quoted.join [.unit 0xD800] = none := by decide
      rw [Quoted.join_of_spell hspell] at hjoin
      cases hjoin
    exact .broken hwritten hnone

/-- An exponent is written in one of its spellings. -/
theorem powerSpelledAs_writeExponent {numeral : Numeral} {power : List Char}
    (h : PowerSpelledAs numeral.exponent power) :
    PowerSpelledAs numeral.exponent numeral.writeExponent := by
  unfold Numeral.writeExponent
  cases hexponent : numeral.exponent with
  | none => exact .absent
  | some exponent =>
    obtain ⟨negative, digits⟩ := exponent
    rw [hexponent] at h
    have given : digits ≠ [] := by
      cases h <;> assumption
    cases negative with
    | false => exact .unsigned (.inl rfl) given
    | true => exact @PowerSpelledAs.signed 'e' '-' digits (.inl rfl) (.inr rfl) given

/-- A number is written in one of its spellings. -/
theorem numeral_write_spelledAs {numeral : Numeral} {chars : List Char}
    (h : numeral.SpelledAs chars) : numeral.SpelledAs numeral.write := by
  cases h with
  | parts whole exponent => exact .parts whole (powerSpelledAs_writeExponent exponent)

/-- A string alone is the name of a member. -/
theorem TextSpelledAs.alone {name : Option String} {chars : List Char}
    (h : TextSpelledAs name chars) : NameSpelledAs name chars := by
  have hamid := NameSpelledAs.amid blanks_nil h blanks_nil
  rwa [List.nil_append, List.append_nil] at hamid

/-- A value alone is one without blanks around it. -/
theorem Value.SpelledAs.alone {value : Value} {chars : List Char} (h : value.SpelledAs chars) :
    value.SpelledAmid chars := by
  have hamid := Value.SpelledAmid.amid blanks_nil h blanks_nil
  rwa [List.nil_append, List.append_nil] at hamid

end Parts

mutual

/-- A value with a spelling is written in one, whatever follows it. -/
theorem exists_write {value : Value} {chars : List Char} : value.SpelledAs chars →
    ∃ written, value.SpelledAs written ∧ ∀ rest, value.write rest = written ++ rest
  | .wordNull => ⟨_, .wordNull, fun _ => rfl⟩
  | .wordTrue => ⟨_, .wordTrue, fun _ => rfl⟩
  | .wordFalse => ⟨_, .wordFalse, fun _ => rfl⟩
  | .number parts => ⟨_, .number (numeral_write_spelledAs parts), fun _ => rfl⟩
  | @Value.SpelledAs.text content _ quoted => by
    exact ⟨_, .text (writeText_spelledAs content), writeText_eq content⟩
  | .emptyArray _ => ⟨_, .emptyArray blanks_nil, fun _ => rfl⟩
  | .array inner => by
    obtain ⟨written, hspelled, hwrite⟩ := exists_writeItems inner
    refine ⟨_, .array hspelled, fun rest => ?_⟩
    rw [Value.write, hwrite]
    simp only [List.cons_append, List.append_assoc, List.nil_append]
  | .emptyObject _ => ⟨_, .emptyObject blanks_nil, fun _ => rfl⟩
  | .object inner => by
    obtain ⟨written, hspelled, hwrite⟩ := exists_writeMembers inner
    refine ⟨_, .object hspelled, fun rest => ?_⟩
    rw [Value.write, hwrite]
    simp only [List.cons_append, List.append_assoc, List.nil_append]

/-- Blanks around a value are not written. -/
theorem exists_write_amid {value : Value} {chars : List Char} : value.SpelledAmid chars →
    ∃ written, value.SpelledAmid written ∧ ∀ rest, value.write rest = written ++ rest
  | .amid _ inner _ => by
    obtain ⟨written, hspelled, hwrite⟩ := exists_write inner
    exact ⟨written, hspelled.alone, hwrite⟩

/-- Items with spellings are written in theirs. -/
theorem exists_writeItems {items : List Value} {chars : List Char} : ItemsSpelledAs items chars →
    ∃ written, ItemsSpelledAs items written ∧
      ∀ rest, writeItems items rest = written ++ rest
  | .last inner => by
    obtain ⟨written, hspelled, hwrite⟩ := exists_write_amid inner
    refine ⟨written, .last hspelled, fun rest => ?_⟩
    rw [writeItems, hwrite]
  | .cons inner more => by
    obtain ⟨written, hspelled, hwrite⟩ := exists_write_amid inner
    obtain ⟨others, hmore, hothers⟩ := exists_writeItems more
    refine ⟨written ++ ',' :: others, .cons hspelled hmore, fun rest => ?_⟩
    cases more <;> rw [writeItems, hwrite, hothers, List.append_assoc, List.cons_append]

/-- Members with spellings are written in theirs. -/
theorem exists_writeMembers {members : List (Option String × Value)} {chars : List Char} :
    MembersSpelledAs members chars →
      ∃ written, MembersSpelledAs members written ∧
        ∀ rest, writeMembers members rest = written ++ rest
  | @MembersSpelledAs.last name _ _ _ _ inner => by
    obtain ⟨written, hspelled, hwrite⟩ := exists_write_amid inner
    refine ⟨_, .last (writeText_spelledAs name).alone hspelled, fun rest => ?_⟩
    rw [writeMembers, hwrite, writeText_eq, List.append_assoc, List.cons_append]
  | @MembersSpelledAs.cons name _ _ _ _ _ _ inner more => by
    obtain ⟨written, hspelled, hwrite⟩ := exists_write_amid inner
    obtain ⟨others, hmore, hothers⟩ := exists_writeMembers more
    refine ⟨_, .cons (writeText_spelledAs name).alone hspelled hmore, fun rest => ?_⟩
    cases more <;>
      rw [writeMembers, hwrite, hothers, writeText_eq, List.append_assoc, List.cons_append,
        List.append_assoc, List.cons_append]

end

/-- What is written for a value spells it. -/
theorem render_spelledAmid {value : Value} (h : value.Spellable) :
    value.SpelledAmid value.render.toList := by
  obtain ⟨chars, hchars⟩ := h
  obtain ⟨written, hspelled, hwrite⟩ := exists_write hchars
  rw [Value.render, String.toList_ofList, hwrite, List.append_nil]
  exact hspelled.alone

/-- What is asked of a format. -/
structure Format.Lawful (format : Format) : Prop where
  /-- A text that spells a value, blanks around it allowed, is read as the value. -/
  read?_of_spelled : ∀ (value : Value) (text : String),
    value.SpelledAmid text.toList → format.read? text = some value
  /-- What is written for a value spells it, if it has a spelling. -/
  write_spelled : ∀ value : Value, value.Spellable → value.SpelledAmid (format.write value).toList

/-- A value that is written is read back as it was. -/
theorem Format.Lawful.read?_write {format : Format} (h : format.Lawful) {value : Value}
    (hs : value.Spellable) : format.read? (format.write value) = some value :=
  h.read?_of_spelled value _ (h.write_spelled value hs)

/-- The reader and the writer make a lawful format. -/
theorem Format.plain_lawful : Format.plain.Lawful where
  read?_of_spelled _ _ := read?_of_spelledAmid
  write_spelled _ := render_spelledAmid

section Spellable

/-- A string can be written, whatever its text. -/
theorem spellable_text (content : Option String) : (Value.text content).Spellable :=
  ⟨_, .text (writeText_spelledAs content)⟩

/-- Items that can be written can be written one after another. -/
theorem exists_itemsSpelledAs : ∀ (first : Value) (others : List Value),
    (∀ item ∈ first :: others, item.Spellable) → ∃ chars, ItemsSpelledAs (first :: others) chars
  | first, [], h => by
    obtain ⟨chars, hfirst⟩ := h first List.mem_cons_self
    exact ⟨chars, .last hfirst.alone⟩
  | first, second :: others, h => by
    obtain ⟨chars, hfirst⟩ := h first List.mem_cons_self
    obtain ⟨rest, hrest⟩ := exists_itemsSpelledAs second others
      fun item hitem => h item (List.mem_cons_of_mem first hitem)
    exact ⟨_, .cons hfirst.alone hrest⟩

/-- Items that can be written make an array that can. -/
theorem spellable_array {items : List Value} (h : ∀ item ∈ items, item.Spellable) :
    (Value.array items).Spellable := by
  cases items with
  | nil => exact ⟨_, .emptyArray blanks_nil⟩
  | cons first others =>
    obtain ⟨chars, hitems⟩ := exists_itemsSpelledAs first others h
    exact ⟨_, .array hitems⟩

/-- Members that can be written can be written one after another. -/
theorem exists_membersSpelledAs : ∀ (first : Option String × Value)
    (others : List (Option String × Value)), (∀ member ∈ first :: others, member.2.Spellable) →
      ∃ chars, MembersSpelledAs (first :: others) chars
  | first, [], h => by
    obtain ⟨chars, hfirst⟩ := h first List.mem_cons_self
    exact ⟨_, .last (writeText_spelledAs first.1).alone hfirst.alone⟩
  | first, second :: others, h => by
    obtain ⟨chars, hfirst⟩ := h first List.mem_cons_self
    obtain ⟨rest, hrest⟩ := exists_membersSpelledAs second others
      fun member hmember => h member (List.mem_cons_of_mem first hmember)
    exact ⟨_, .cons (writeText_spelledAs first.1).alone hfirst.alone hrest⟩

/-- Members that can be written make an object that can. -/
theorem spellable_object {members : List (Option String × Value)}
    (h : ∀ member ∈ members, member.2.Spellable) : (Value.object members).Spellable := by
  cases members with
  | nil => exact ⟨_, .emptyObject blanks_nil⟩
  | cons first others =>
    obtain ⟨chars, hmembers⟩ := exists_membersSpelledAs first others h
    exact ⟨_, .object hmembers⟩

end Spellable

end Thesaurus.Json
