import Thesaurus.Json.Reader

/-!
# Spellings of a text between quotes

A character stands between quotes for itself, by a short escape, or by its 16-bit units in
hexadecimal digits of either case: one unit in the basic plane, the two halves of a pair beyond
it. These are the spellings of a text, and reading takes every one of them for the text it spells;
pieces that spell no text are read as none. What is written for a text is one of its spellings.
-/

namespace Thesaurus.Json.Quoted

/-- The pieces that stand for a character: itself, its unit, or the halves of its pair. -/
inductive StandFor : List Piece → Char → Prop where
  /-- The character for itself. -/
  | char (c : Char) : StandFor [.char c] c
  /-- The unit of a character in the basic plane. -/
  | unit {c : Char} (basic : c.toNat < 0x10000) : StandFor [.unit c.toNat] c
  /-- The pair of a character beyond the basic plane. -/
  | pair {c : Char} (beyond : 0x10000 ≤ c.toNat) :
    StandFor [.unit (0xD800 + (c.toNat - 0x10000) / 0x400),
      .unit (0xDC00 + (c.toNat - 0x10000) % 0x400)] c

/-- The pieces that stand for the characters of a text, one after another. -/
inductive Spell : List Piece → List Char → Prop where
  /-- No piece, no character. -/
  | nil : Spell [] []
  /-- One more character in front. -/
  | cons {front rest : List Piece} {c : Char} {text : List Char} (first : StandFor front c)
    (more : Spell rest text) : Spell (front ++ rest) (c :: text)

/-- The ways to write a piece between quotes. -/
inductive Piece.SpelledAs : Piece → List Char → Prop where
  /-- A character that needs no escape. -/
  | plain {c : Char} (noQuote : c ≠ '"') (noEscape : c ≠ '\\') (noControl : ¬ c < ' ') :
    SpelledAs (.char c) [c]
  /-- A character with a short escape. -/
  | short {letter c : Char} (escape : shortEscape? letter = some c) :
    SpelledAs (.char c) ['\\', letter]
  /-- A unit by its digits. -/
  | unit {a b c d : Char} {value : Nat} (digits : unit? a b c d = some value) :
    SpelledAs (.unit value) ['\\', 'u', a, b, c, d]

/-- The ways to write pieces one after another. -/
inductive SpelledAs : List Piece → List Char → Prop where
  /-- No piece, no character. -/
  | nil : SpelledAs [] []
  /-- One more piece in front. -/
  | cons {piece : Piece} {pieces : List Piece} {front rest : List Char}
    (first : piece.SpelledAs front) (more : SpelledAs pieces rest) :
    SpelledAs (piece :: pieces) (front ++ rest)

section Reading

/-- A letter of a short escape is not the one that begins a unit. -/
theorem ne_of_shortEscape? {letter c : Char} (h : shortEscape? letter = some c) : letter ≠ 'u' := by
  rintro rfl
  have hnone : shortEscape? 'u' = none := by decide
  rw [hnone] at h
  cases h

/-- A spelling of a piece is read as the piece. -/
theorem pieces?_spelling {piece : Piece} {front : List Char} (h : piece.SpelledAs front)
    (rest : List Char) :
    pieces? (front ++ rest) =
      (pieces? rest).map fun found => (piece :: found.1, found.2) := by
  cases h with
  | @plain c noQuote noEscape noControl =>
    rw [List.singleton_append, pieces?.eq_5 c rest noQuote
      (fun _ _ _ _ _ escape _ => noEscape escape) (fun _ _ escape _ => noEscape escape),
      if_neg noControl]
    cases pieces? rest <;> rfl
  | @short letter c escape =>
    rw [List.cons_append, List.singleton_append, pieces?.eq_4 letter rest
      (fun _ _ _ _ _ unit _ => ne_of_shortEscape? escape unit), escape]
    cases pieces? rest <;> rfl
  | @unit a b c d value digits =>
    simp only [List.cons_append, List.nil_append]
    rw [pieces?.eq_3, digits]
    cases pieces? rest <;> rfl

/-- A spelling of pieces is read as the pieces, up to the closing quote. -/
theorem pieces?_of_spelledAs {pieces : List Piece} {chars : List Char}
    (h : SpelledAs pieces chars) (rest : List Char) :
    pieces? (chars ++ '"' :: rest) = some (pieces, rest) := by
  induction h with
  | nil => rfl
  | cons first more ih => rw [List.append_assoc, pieces?_spelling first, ih, Option.map_some]

end Reading

section Units

variable {c : Char} {value : Nat}

/-- The number of a character is never half of a pair. -/
theorem not_half_toNat (c : Char) : isHigh c.toNat = false ∧ isLow c.toNat = false := by
  have hvalid : c.toNat < 0xD800 ∨ 0xDFFF < c.toNat ∧ c.toNat < 0x110000 := c.valid
  simp only [isHigh, isLow, Bool.and_eq_false_iff, decide_eq_false_iff_not]
  omega

/-- No character has a number beyond the last plane. -/
theorem toNat_lt (c : Char) : c.toNat < 0x110000 := by
  have hvalid : c.toNat < 0xD800 ∨ 0xDFFF < c.toNat ∧ c.toNat < 0x110000 := c.valid
  omega

/-- The number of the character that a number names. -/
theorem toNat_ofNat_of_valid (h : value.isValidChar) : (Char.ofNat value).toNat = value := by
  rw [Char.ofNat, dif_pos h]
  rfl

/-- A unit that is not half of a pair stands for the character that it names. -/
theorem standFor_ofNat (basic : value < 0x10000) (hhigh : isHigh value = false)
    (hlow : isLow value = false) : StandFor [.unit value] (Char.ofNat value) := by
  have hvalid : value.isValidChar := by
    simp only [isHigh, isLow, Bool.and_eq_false_iff, decide_eq_false_iff_not] at hhigh hlow
    unfold Nat.isValidChar
    omega
  have hsame := toNat_ofNat_of_valid hvalid
  have hunit := StandFor.unit (c := Char.ofNat value) (hsame.symm ▸ basic)
  rwa [hsame] at hunit

/-- The two halves of a pair stand for the character that they name. -/
theorem standFor_paired {high low : Nat} (hhigh : isHigh high = true) (hlow : isLow low = true) :
    StandFor [.unit high, .unit low] (paired high low) := by
  simp only [isHigh, isLow, Bool.and_eq_true, decide_eq_true_eq] at hhigh hlow
  have hsame : (paired high low).toNat = 0x10000 + (high - 0xD800) * 0x400 + (low - 0xDC00) :=
    toNat_ofNat_of_valid (Or.inr (by omega))
  have hpair := StandFor.pair (c := paired high low) (by omega)
  have hfirst : 0xD800 + ((paired high low).toNat - 0x10000) / 0x400 = high := by omega
  have hsecond : 0xDC00 + ((paired high low).toNat - 0x10000) % 0x400 = low := by omega
  rwa [hfirst, hsecond] at hpair

/-- The first halves of pairs are just so many that they reach the last plane. -/
theorem isHigh_first (c : Char) : isHigh (0xD800 + (c.toNat - 0x10000) / 0x400) = true := by
  have := toNat_lt c
  simp only [isHigh, Bool.and_eq_true, decide_eq_true_eq]
  omega

/-- The second half of a pair is one. -/
theorem isLow_second (c : Char) : isLow (0xDC00 + (c.toNat - 0x10000) % 0x400) = true := by
  simp only [isLow, Bool.and_eq_true, decide_eq_true_eq]
  omega

/-- A character beyond the basic plane is the one that its halves name. -/
theorem paired_halves (beyond : 0x10000 ≤ c.toNat) :
    paired (0xD800 + (c.toNat - 0x10000) / 0x400) (0xDC00 + (c.toNat - 0x10000) % 0x400) = c := by
  unfold paired
  have hsame : 0x10000 + (0xD800 + (c.toNat - 0x10000) / 0x400 - 0xD800) * 0x400 +
      (0xDC00 + (c.toNat - 0x10000) % 0x400 - 0xDC00) = c.toNat := by omega
  rw [hsame, Char.ofNat_toNat]

end Units

section Joining

/-- A unit that is not half of a pair is a character, whatever follows it. -/
theorem join_unit {value : Nat} (hhigh : isHigh value = false) (hlow : isLow value = false)
    (rest : List Piece) :
    join (.unit value :: rest) = (join rest).map (Char.ofNat value :: ·) := by
  rcases rest with _ | ⟨c | low, more⟩
  · rw [join.eq_4 value [] fun _ _ next => (by cases next), hhigh, hlow]
    rfl
  · rw [join.eq_4 value (.char c :: more) fun _ _ next => (by cases next), hhigh, hlow]
    rfl
  · rw [join.eq_3, hhigh, hlow]
    rfl

/-- What stands for a character is joined to it, whatever follows. -/
theorem join_append {front : List Piece} {c : Char} (h : StandFor front c) (rest : List Piece) :
    join (front ++ rest) = (join rest).map (c :: ·) := by
  cases h with
  | char => rfl
  | unit basic =>
    have hwhole := not_half_toNat c
    rw [List.singleton_append, join_unit hwhole.1 hwhole.2, Char.ofNat_toNat]
  | pair beyond =>
    simp only [List.cons_append, List.nil_append]
    rw [join.eq_3, if_pos (isHigh_first c), if_pos (isLow_second c), paired_halves beyond]

/-- Pieces that spell a text are joined to it. -/
theorem join_of_spell {pieces : List Piece} {text : List Char} (h : Spell pieces text) :
    join pieces = some text := by
  induction h with
  | nil => rfl
  | cons first more ih => rw [join_append first, ih, Option.map_some]

/-- Every unit of some pieces has 16 bits. -/
def Small (pieces : List Piece) : Prop := ∀ value, Piece.unit value ∈ pieces → value < 0x10000

/-- What is left of such pieces is such. -/
theorem Small.of_cons {piece : Piece} {rest : List Piece} (h : Small (piece :: rest)) :
    Small rest :=
  fun value hv => h value (List.mem_cons_of_mem piece hv)

/-- Pieces that are joined to a text spell it. -/
theorem spell_of_join {pieces : List Piece} (hsmall : Small pieces) {text : List Char}
    (h : join pieces = some text) : Spell pieces text := by
  induction pieces using join.induct generalizing text with
  | case1 =>
    cases h
    exact .nil
  | case2 c rest ih =>
    obtain ⟨more, hmore, rfl⟩ := Option.map_eq_some_iff.1 h
    exact .cons (.char c) (ih hsmall.of_cons hmore)
  | case3 high low rest hhigh hlow ih =>
    rw [join.eq_3, if_pos hhigh, if_pos hlow] at h
    obtain ⟨more, hmore, rfl⟩ := Option.map_eq_some_iff.1 h
    exact .cons (standFor_paired hhigh hlow) (ih hsmall.of_cons.of_cons hmore)
  | case4 high low rest hhigh hlow =>
    rw [join.eq_3, if_pos hhigh, if_neg hlow] at h
    cases h
  | case5 high low rest hhigh hlow =>
    rw [join.eq_3, if_neg hhigh, if_pos hlow] at h
    cases h
  | case6 high low rest hhigh hlow ih =>
    rw [join.eq_3, if_neg hhigh, if_neg hlow] at h
    obtain ⟨more, hmore, rfl⟩ := Option.map_eq_some_iff.1 h
    simp only [Bool.not_eq_true] at hhigh hlow
    exact .cons (standFor_ofNat (hsmall high List.mem_cons_self) hhigh hlow)
      (ih hsmall.of_cons hmore)
  | case7 value rest alone half =>
    rw [join.eq_4 value rest alone, if_pos half] at h
    cases h
  | case8 value rest alone whole ih =>
    rw [join.eq_4 value rest alone, if_neg whole] at h
    obtain ⟨more, hmore, rfl⟩ := Option.map_eq_some_iff.1 h
    simp only [Bool.or_eq_true, not_or, Bool.not_eq_true] at whole
    exact .cons (standFor_ofNat (hsmall value List.mem_cons_self) whole.1 whole.2)
      (ih hsmall.of_cons hmore)

end Joining

section Digits

/-- A hexadecimal digit is below sixteen. -/
theorem hexDigit?_lt {c : Char} {value : Nat} (h : hexDigit? c = some value) : value < 16 := by
  have span {first last : Char} (hc : first ≤ c ∧ c ≤ last) :
      c.toNat - first.toNat ≤ last.toNat - first.toNat :=
    Nat.sub_le_sub_right hc.2 first.toNat
  unfold hexDigit? at h
  split at h
  case isTrue hdigit =>
    have hspan : c.toNat - '0'.toNat ≤ 9 := span hdigit
    cases h
    omega
  case isFalse =>
    split at h
    case isTrue hsmall =>
      have hspan : c.toNat - 'a'.toNat ≤ 5 := span hsmall
      cases h
      omega
    case isFalse =>
      split at h
      case isTrue hlarge =>
        have hspan : c.toNat - 'A'.toNat ≤ 5 := span hlarge
        cases h
        omega
      case isFalse => cases h

/-- Four hexadecimal digits name 16 bits. -/
theorem unit?_lt {a b c d : Char} {value : Nat} (h : unit? a b c d = some value) :
    value < 0x10000 := by
  simp only [unit?, Option.bind_eq_bind, Option.bind_eq_some_iff, Option.pure_def,
    Option.some.injEq] at h
  obtain ⟨first, hfirst, second, hsecond, third, hthird, fourth, hfourth, rfl⟩ := h
  have := hexDigit?_lt hfirst
  have := hexDigit?_lt hsecond
  have := hexDigit?_lt hthird
  have := hexDigit?_lt hfourth
  omega

/-- Pieces that can be written have units of 16 bits. -/
theorem small_of_spelledAs {pieces : List Piece} {chars : List Char}
    (h : SpelledAs pieces chars) : Small pieces := by
  induction h with
  | nil => exact fun _ hv => absurd hv List.not_mem_nil
  | cons first more ih =>
    intro value hv
    rcases List.mem_cons.1 hv with rfl | hv
    · cases first with
      | unit digits => exact unit?_lt digits
    · exact ih value hv

end Digits

section Writing

/-- The digits of a control character name it. -/
theorem unit?_hexChar : ∀ value < 32,
    unit? '0' '0' (hexChar (value / 16)) (hexChar (value % 16)) = some value := by
  decide

/-- The letter by which a character is escaped stands for the character. -/
theorem shortEscape?_of_lookup {c letter : Char} (h : shortLetters.lookup c = some letter) :
    shortEscape? letter = some c := by
  have hall : ∀ pair ∈ shortLetters, shortEscape? pair.2 = some pair.1 := by decide
  obtain ⟨before, after, htable, -⟩ := List.lookup_eq_some_iff.1 h
  refine hall (c, letter) ?_
  rw [htable]
  exact List.mem_append_right before List.mem_cons_self

/-- Neither a quote nor a backslash is written for itself. -/
theorem ne_of_lookup_eq_none {c : Char} (h : shortLetters.lookup c = none) :
    c ≠ '"' ∧ c ≠ '\\' := by
  constructor
  · rintro rfl
    exact absurd h (by decide)
  · rintro rfl
    exact absurd h (by decide)

/-- What is written for a character is a spelling of a piece that stands for it. -/
theorem exists_piece_encodeChar (c : Char) :
    ∃ piece : Piece, piece.SpelledAs (encodeChar c) ∧ StandFor [piece] c := by
  unfold encodeChar
  cases hletter : shortLetters.lookup c with
  | some letter => exact ⟨.char c, .short (shortEscape?_of_lookup hletter), .char c⟩
  | none =>
    obtain ⟨hquote, hescape⟩ := ne_of_lookup_eq_none hletter
    dsimp only
    split
    case isTrue hcontrol =>
      have hsmall : c.toNat < 32 := hcontrol
      exact ⟨.unit c.toNat, .unit (unit?_hexChar c.toNat hsmall), .unit (by omega)⟩
    case isFalse hcontrol => exact ⟨.char c, .plain hquote hescape hcontrol, .char c⟩

/-- What is written for a text is a spelling of pieces that spell it. -/
theorem exists_pieces_encode (text : List Char) :
    ∃ pieces, SpelledAs pieces (encode text) ∧ Spell pieces text := by
  induction text with
  | nil => exact ⟨[], .nil, .nil⟩
  | cons c rest ih =>
    obtain ⟨piece, hwritten, hstand⟩ := exists_piece_encodeChar c
    obtain ⟨pieces, hrest, hspell⟩ := ih
    exact ⟨piece :: pieces, .cons hwritten hrest, .cons hstand hspell⟩

end Writing

end Thesaurus.Json.Quoted

namespace Thesaurus.Json

/-- The ways to write a string: quotes, and between them pieces that spell its text. A string
without text has pieces that spell none. -/
inductive TextSpelledAs : Option String → List Char → Prop where
  /-- A string with a text. -/
  | text {content : String} {pieces : List Quoted.Piece} {chars : List Char}
    (written : Quoted.SpelledAs pieces chars) (spell : Quoted.Spell pieces content.toList) :
    TextSpelledAs (some content) ('"' :: (chars ++ ['"']))
  /-- A string in which half of a pair is missing. -/
  | broken {pieces : List Quoted.Piece} {chars : List Char}
    (written : Quoted.SpelledAs pieces chars) (noText : ∀ text, ¬ Quoted.Spell pieces text) :
    TextSpelledAs none ('"' :: (chars ++ ['"']))

/-- A string is read as what its pieces are joined to. -/
theorem readText_spelling {pieces : List Quoted.Piece} {chars : List Char}
    (h : Quoted.SpelledAs pieces chars) (rest : List Char) :
    readText (chars ++ ['"'] ++ rest) =
      some ((Quoted.join pieces).map String.ofList, rest) := by
  unfold readText
  rw [List.append_assoc, List.singleton_append, Quoted.pieces?_of_spelledAs h]
  rfl

/-- A spelling of a string is a quote and what is read as the string. -/
theorem readText_of_spelledAs {content : Option String} {chars : List Char}
    (h : TextSpelledAs content chars) :
    ∃ inner, chars = '"' :: inner ∧
      ∀ rest, readText (inner ++ rest) = some (content, rest) := by
  cases h with
  | @text content pieces chars written spell =>
    refine ⟨chars ++ ['"'], rfl, fun rest => ?_⟩
    rw [readText_spelling written, Quoted.join_of_spell spell, Option.map_some,
      String.ofList_toList]
  | @broken pieces chars written noText =>
    refine ⟨chars ++ ['"'], rfl, fun rest => ?_⟩
    have hjoin : Quoted.join pieces = none := by
      cases hjoin : Quoted.join pieces with
      | none => rfl
      | some text =>
        exact absurd (Quoted.spell_of_join (Quoted.small_of_spelledAs written) hjoin) (noText text)
    rw [readText_spelling written, hjoin, Option.map_none]

end Thesaurus.Json
