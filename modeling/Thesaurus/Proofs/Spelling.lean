import Mathlib.Data.List.DropRight
import Thesaurus.Json.Writer
import Thesaurus.Proofs.QuotedText

/-!
# Spellings of a value

The standard grammar as a relation between a value and the texts that spell it: blanks wherever
they may stand, strings in any of their spellings, exponents with either letter and with or
without a plus. Reading takes every spelling of a value for the value, at any depth: each token of
a text pays for two calls at most, so the fuel given for a whole text lasts.
-/

namespace Thesaurus.Json

/-- Blanks only. -/
def Blanks (chars : List Char) : Prop := ∀ c ∈ chars, isBlank c = true

/-- The ways to write an exponent. -/
inductive PowerSpelledAs : Option (Bool × List Digit) → List Char → Prop where
  /-- No exponent. -/
  | absent : PowerSpelledAs none []
  /-- An exponent without sign. -/
  | unsigned {letter : Char} {digits : List Digit} (isLetter : letter = 'e' ∨ letter = 'E')
    (given : digits ≠ []) : PowerSpelledAs (some (false, digits)) (letter :: writeDigits digits)
  /-- An exponent with its sign. -/
  | signed {letter sign : Char} {digits : List Digit} (isLetter : letter = 'e' ∨ letter = 'E')
    (isSign : sign = '+' ∨ sign = '-') (given : digits ≠ []) :
    PowerSpelledAs (some (sign == '-', digits)) (letter :: sign :: writeDigits digits)

/-- Digits before a point: a zero alone, or digits of which the first is not zero. -/
def WholeDigits (digits : List Digit) : Prop :=
  ∃ first rest, digits = first :: rest ∧ (first.val = 0 → rest = [])

/-- The ways to write a number. -/
inductive Numeral.SpelledAs : Numeral → List Char → Prop where
  /-- Sign, whole digits, fraction and exponent. -/
  | parts {numeral : Numeral} {power : List Char} (whole : WholeDigits numeral.whole)
    (exponent : PowerSpelledAs numeral.exponent power) :
    SpelledAs numeral ((if numeral.negative then ['-'] else []) ++ writeDigits numeral.whole ++
      numeral.writeFraction ++ power)

/-- The ways to write the name of a member, with blanks around it. -/
inductive NameSpelledAs : Option String → List Char → Prop where
  /-- A string between blanks. -/
  | amid {name : Option String} {before chars after : List Char} (blanksBefore : Blanks before)
    (quoted : TextSpelledAs name chars) (blanksAfter : Blanks after) :
    NameSpelledAs name (before ++ chars ++ after)

mutual

/-- The ways to write a value. -/
inductive Value.SpelledAs : Value → List Char → Prop where
  /-- The word null. -/
  | wordNull : Value.SpelledAs .null ['n', 'u', 'l', 'l']
  /-- The word true. -/
  | wordTrue : Value.SpelledAs (.bool true) ['t', 'r', 'u', 'e']
  /-- The word false. -/
  | wordFalse : Value.SpelledAs (.bool false) ['f', 'a', 'l', 's', 'e']
  /-- A number. -/
  | number {numeral : Numeral} {chars : List Char} (parts : numeral.SpelledAs chars) :
    Value.SpelledAs (.number numeral) chars
  /-- A string. -/
  | text {content : Option String} {chars : List Char} (quoted : TextSpelledAs content chars) :
    Value.SpelledAs (.text content) chars
  /-- An array without items. -/
  | emptyArray {gap : List Char} (blanks : Blanks gap) :
    Value.SpelledAs (.array []) ('[' :: (gap ++ [']']))
  /-- An array with items. -/
  | array {items : List Value} {chars : List Char} (inner : ItemsSpelledAs items chars) :
    Value.SpelledAs (.array items) ('[' :: (chars ++ [']']))
  /-- An object without members. -/
  | emptyObject {gap : List Char} (blanks : Blanks gap) :
    Value.SpelledAs (.object []) ('\x7b' :: (gap ++ ['\x7d']))
  /-- An object with members. -/
  | object {members : List (Option String × Value)} {chars : List Char}
    (inner : MembersSpelledAs members chars) :
    Value.SpelledAs (.object members) ('\x7b' :: (chars ++ ['\x7d']))

/-- The ways to write a value with blanks around it. -/
inductive Value.SpelledAmid : Value → List Char → Prop where
  /-- A value between blanks. -/
  | amid {value : Value} {before chars after : List Char} (blanksBefore : Blanks before)
    (inner : value.SpelledAs chars) (blanksAfter : Blanks after) :
    Value.SpelledAmid value (before ++ chars ++ after)

/-- The ways to write items with commas between them. -/
inductive ItemsSpelledAs : List Value → List Char → Prop where
  /-- The last item. -/
  | last {item : Value} {chars : List Char} (inner : item.SpelledAmid chars) :
    ItemsSpelledAs [item] chars
  /-- An item before others. -/
  | cons {item : Value} {items : List Value} {chars rest : List Char}
    (inner : item.SpelledAmid chars) (more : ItemsSpelledAs items rest) :
    ItemsSpelledAs (item :: items) (chars ++ ',' :: rest)

/-- The ways to write members with commas between them. -/
inductive MembersSpelledAs : List (Option String × Value) → List Char → Prop where
  /-- The last member. -/
  | last {name : Option String} {value : Value} {front chars : List Char}
    (named : NameSpelledAs name front) (inner : value.SpelledAmid chars) :
    MembersSpelledAs [(name, value)] (front ++ ':' :: chars)
  /-- A member before others. -/
  | cons {name : Option String} {value : Value} {members : List (Option String × Value)}
    {front chars rest : List Char} (named : NameSpelledAs name front)
    (inner : value.SpelledAmid chars) (more : MembersSpelledAs members rest) :
    MembersSpelledAs ((name, value) :: members) (front ++ ':' :: (chars ++ ',' :: rest))

end

section Gaps

variable {gap rest : List Char} {c : Char}

/-- Nothing is a gap. -/
theorem blanks_nil : Blanks [] := fun _ hc => absurd hc List.not_mem_nil

/-- Blanks in front are skipped. -/
theorem skipBlanks_append (h : Blanks gap) (rest : List Char) :
    skipBlanks (gap ++ rest) = skipBlanks rest := by
  unfold skipBlanks
  exact List.dropWhile_append_of_pos h

/-- What is not blank stays. -/
theorem skipBlanks_cons (h : isBlank c = false) (rest : List Char) :
    skipBlanks (c :: rest) = c :: rest := by
  unfold skipBlanks
  rw [List.dropWhile_cons_of_neg (by rw [h]; exact Bool.false_ne_true)]

/-- A gap before a token is skipped. -/
theorem skipBlanks_token (h : Blanks gap) (hc : isBlank c = false) (rest : List Char) :
    skipBlanks (gap ++ c :: rest) = c :: rest := by
  rw [skipBlanks_append h, skipBlanks_cons hc]

/-- Blanks are skipped once. -/
theorem skipBlanks_skipBlanks (chars : List Char) :
    skipBlanks (skipBlanks chars) = skipBlanks chars := by
  unfold skipBlanks
  exact List.dropWhile_idempotent isBlank chars

/-- A gap in front of a value is of no account. -/
theorem readValue_append (h : Blanks gap) (fuel : Nat) (rest : List Char) :
    readValue fuel (gap ++ rest) = readValue fuel rest := by
  cases fuel with
  | zero => rw [readValue, readValue]
  | succ fuel => rw [readValue, readValue, skipBlanks_append h]

/-- The items of an array are read from its first token on. -/
theorem readItems_skipBlanks (fuel : Nat) (chars : List Char) :
    readItems fuel (skipBlanks chars) = readItems fuel chars := by
  cases fuel with
  | zero => rw [readItems, readItems]
  | succ fuel =>
    have hvalue : readValue fuel (skipBlanks chars) = readValue fuel chars := by
      cases fuel with
      | zero => rw [readValue, readValue]
      | succ fuel => rw [readValue, readValue, skipBlanks_skipBlanks]
    rw [readItems, readItems, hvalue]

/-- The members of an object are read from its first token on. -/
theorem readMembers_skipBlanks (fuel : Nat) (chars : List Char) :
    readMembers fuel (skipBlanks chars) = readMembers fuel chars := by
  cases fuel with
  | zero => rw [readMembers, readMembers]
  | succ fuel => rw [readMembers, readMembers, skipBlanks_skipBlanks]

end Gaps

section Numbers

/-- There is a first digit. -/
theorem WholeDigits.ne_nil {digits : List Digit} (h : WholeDigits digits) : digits ≠ [] := by
  obtain ⟨first, rest, rfl, -⟩ := h
  exact List.cons_ne_nil first rest

/-- A character that cannot continue a number, if there is one, comes first. -/
def Stops (rest : List Char) : Prop :=
  ∀ c ∈ rest.head?, isBlank c = true ∨ c = ',' ∨ c = ']' ∨ c = '\x7d'

/-- No digit comes first. -/
def NoDigit (rest : List Char) : Prop := ∀ c ∈ rest.head?, digit? c = none

/-- What is written for a digit is read as the digit. -/
theorem digit?_toChar : ∀ digit : Digit, digit? digit.toChar = some digit := by decide

/-- Digits that are written are read up to what is no digit. -/
theorem readDigits_append (digits : List Digit) {rest : List Char} (h : NoDigit rest) :
    readDigits (writeDigits digits ++ rest) = (digits, rest) := by
  induction digits with
  | nil =>
    cases rest with
    | nil => rfl
    | cons c rest =>
      have hc : digit? c = none := h c rfl
      rw [writeDigits, List.map_nil, List.nil_append, readDigits, hc]
  | cons digit more ih =>
    rw [writeDigits, List.map_cons, List.cons_append, readDigits, digit?_toChar]
    rw [writeDigits] at ih
    rw [ih]

/-- Digits of which there is one. -/
theorem readSomeDigits_append {digits : List Digit} (given : digits ≠ []) {rest : List Char}
    (h : NoDigit rest) : readSomeDigits (writeDigits digits ++ rest) = some (digits, rest) := by
  rw [readSomeDigits, readDigits_append digits h]
  cases digits with
  | nil => exact absurd rfl given
  | cons first more => rfl

/-- The digits before the point. -/
theorem readWhole_append {digits : List Digit} (whole : WholeDigits digits) {rest : List Char}
    (h : NoDigit rest) : readWhole (writeDigits digits ++ rest) = some (digits, rest) := by
  rw [readWhole, readDigits_append digits h]
  obtain ⟨first, more, rfl, hzero⟩ := whole
  cases more with
  | nil => rfl
  | cons second more =>
    have hfirst : ¬ first.val = 0 := fun zero => absurd (hzero zero) (List.cons_ne_nil _ _)
    simp only [if_neg hfirst]

/-- Written digits begin with one. -/
theorem exists_toChar_cons {digits : List Digit} (given : digits ≠ []) (rest : List Char) :
    ∃ (digit : Digit) (more : List Char), writeDigits digits ++ rest = digit.toChar :: more := by
  cases digits with
  | nil => exact absurd rfl given
  | cons first more => exact ⟨first, writeDigits more ++ rest, rfl⟩

/-- What may stand after a number does not go on with it. -/
theorem Stops.ends {rest : List Char} (h : Stops rest) :
    ∀ c ∈ rest.head?, digit? c = none ∧ c ≠ '.' ∧ ¬ (c = 'e' ∨ c = 'E') := by
  intro c hc
  rcases h c hc with hblank | rfl | rfl | rfl
  · simp only [isBlank, Bool.or_eq_true, beq_iff_eq] at hblank
    rcases hblank with ((rfl | rfl) | rfl) | rfl <;> decide
  all_goals decide

/-- An exponent is set off from the digits before it. -/
theorem PowerSpelledAs.head {exponent : Option (Bool × List Digit)} {power rest : List Char}
    (h : PowerSpelledAs exponent power) (hrest : Stops rest) :
    ∀ c ∈ (power ++ rest).head?, digit? c = none ∧ c ≠ '.' := by
  have letters : ∀ letter : Char, letter = 'e' ∨ letter = 'E' →
      digit? letter = none ∧ letter ≠ '.' := by
    rintro letter (rfl | rfl) <;> decide
  cases h with
  | absent => exact fun c hc => ⟨(hrest.ends c hc).1, (hrest.ends c hc).2.1⟩
  | unsigned isLetter given =>
    rintro c ⟨⟩
    exact letters _ isLetter
  | signed isLetter isSign given =>
    rintro c ⟨⟩
    exact letters _ isLetter

/-- A digit is no sign. -/
theorem toChar_ne_sign : ∀ digit : Digit, digit.toChar ≠ '+' ∧ digit.toChar ≠ '-' := by decide

/-- A spelling of an exponent is read as the exponent. -/
theorem readExponent_append {exponent : Option (Bool × List Digit)} {power rest : List Char}
    (h : PowerSpelledAs exponent power) (hrest : Stops rest) :
    readExponent (power ++ rest) = some (exponent, rest) := by
  have hdigit : NoDigit rest := fun c hc => (hrest.ends c hc).1
  cases h with
  | absent =>
    cases rest with
    | nil => rfl
    | cons c rest => rw [List.nil_append, readExponent, if_neg (hrest.ends c rfl).2.2]
  | @unsigned letter digits isLetter given =>
    have hsign : readExponentSign (writeDigits digits ++ rest) =
        (false, writeDigits digits ++ rest) := by
      obtain ⟨digit, more, hmore⟩ := exists_toChar_cons given rest
      rw [hmore, readExponentSign.eq_3]
      · exact fun _ plus => (toChar_ne_sign digit).1 (List.cons.inj plus).1
      · exact fun _ minus => (toChar_ne_sign digit).2 (List.cons.inj minus).1
    rw [List.cons_append, readExponent, if_pos isLetter, hsign]
    simp only [readSomeDigits_append given hdigit]
    rfl
  | @signed letter sign digits isLetter isSign given =>
    have hsign : readExponentSign (sign :: (writeDigits digits ++ rest)) =
        (sign == '-', writeDigits digits ++ rest) := by
      rcases isSign with rfl | rfl <;> rfl
    rw [List.cons_append, readExponent, if_pos isLetter, List.cons_append, hsign]
    simp only [readSomeDigits_append given hdigit]
    rfl

/-- A point and digits are read up to what is neither. -/
theorem readFraction_append (numeral : Numeral) {rest : List Char}
    (h : ∀ c ∈ rest.head?, digit? c = none ∧ c ≠ '.') :
    readFraction (numeral.writeFraction ++ rest) = some (numeral.fraction, rest) := by
  rw [Numeral.writeFraction]
  cases numeral.fraction with
  | nil =>
    rw [List.isEmpty_nil, if_pos rfl, List.nil_append, readFraction.eq_2]
    rintro more rfl
    exact (h '.' rfl).2 rfl
  | cons first more =>
    rw [List.isEmpty_cons, if_neg Bool.false_ne_true, List.cons_append, readFraction]
    exact readSomeDigits_append (List.cons_ne_nil first more) fun c hc => (h c hc).1

/-- A fraction is set off from the digits before it. -/
theorem noDigit_writeFraction (numeral : Numeral) {rest : List Char} (h : NoDigit rest) :
    NoDigit (numeral.writeFraction ++ rest) := by
  rw [Numeral.writeFraction]
  split
  · exact h
  · rintro c ⟨⟩
    decide

/-- A spelling of a number is read as the number. -/
theorem readNumeral_append {numeral : Numeral} {chars rest : List Char}
    (h : numeral.SpelledAs chars) (hrest : Stops rest) :
    readNumeral (chars ++ rest) = some (numeral, rest) := by
  obtain ⟨negative, digits, fraction, written⟩ := numeral
  cases h with | @parts power whole exponent =>
  have hhead := exponent.head hrest
  have hunsigned : readUnsigned negative (writeDigits digits ++
      (Numeral.writeFraction ⟨negative, digits, fraction, written⟩ ++ (power ++ rest))) =
      some (⟨negative, digits, fraction, written⟩, rest) := by
    rw [readUnsigned, readWhole_append whole
      (noDigit_writeFraction _ fun c hc => (hhead c hc).1)]
    simp only [Option.bind_eq_bind, Option.bind_some, readFraction_append _ hhead,
      readExponent_append exponent hrest, Option.pure_def]
  simp only [List.append_assoc]
  cases negative with
  | true => exact hunsigned
  | false =>
    obtain ⟨digit, more, hmore⟩ := exists_toChar_cons whole.ne_nil
      (Numeral.writeFraction ⟨false, digits, fraction, written⟩ ++ (power ++ rest))
    simp only [Bool.false_eq_true, if_false, List.nil_append]
    rw [hmore, readNumeral.eq_2, ← hmore]
    · exact hunsigned
    · exact fun _ minus => (toChar_ne_sign digit).2 (List.cons.inj minus).1

/-- A number begins with a minus or a digit. -/
theorem Numeral.SpelledAs.head {numeral : Numeral} {chars : List Char}
    (h : numeral.SpelledAs chars) :
    ∃ c more, chars = c :: more ∧ (c = '-' ∨ ∃ digit : Digit, c = digit.toChar) := by
  cases h with | @parts power whole exponent =>
  simp only [List.append_assoc]
  cases numeral.negative with
  | true => exact ⟨'-', _, rfl, Or.inl rfl⟩
  | false =>
    obtain ⟨digit, more, hmore⟩ :=
      exists_toChar_cons whole.ne_nil (numeral.writeFraction ++ power)
    exact ⟨digit.toChar, more, hmore, Or.inr ⟨digit, rfl⟩⟩

end Numbers

section Steps

variable {fuel : Nat} {rest after : List Char}

/-- No other value and no blank begins as a number does. -/
theorem number_start {c : Char} (h : c = '-' ∨ ∃ digit : Digit, c = digit.toChar) :
    isBlank c = false ∧ c ∉ ['"', '[', ']', '\x7b', 'n', 't', 'f'] := by
  rcases h with rfl | ⟨digit, rfl⟩
  · decide
  · revert digit
    decide

/-- A number is read where a number begins. -/
theorem readValue_number {c : Char} {numeral : Numeral}
    (hc : c = '-' ∨ ∃ digit : Digit, c = digit.toChar)
    (h : readNumeral (c :: rest) = some (numeral, after)) :
    readValue (fuel + 1) (c :: rest) = some (.number numeral, after) := by
  obtain ⟨hblank, hother⟩ := number_start hc
  simp only [List.mem_cons, List.not_mem_nil, not_or] at hother
  rw [readValue, skipBlanks_cons hblank]
  split <;> simp_all

/-- A string is read behind its first quote. -/
theorem readValue_text {content : Option String} (h : readText rest = some (content, after)) :
    readValue (fuel + 1) ('"' :: rest) = some (.text content, after) := by
  rw [readValue, skipBlanks_cons (by decide)]
  simp only [h, Option.map_some]

/-- An array that closes at once has no items. -/
theorem readValue_emptyArray (h : skipBlanks rest = ']' :: after) :
    readValue (fuel + 1) ('[' :: rest) = some (.array [], after) := by
  rw [readValue, skipBlanks_cons (by decide)]
  simp only [h]

/-- An object that closes at once has no members. -/
theorem readValue_emptyObject (h : skipBlanks rest = '\x7d' :: after) :
    readValue (fuel + 1) ('\x7b' :: rest) = some (.object [], after) := by
  rw [readValue, skipBlanks_cons (by decide)]
  simp only [h]

/-- An array with items is read by its items. -/
theorem readValue_array {items : List Value} (hfirst : (skipBlanks rest).head? ≠ some ']')
    (h : readItems fuel rest = some (items, after)) :
    readValue (fuel + 1) ('[' :: rest) = some (.array items, after) := by
  rw [readValue, skipBlanks_cons (by decide)]
  simp only
  split
  · simp_all
  · rw [readItems_skipBlanks, h]
    rfl

/-- An object with members is read by its members. -/
theorem readValue_object {members : List (Option String × Value)}
    (hfirst : (skipBlanks rest).head? ≠ some '\x7d')
    (h : readMembers fuel rest = some (members, after)) :
    readValue (fuel + 1) ('\x7b' :: rest) = some (.object members, after) := by
  rw [readValue, skipBlanks_cons (by decide)]
  simp only
  split
  · simp_all
  · rw [readMembers_skipBlanks, h]
    rfl

/-- The last item of an array. -/
theorem readItems_last {chars : List Char} {item : Value}
    (hitem : readValue fuel chars = some (item, rest)) (hrest : skipBlanks rest = ']' :: after) :
    readItems (fuel + 1) chars = some ([item], after) := by
  rw [readItems, hitem]
  simp only [Option.bind_eq_bind, Option.bind_some, hrest, Option.pure_def]

/-- An item of an array before others. -/
theorem readItems_cons {chars others : List Char} {item : Value} {more : List Value}
    (hitem : readValue fuel chars = some (item, rest)) (hrest : skipBlanks rest = ',' :: others)
    (hmore : readItems fuel others = some (more, after)) :
    readItems (fuel + 1) chars = some (item :: more, after) := by
  rw [readItems, hitem]
  simp only [Option.bind_eq_bind, Option.bind_some, hrest, hmore, Option.pure_def]

/-- The last member of an object. -/
theorem readMembers_last {chars inner gap others : List Char} {key : Option String} {value : Value}
    (hfirst : skipBlanks chars = '"' :: inner) (hname : readText inner = some (key, gap))
    (hcolon : skipBlanks gap = ':' :: others) (hvalue : readValue fuel others = some (value, rest))
    (hrest : skipBlanks rest = '\x7d' :: after) :
    readMembers (fuel + 1) chars = some ([(key, value)], after) := by
  rw [readMembers, hfirst]
  simp only [Option.bind_eq_bind, Option.bind_some, hname, hcolon, hvalue, hrest, Option.pure_def]

/-- A member of an object before others. -/
theorem readMembers_cons {chars inner gap others next : List Char} {key : Option String}
    {value : Value} {more : List (Option String × Value)}
    (hfirst : skipBlanks chars = '"' :: inner) (hname : readText inner = some (key, gap))
    (hcolon : skipBlanks gap = ':' :: others) (hvalue : readValue fuel others = some (value, rest))
    (hrest : skipBlanks rest = ',' :: next) (hmore : readMembers fuel next = some (more, after)) :
    readMembers (fuel + 1) chars = some ((key, value) :: more, after) := by
  rw [readMembers, hfirst]
  simp only [Option.bind_eq_bind, Option.bind_some, hname, hcolon, hvalue, hrest, hmore,
    Option.pure_def]

end Steps

section Reading

/-- A value begins with a token that does not close an array. -/
theorem Value.SpelledAs.head {value : Value} {chars : List Char} (h : value.SpelledAs chars) :
    ∃ c more, chars = c :: more ∧ isBlank c = false ∧ c ≠ ']' := by
  cases h with
  | number parts =>
    obtain ⟨c, more, rfl, hc⟩ := parts.head
    obtain ⟨hblank, hother⟩ := number_start hc
    simp only [List.mem_cons, List.not_mem_nil, not_or] at hother
    exact ⟨c, more, rfl, hblank, hother.2.2.1⟩
  | text quoted =>
    obtain ⟨inner, rfl, -⟩ := readText_of_spelledAs quoted
    exact ⟨_, _, rfl, by decide, by decide⟩
  | _ => exact ⟨_, _, rfl, by decide, by decide⟩

/-- So does one behind blanks. -/
theorem Value.SpelledAmid.head {value : Value} {chars : List Char} (h : value.SpelledAmid chars)
    (rest : List Char) : ∃ c more, skipBlanks (chars ++ rest) = c :: more ∧ c ≠ ']' := by
  cases h with | amid blanksBefore inner blanksAfter =>
  obtain ⟨c, more, rfl, hblank, hc⟩ := inner.head
  simp only [List.append_assoc, List.cons_append]
  exact ⟨c, _, skipBlanks_token blanksBefore hblank _, hc⟩

/-- An array with items does not close at once. -/
theorem ItemsSpelledAs.head {items : List Value} {chars : List Char}
    (h : ItemsSpelledAs items chars) (rest : List Char) :
    (skipBlanks (chars ++ rest)).head? ≠ some ']' := by
  cases h with
  | last inner =>
    obtain ⟨c, more, hskip, hc⟩ := inner.head rest
    rw [hskip]
    exact fun same => hc (Option.some.inj same)
  | @cons _ _ chars others inner more =>
    obtain ⟨c, more, hskip, hc⟩ := inner.head (',' :: (others ++ rest))
    rw [List.append_assoc, List.cons_append, hskip]
    exact fun same => hc (Option.some.inj same)

/-- A name is read between its blanks. -/
theorem NameSpelledAs.read {name : Option String} {front : List Char}
    (h : NameSpelledAs name front) (rest : List Char) :
    ∃ inner gap, skipBlanks (front ++ ':' :: rest) = '"' :: inner ∧
      readText inner = some (name, gap) ∧ skipBlanks gap = ':' :: rest := by
  cases h with | @amid before chars after blanksBefore quoted blanksAfter =>
  obtain ⟨inner, rfl, hread⟩ := readText_of_spelledAs quoted
  refine ⟨inner ++ (after ++ ':' :: rest), after ++ ':' :: rest, ?_, hread _,
    skipBlanks_token blanksAfter (by decide) rest⟩
  simp only [List.append_assoc, List.cons_append]
  exact skipBlanks_token blanksBefore (by decide) _

/-- An object with members does not close at once. -/
theorem MembersSpelledAs.head {members : List (Option String × Value)} {chars : List Char}
    (h : MembersSpelledAs members chars) (rest : List Char) :
    (skipBlanks (chars ++ rest)).head? ≠ some '\x7d' := by
  have quote {name : Option String} {front : List Char} (named : NameSpelledAs name front)
      (others : List Char) : (skipBlanks (front ++ ':' :: others)).head? ≠ some '\x7d' := by
    obtain ⟨inner, gap, hskip, -⟩ := named.read others
    rw [hskip]
    exact fun same => absurd (Option.some.inj same) (by decide)
  cases h with
  | last named inner =>
    rw [List.append_assoc, List.cons_append]
    exact quote named _
  | cons named inner more =>
    rw [List.append_assoc, List.cons_append]
    exact quote named _

/-- A token that separates or closes may follow a value behind blanks. -/
theorem stops_append {gap : List Char} (h : Blanks gap) {c : Char}
    (hc : c = ',' ∨ c = ']' ∨ c = '\x7d') (rest : List Char) : Stops (gap ++ c :: rest) := by
  cases gap with
  | nil =>
    rintro _ ⟨⟩
    exact Or.inr hc
  | cons blank gap =>
    rintro _ ⟨⟩
    exact Or.inl (h blank List.mem_cons_self)

mutual

/-- A spelling of a value is read as the value. -/
theorem readValue_of_spelledAs {value : Value} {chars : List Char} :
    value.SpelledAs chars → ∀ {fuel : Nat} {rest : List Char}, Stops rest →
      2 * chars.length ≤ fuel + 1 → readValue (fuel + 1) (chars ++ rest) = some (value, rest)
  | .wordNull, fuel, rest, hrest, hfuel => rfl
  | .wordTrue, fuel, rest, hrest, hfuel => rfl
  | .wordFalse, fuel, rest, hrest, hfuel => rfl
  | .number parts, fuel, rest, hrest, hfuel => by
    obtain ⟨c, more, rfl, hc⟩ := parts.head
    exact readValue_number hc (readNumeral_append parts hrest)
  | .text quoted, fuel, rest, hrest, hfuel => by
    obtain ⟨inner, rfl, hread⟩ := readText_of_spelledAs quoted
    exact readValue_text (hread rest)
  | .emptyArray blanks, fuel, rest, hrest, hfuel => by
    rw [List.cons_append, List.append_assoc]
    exact readValue_emptyArray (skipBlanks_token blanks (by decide) rest)
  | .array inner, fuel, rest, hrest, hfuel => by
    simp only [List.length_cons, List.length_append] at hfuel
    rw [List.cons_append, List.append_assoc]
    exact readValue_array (inner.head _) (readItems_of_spelledAs inner (by omega))
  | .emptyObject blanks, fuel, rest, hrest, hfuel => by
    rw [List.cons_append, List.append_assoc]
    exact readValue_emptyObject (skipBlanks_token blanks (by decide) rest)
  | .object inner, fuel, rest, hrest, hfuel => by
    simp only [List.length_cons, List.length_append] at hfuel
    rw [List.cons_append, List.append_assoc]
    exact readValue_object (inner.head _) (readMembers_of_spelledAs inner (by omega))

/-- A value between blanks is read up to the blanks before the next token. -/
theorem readValue_of_spelledAmid {value : Value} {chars : List Char} :
    value.SpelledAmid chars → ∀ (fuel : Nat) {c : Char} (rest : List Char),
      c = ',' ∨ c = ']' ∨ c = '\x7d' → 2 * chars.length ≤ fuel →
        ∃ gap, readValue fuel (chars ++ c :: rest) = some (value, gap) ∧
          skipBlanks gap = c :: rest
  | @Value.SpelledAmid.amid _ _ _ after blanksBefore inner blanksAfter, fuel, c, rest, hc,
    hfuel => by
    have hblank : isBlank c = false := by
      rcases hc with rfl | rfl | rfl <;> decide
    refine ⟨after ++ c :: rest, ?_, skipBlanks_token blanksAfter hblank rest⟩
    rw [List.append_assoc, List.append_assoc, readValue_append blanksBefore]
    simp only [List.length_append] at hfuel
    obtain ⟨first, more, rfl, -⟩ := inner.head
    cases fuel with
    | zero => exact absurd hfuel (by rw [List.length_cons]; omega)
    | succ fuel =>
      exact readValue_of_spelledAs inner (stops_append blanksAfter hc rest) (by omega)

/-- A spelling of items is read as the items. -/
theorem readItems_of_spelledAs {items : List Value} {chars : List Char} :
    ItemsSpelledAs items chars → ∀ {fuel : Nat} {rest : List Char},
      2 * chars.length + 1 ≤ fuel → readItems fuel (chars ++ ']' :: rest) = some (items, rest)
  | .last inner, fuel + 1, rest, hfuel => by
    obtain ⟨gap, hitem, hgap⟩ :=
      readValue_of_spelledAmid inner fuel rest (.inr (.inl rfl)) (by omega)
    exact readItems_last hitem hgap
  | @ItemsSpelledAs.cons _ _ _ others inner more, fuel + 1, rest, hfuel => by
    simp only [List.length_append, List.length_cons] at hfuel
    obtain ⟨gap, hitem, hgap⟩ :=
      readValue_of_spelledAmid inner fuel (others ++ ']' :: rest) (.inl rfl) (by omega)
    rw [List.append_assoc, List.cons_append]
    exact readItems_cons hitem hgap (readItems_of_spelledAs more (by omega))

/-- A spelling of members is read as the members. -/
theorem readMembers_of_spelledAs {members : List (Option String × Value)} {chars : List Char} :
    MembersSpelledAs members chars → ∀ {fuel : Nat} {rest : List Char},
      2 * chars.length + 1 ≤ fuel →
        readMembers fuel (chars ++ '\x7d' :: rest) = some (members, rest)
  | @MembersSpelledAs.last _ _ _ chars named inner, fuel + 1, rest, hfuel => by
    simp only [List.length_append, List.length_cons] at hfuel
    obtain ⟨gap, hvalue, hgap⟩ :=
      readValue_of_spelledAmid inner fuel rest (.inr (.inr rfl)) (by omega)
    obtain ⟨quoted, colon, hfirst, hname, hcolon⟩ := named.read (chars ++ '\x7d' :: rest)
    rw [List.append_assoc, List.cons_append]
    exact readMembers_last hfirst hname hcolon hvalue hgap
  | @MembersSpelledAs.cons _ _ _ _ chars others named inner more, fuel + 1, rest, hfuel => by
    simp only [List.length_append, List.length_cons] at hfuel
    obtain ⟨gap, hvalue, hgap⟩ :=
      readValue_of_spelledAmid inner fuel (others ++ '\x7d' :: rest) (.inl rfl) (by omega)
    obtain ⟨quoted, colon, hfirst, hname, hcolon⟩ :=
      named.read (chars ++ ',' :: (others ++ '\x7d' :: rest))
    rw [List.append_assoc, List.cons_append, List.append_assoc, List.cons_append]
    exact readMembers_cons hfirst hname hcolon hvalue hgap
      (readMembers_of_spelledAs more (by omega))

end

/-- Blanks may follow a value. -/
theorem stops_of_blanks {gap : List Char} (h : Blanks gap) : Stops gap :=
  fun c hc => Or.inl (h c (List.mem_of_head? hc))

/-- Nothing is left where only blanks follow. -/
theorem skipBlanks_of_blanks {gap : List Char} (h : Blanks gap) : skipBlanks gap = [] :=
  List.dropWhile_eq_nil_iff.2 h

/-- A text that spells a value, blanks around it allowed, is read as the value. -/
theorem read?_of_spelledAmid {value : Value} {text : String} (h : value.SpelledAmid text.toList) :
    read? text = some value := by
  unfold read?
  generalize text.toList = all at h
  cases h with | @amid _ before chars after blanksBefore inner blanksAfter =>
  have hread : readValue (2 * (before ++ chars ++ after).length + 2) (before ++ chars ++ after) =
      some (value, after) := by
    rw [List.append_assoc, readValue_append blanksBefore]
    refine readValue_of_spelledAs inner (stops_of_blanks blanksAfter) ?_
    simp only [List.length_append]
    omega
  simp only [hread, Option.bind_eq_bind, Option.bind_some, skipBlanks_of_blanks blanksAfter,
    List.isEmpty_nil, if_true]

end Reading

end Thesaurus.Json
