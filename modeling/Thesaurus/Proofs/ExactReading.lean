import Thesaurus.Proofs.Spelling

/-!
# Reading is exact

Whatever is read was spelled: the characters that reading takes for a value are one of its
spellings, blanks in front of it apart. With the converse, a text is read as a value exactly if it
spells the value. So nothing outside the grammar is read, and a text spells one value at most.
-/

namespace Thesaurus.Json

section Strings

/-- Pieces that are read were spelled, up to the closing quote. -/
theorem Quoted.spelledAs_of_pieces? {chars rest : List Char} {pieces : List Piece}
    (h : pieces? chars = some (pieces, rest)) :
    ∃ front, SpelledAs pieces front ∧ chars = front ++ '"' :: rest := by
  fun_induction pieces? chars generalizing pieces rest with
  | case1 => cases h
  | case2 after =>
    cases h
    exact ⟨[], .nil, rfl⟩
  | case3 a b c d others ih =>
    simp only [Option.bind_eq_bind, Option.bind_eq_some_iff, Option.pure_def, Option.some.injEq,
      Prod.exists] at h
    obtain ⟨value, hunit, more, after, hmore, hresult⟩ := h
    cases hresult
    obtain ⟨front, hfront, rfl⟩ := ih hmore
    exact ⟨_, .cons (.unit hunit) hfront, rfl⟩
  | case4 letter others notUnit ih =>
    simp only [Option.bind_eq_bind, Option.bind_eq_some_iff, Option.pure_def, Option.some.injEq,
      Prod.exists] at h
    obtain ⟨c, hescape, more, after, hmore, hresult⟩ := h
    cases hresult
    obtain ⟨front, hfront, rfl⟩ := ih hmore
    exact ⟨_, .cons (.short hescape) hfront, rfl⟩
  | case5 => cases h
  | case6 c others noQuote _ noEscape noControl ih =>
    simp only [Option.bind_eq_bind, Option.bind_eq_some_iff, Option.pure_def, Option.some.injEq,
      Prod.exists] at h
    obtain ⟨more, after, hmore, hresult⟩ := h
    cases hresult
    obtain ⟨front, hfront, rfl⟩ := ih hmore
    -- a backslash in front of what was read would have been an escape
    have hplain : c ≠ '\\' := by
      cases front with
      | nil => exact fun escape => noEscape _ _ escape rfl
      | cons => exact fun escape => noEscape _ _ escape rfl
    exact ⟨_, .cons (.plain noQuote hplain noControl) hfront, rfl⟩

/-- A string that is read was spelled. -/
theorem textSpelledAs_of_readText {chars rest : List Char} {content : Option String}
    (h : readText chars = some (content, rest)) :
    ∃ inner, TextSpelledAs content ('"' :: inner) ∧ chars = inner ++ rest := by
  obtain ⟨⟨pieces, after⟩, hpieces, hresult⟩ := Option.map_eq_some_iff.1 h
  cases hresult
  obtain ⟨front, hfront, rfl⟩ := Quoted.spelledAs_of_pieces? hpieces
  refine ⟨front ++ ['"'], ?_, by rw [List.append_assoc, List.singleton_append]⟩
  cases hjoin : Quoted.join pieces with
  | none =>
    refine .broken hfront fun text hspell => ?_
    rw [Quoted.join_of_spell hspell] at hjoin
    cases hjoin
  | some text =>
    have hspell := Quoted.spell_of_join (Quoted.small_of_spelledAs hfront) hjoin
    exact .text hfront (String.toList_ofList.symm ▸ hspell)

end Strings

section Numbers

/-- A digit that is read was written. -/
theorem eq_toChar_of_digit? {c : Char} {digit : Digit} (h : digit? c = some digit) :
    c = digit.toChar := by
  unfold digit? at h
  split at h
  · rename_i hle
    simp only at h
    split at h
    · have hcode : c.toNat = '0'.toNat + digit.val := by
        cases h
        simp only
        omega
      rw [Digit.toChar, ← hcode, Char.ofNat_toNat]
    · cases h
  · cases h

/-- Digits that are read were written. -/
theorem eq_append_of_readDigits {chars rest : List Char} {digits : List Digit}
    (h : readDigits chars = (digits, rest)) : chars = writeDigits digits ++ rest := by
  fun_induction readDigits chars generalizing digits with
  | case1 =>
    cases h
    rfl
  | case2 c others digit hdigit more after hmore ih =>
    cases h
    rw [eq_toChar_of_digit? hdigit, ih hmore]
    rfl
  | case3 =>
    cases h
    rfl

/-- Digits of which there is one. -/
theorem eq_append_of_readSomeDigits {chars rest : List Char} {digits : List Digit}
    (h : readSomeDigits chars = some (digits, rest)) :
    digits ≠ [] ∧ chars = writeDigits digits ++ rest := by
  unfold readSomeDigits at h
  split at h
  · cases h
  · rename_i found hsome
    have hfound := Option.some.inj h
    refine ⟨?_, eq_append_of_readDigits hfound⟩
    rintro rfl
    exact hsome rest hfound

/-- The digits before the point. -/
theorem eq_append_of_readWhole {chars rest : List Char} {digits : List Digit}
    (h : readWhole chars = some (digits, rest)) :
    WholeDigits digits ∧ chars = writeDigits digits ++ rest := by
  unfold readWhole at h
  split at h
  · cases h
  · rename_i first second more after hread
    split at h
    · cases h
    · rename_i hfirst
      cases h
      exact ⟨⟨first, second :: more, rfl, fun zero => absurd zero hfirst⟩,
        eq_append_of_readDigits hread⟩
  · rename_i digit after hread
    cases h
    exact ⟨⟨digit, [], rfl, fun _ => rfl⟩, eq_append_of_readDigits hread⟩

/-- A point and the digits after it. -/
theorem eq_append_of_readFraction {chars rest : List Char} (numeral : Numeral)
    (h : readFraction chars = some (numeral.fraction, rest)) :
    chars = numeral.writeFraction ++ rest := by
  unfold readFraction at h
  unfold Numeral.writeFraction
  split at h
  · obtain ⟨given, rfl⟩ := eq_append_of_readSomeDigits h
    rw [if_neg (by rwa [List.isEmpty_iff])]
    rfl
  · obtain ⟨hnone, rfl⟩ := Prod.mk.inj (Option.some.inj h)
    rw [if_pos (by rw [← hnone]; rfl)]
    rfl

/-- An exponent that is read was spelled. -/
theorem powerSpelledAs_of_readExponent {chars rest : List Char}
    {exponent : Option (Bool × List Digit)} (h : readExponent chars = some (exponent, rest)) :
    ∃ power, PowerSpelledAs exponent power ∧ chars = power ++ rest := by
  unfold readExponent at h
  split at h
  · cases h
    exact ⟨[], .absent, rfl⟩
  · rename_i letter others
    split at h
    · rename_i isLetter
      simp only [Option.bind_eq_bind, Option.bind_eq_some_iff, Option.pure_def,
        Option.some.injEq, Prod.exists] at h
      obtain ⟨digits, after, hdigits, hresult⟩ := h
      cases hresult
      obtain ⟨given, hwritten⟩ := eq_append_of_readSomeDigits hdigits
      unfold readExponentSign at hwritten ⊢
      split at hwritten
      · subst hwritten
        exact ⟨letter :: '+' :: writeDigits digits, .signed isLetter (.inl rfl) given, rfl⟩
      · subst hwritten
        exact ⟨letter :: '-' :: writeDigits digits, .signed isLetter (.inr rfl) given, rfl⟩
      · subst hwritten
        exact ⟨letter :: writeDigits digits, .unsigned isLetter given, rfl⟩
    · cases h
      exact ⟨[], .absent, rfl⟩

/-- A number without its sign that is read was spelled. -/
theorem spelledAs_of_readUnsigned {negative : Bool} {chars rest : List Char} {numeral : Numeral}
    (h : readUnsigned negative chars = some (numeral, rest)) :
    ∃ front, numeral.SpelledAs ((if negative then ['-'] else []) ++ front) ∧
      chars = front ++ rest := by
  simp only [readUnsigned, Option.bind_eq_bind, Option.bind_eq_some_iff, Option.pure_def,
    Option.some.injEq, Prod.exists] at h
  obtain ⟨whole, afterWhole, hwhole, fraction, afterFraction, hfraction, exponent, after,
    hexponent, hresult⟩ := h
  cases hresult
  obtain ⟨hdigits, hfront⟩ := eq_append_of_readWhole hwhole
  have hpoint := eq_append_of_readFraction ⟨negative, whole, fraction, exponent⟩ hfraction
  obtain ⟨power, hpower, hend⟩ := powerSpelledAs_of_readExponent hexponent
  have hspelled : (Numeral.mk negative whole fraction exponent).SpelledAs
      ((if negative then ['-'] else []) ++ writeDigits whole ++
        Numeral.writeFraction ⟨negative, whole, fraction, exponent⟩ ++ power) :=
    .parts hdigits hpower
  refine ⟨writeDigits whole ++ (Numeral.writeFraction ⟨negative, whole, fraction, exponent⟩ ++
    power), ?_, ?_⟩
  · simpa only [List.append_assoc] using hspelled
  · rw [hfront, hpoint, hend, List.append_assoc, List.append_assoc]

/-- A number that is read was spelled. -/
theorem spelledAs_of_readNumeral {chars rest : List Char} {numeral : Numeral}
    (h : readNumeral chars = some (numeral, rest)) :
    ∃ front, numeral.SpelledAs front ∧ chars = front ++ rest := by
  unfold readNumeral at h
  split at h
  · obtain ⟨front, hspelled, rfl⟩ := spelledAs_of_readUnsigned h
    exact ⟨_, hspelled, rfl⟩
  · obtain ⟨front, hspelled, rfl⟩ := spelledAs_of_readUnsigned h
    exact ⟨_, hspelled, rfl⟩

end Numbers

section Values

/-- What is skipped is blank. -/
theorem exists_blanks (chars : List Char) :
    ∃ gap, Blanks gap ∧ chars = gap ++ skipBlanks chars := by
  refine ⟨chars.takeWhile isBlank, fun c hc => ?_, List.takeWhile_append_dropWhile.symm⟩
  exact List.mem_takeWhile_imp hc

/-- A word that is read was written. -/
theorem of_readWord {word chars rest : List Char} {value read : Value}
    (h : readWord word value chars = some (read, rest)) : read = value ∧ chars = word ++ rest := by
  unfold readWord at h
  split at h
  · rename_i hword
    obtain ⟨others, rfl⟩ := List.isPrefixOf_iff_prefix.1 hword
    rw [List.drop_left] at h
    cases h
    exact ⟨rfl, rfl⟩
  · cases h

/-- Every value read with so much fuel was spelled behind blanks. -/
def ValuesSpelled (fuel : Nat) : Prop :=
  ∀ {chars rest : List Char} {value : Value}, readValue fuel chars = some (value, rest) →
    ∃ front, value.SpelledAs front ∧ skipBlanks chars = front ++ rest

/-- So were all items read with so much fuel, up to their bracket. -/
def ItemsSpelled (fuel : Nat) : Prop :=
  ∀ {chars rest : List Char} {items : List Value}, readItems fuel chars = some (items, rest) →
    ∃ front, ItemsSpelledAs items front ∧ chars = front ++ ']' :: rest

/-- So were all members read with so much fuel, up to their brace. -/
def MembersSpelled (fuel : Nat) : Prop :=
  ∀ {chars rest : List Char} {members : List (Option String × Value)},
    readMembers fuel chars = some (members, rest) →
      ∃ front, MembersSpelledAs members front ∧ chars = front ++ '\x7d' :: rest

variable {fuel : Nat}

/-- A value one call above items and members that were spelled. -/
theorem valuesSpelled_succ (hitems : ItemsSpelled fuel) (hmembers : MembersSpelled fuel) :
    ValuesSpelled (fuel + 1) := by
  intro chars rest value h
  rw [readValue] at h
  split at h
  · cases h
  · rename_i others hfirst
    obtain ⟨⟨content, after⟩, hread, hresult⟩ := Option.map_eq_some_iff.1 h
    cases hresult
    obtain ⟨inner, hspelled, rfl⟩ := textSpelledAs_of_readText hread
    exact ⟨_, .text hspelled, hfirst⟩
  · rename_i others hfirst
    obtain ⟨gap, hgap, hothers⟩ := exists_blanks others
    split at h
    · rename_i after hclose
      cases h
      refine ⟨_, .emptyArray hgap, ?_⟩
      rw [hfirst, hothers, hclose]
      simp
    · rw [readItems_skipBlanks] at h
      obtain ⟨⟨content, after⟩, hread, hresult⟩ := Option.map_eq_some_iff.1 h
      cases hresult
      obtain ⟨front, hspelled, rfl⟩ := hitems hread
      exact ⟨_, .array hspelled, by simp [hfirst]⟩
  · rename_i others hfirst
    obtain ⟨gap, hgap, hothers⟩ := exists_blanks others
    split at h
    · rename_i after hclose
      cases h
      refine ⟨_, .emptyObject hgap, ?_⟩
      rw [hfirst, hothers, hclose]
      simp
    · rw [readMembers_skipBlanks] at h
      obtain ⟨⟨content, after⟩, hread, hresult⟩ := Option.map_eq_some_iff.1 h
      cases hresult
      obtain ⟨front, hspelled, rfl⟩ := hmembers hread
      exact ⟨_, .object hspelled, by simp [hfirst]⟩
  · rename_i others hfirst
    obtain ⟨rfl, rfl⟩ := of_readWord h
    exact ⟨_, .wordNull, hfirst⟩
  · rename_i others hfirst
    obtain ⟨rfl, rfl⟩ := of_readWord h
    exact ⟨_, .wordTrue, hfirst⟩
  · rename_i others hfirst
    obtain ⟨rfl, rfl⟩ := of_readWord h
    exact ⟨_, .wordFalse, hfirst⟩
  · rename_i c others _ _ _ _ _ _ hfirst
    obtain ⟨⟨numeral, after⟩, hread, hresult⟩ := Option.map_eq_some_iff.1 h
    cases hresult
    obtain ⟨front, hspelled, hfront⟩ := spelledAs_of_readNumeral hread
    exact ⟨front, .number hspelled, hfirst.trans hfront⟩

/-- A value between blanks, up to the next token. -/
theorem ValuesSpelled.amid (hvalues : ValuesSpelled fuel) {chars rest after : List Char} {c : Char}
    {value : Value} (h : readValue fuel chars = some (value, rest))
    (hnext : skipBlanks rest = c :: after) :
    ∃ front, value.SpelledAmid front ∧ chars = front ++ c :: after := by
  obtain ⟨front, hspelled, hfront⟩ := hvalues h
  obtain ⟨before, hbefore, hchars⟩ := exists_blanks chars
  obtain ⟨behind, hbehind, hrest⟩ := exists_blanks rest
  refine ⟨before ++ front ++ behind, .amid hbefore hspelled hbehind, ?_⟩
  rw [hchars, hfront, hrest, hnext]
  simp only [List.append_assoc]

/-- Items one call above a value that was spelled. -/
theorem itemsSpelled_succ (hvalues : ValuesSpelled fuel) (hitems : ItemsSpelled fuel) :
    ItemsSpelled (fuel + 1) := by
  intro chars rest items h
  simp only [readItems, Option.bind_eq_bind, Option.bind_eq_some_iff, Prod.exists] at h
  obtain ⟨item, afterItem, hitem, h⟩ := h
  split at h
  · rename_i others hnext
    simp only [Option.bind_eq_some_iff, Option.pure_def, Option.some.injEq, Prod.exists] at h
    obtain ⟨more, after, hmore, hresult⟩ := h
    cases hresult
    obtain ⟨front, hspelled, rfl⟩ := hvalues.amid hitem hnext
    obtain ⟨back, hback, rfl⟩ := hitems hmore
    exact ⟨_, .cons hspelled hback, by simp only [List.append_assoc, List.cons_append]⟩
  · rename_i after hnext
    cases h
    obtain ⟨front, hspelled, rfl⟩ := hvalues.amid hitem hnext
    exact ⟨_, .last hspelled, rfl⟩
  · cases h

/-- A name between blanks, up to its colon. -/
theorem exists_nameSpelledAs {chars inner gap after : List Char} {name : Option String}
    (hfirst : skipBlanks chars = '"' :: inner) (hname : readText inner = some (name, gap))
    (hcolon : skipBlanks gap = ':' :: after) :
    ∃ front, NameSpelledAs name front ∧ chars = front ++ ':' :: after := by
  obtain ⟨quoted, hspelled, rfl⟩ := textSpelledAs_of_readText hname
  obtain ⟨before, hbefore, hchars⟩ := exists_blanks chars
  obtain ⟨behind, hbehind, hgap⟩ := exists_blanks gap
  refine ⟨before ++ '"' :: quoted ++ behind, .amid hbefore hspelled hbehind, ?_⟩
  rw [hchars, hfirst, hgap, hcolon]
  simp only [List.append_assoc, List.cons_append]

/-- Members one call above a value that was spelled. -/
theorem membersSpelled_succ (hvalues : ValuesSpelled fuel) (hmembers : MembersSpelled fuel) :
    MembersSpelled (fuel + 1) := by
  intro chars rest members h
  rw [readMembers] at h
  split at h
  · rename_i inner hfirst
    simp only [Option.bind_eq_bind, Option.bind_eq_some_iff, Prod.exists] at h
    obtain ⟨name, gap, hname, h⟩ := h
    split at h
    · rename_i afterColon hcolon
      simp only [Option.bind_eq_some_iff, Prod.exists] at h
      obtain ⟨value, afterValue, hvalue, h⟩ := h
      obtain ⟨key, hkey, rfl⟩ := exists_nameSpelledAs hfirst hname hcolon
      split at h
      · rename_i others hnext
        simp only [Option.bind_eq_some_iff, Option.pure_def, Option.some.injEq, Prod.exists] at h
        obtain ⟨more, after, hmore, hresult⟩ := h
        cases hresult
        obtain ⟨front, hspelled, rfl⟩ := hvalues.amid hvalue hnext
        obtain ⟨back, hback, rfl⟩ := hmembers hmore
        exact ⟨_, .cons hkey hspelled hback, by simp only [List.append_assoc, List.cons_append]⟩
      · rename_i after hnext
        cases h
        obtain ⟨front, hspelled, rfl⟩ := hvalues.amid hvalue hnext
        exact ⟨_, .last hkey hspelled, by simp only [List.append_assoc, List.cons_append]⟩
      · cases h
    · cases h
  · cases h

/-- Whatever is read was spelled, whatever the fuel. -/
theorem spelled_of_fuel (fuel : Nat) :
    ValuesSpelled fuel ∧ ItemsSpelled fuel ∧ MembersSpelled fuel := by
  induction fuel with
  | zero =>
    refine ⟨fun h => ?_, fun h => ?_, fun h => ?_⟩
    · rw [readValue] at h
      cases h
    · rw [readItems] at h
      cases h
    · rw [readMembers] at h
      cases h
  | succ fuel ih =>
    obtain ⟨hvalues, hitems, hmembers⟩ := ih
    exact ⟨valuesSpelled_succ hitems hmembers, itemsSpelled_succ hvalues hitems,
      membersSpelled_succ hvalues hmembers⟩

/-- A text is read as a value exactly if it spells the value, blanks around it allowed. -/
theorem read?_eq_some_iff {text : String} {value : Value} :
    read? text = some value ↔ value.SpelledAmid text.toList := by
  refine ⟨fun h => ?_, read?_of_spelledAmid⟩
  simp only [read?, Option.bind_eq_bind, Option.bind_eq_some_iff, Prod.exists] at h
  obtain ⟨read, rest, hread, h⟩ := h
  split at h
  · rename_i hend
    cases h
    obtain ⟨front, hspelled, hfront⟩ := (spelled_of_fuel _).1 hread
    obtain ⟨before, hbefore, hchars⟩ := exists_blanks text.toList
    have hblank : Blanks rest := List.dropWhile_eq_nil_iff.1 (List.isEmpty_iff.1 hend)
    rw [hchars, hfront, ← List.append_assoc]
    exact .amid hbefore hspelled hblank
  · cases h

end Values

end Thesaurus.Json
