import Mathlib.Data.List.Basic
import Mathlib.Data.List.TakeWhile
import Thesaurus.Search

/-!
# Hits of text that stands in a label as typed

A query and a label are lower-cased apart, and a capital sigma is lowered by what stands around it.
So a text that stands in a label letter by letter may be missed: as a query it ends with a sigma
that closes a word, in the label the word goes on. A query finds every label that holds its text
exactly if the text settles the form of each of its sigmas; one whose form may hang on what stands
around the text is exposed. A label is missed only if it changes the form of a sigma at every
place of the text.
-/

namespace Thesaurus

namespace Text

/-- Whether a sigma ends a word, what stands before it given last character first. -/
def endsWord (before rest : List Char) : Bool := nextIsCased before && !nextIsCased rest

/-- The lower-case form of one character, by what stands before it, last character first, and
behind it. -/
def lowerAt (before : List Char) (c : Char) (rest : List Char) : List Char :=
  if c = 'İ' then ['i', '\u0307']
  else if c = 'Σ' then if endsWord before rest then ['ς'] else ['σ']
  else [lowerChar c]

/-- The lower-case form of a text between others, what stands before it given last character
first. -/
def lowerWithin (before after : List Char) : List Char → List Char
  | [] => []
  | c :: rest => lowerAt before c (rest ++ after) ++ lowerWithin (c :: before) after rest

/-- Whether the sigmas of a text have the same form between one pair of texts and between another,
those before it given last character first. -/
def KeepsSigmas (text before after before' after' : List Char) : Prop :=
  ∀ front back, text = front ++ 'Σ' :: back →
    endsWord (front.reverse ++ before) (back ++ after) =
      endsWord (front.reverse ++ before') (back ++ after')

/-- Whether what stands around a text may decide the form of a sigma in it: no cased character of
the text follows the sigma, and before it the text has case-ignorable characters only, or it has a
cased one before it and case-ignorable ones only behind it. -/
def isExposed (before rest : List Char) : Bool :=
  !nextIsCased rest &&
    (before.all isCaseIgnorable || (nextIsCased before && rest.all isCaseIgnorable))

/-- Whether some sigma of a text is exposed, what stands before it given last character first. -/
def exposesAfter (before : List Char) : List Char → Bool
  | [] => false
  | c :: rest => (c == 'Σ' && isExposed before rest) || exposesAfter (c :: before) rest

/-- Whether some capital sigma of a text is exposed. -/
def exposesSigma (text : List Char) : Bool := exposesAfter [] text

section Context

/-- Lower-casing goes character by character. -/
theorem lowerAfter_cons (before : List Char) (c : Char) (rest : List Char) :
    lowerAfter before (c :: rest) = lowerAt before c rest ++ lowerAfter (c :: before) rest := rfl

/-- A text with another one behind it is lowered in front of that. -/
theorem lowerAfter_append (before text after : List Char) :
    lowerAfter before (text ++ after) =
      lowerWithin before after text ++ lowerAfter (text.reverse ++ before) after := by
  induction text generalizing before with
  | nil => rfl
  | cons c rest ih =>
    rw [List.cons_append, lowerAfter_cons, ih, lowerWithin, List.append_assoc,
      List.reverse_cons, List.append_assoc, List.singleton_append]

/-- A text with nothing behind it is lowered as a whole text. -/
theorem lowerWithin_nil (before text : List Char) :
    lowerWithin before [] text = lowerAfter before text := by
  have h := lowerAfter_append before text []
  rw [List.append_nil, lowerAfter, List.append_nil] at h
  exact h.symm

/-- The place of a text in a lowered text. -/
theorem lower_between (before text after : List Char) :
    lower (before ++ text ++ after) =
      lowerWithin [] (text ++ after) before ++ lowerWithin before.reverse after text ++
        lowerAfter (text.reverse ++ before.reverse) after := by
  unfold lower
  rw [List.append_assoc, lowerAfter_append, lowerAfter_append, List.append_nil, List.append_assoc]

/-- The form of a character has the same length everywhere. -/
theorem length_lowerAt (before before' : List Char) (c : Char) (rest rest' : List Char) :
    (lowerAt before c rest).length = (lowerAt before' c rest').length := by
  unfold lowerAt
  split
  · rfl
  · split
    · split <;> split <;> rfl
    · rfl

/-- A text has the same length in lower case wherever it stands. -/
theorem length_lowerWithin (before after before' after' text : List Char) :
    (lowerWithin before after text).length = (lowerWithin before' after' text).length := by
  induction text generalizing before before' with
  | nil => rfl
  | cons c rest ih =>
    rw [lowerWithin, lowerWithin, List.length_append, List.length_append,
      length_lowerAt before before' c (rest ++ after) (rest ++ after'),
      ih (c :: before) (c :: before')]

/-- Two forms of a character are the same exactly if it is no sigma, or a sigma that ends a word in
both places or in none. -/
theorem lowerAt_eq_iff (before before' : List Char) (c : Char) (rest rest' : List Char) :
    lowerAt before c rest = lowerAt before' c rest' ↔
      (c = 'Σ' → endsWord before rest = endsWord before' rest') := by
  by_cases hsigma : c = 'Σ'
  · subst hsigma
    have hform : ∀ before rest : List Char,
        lowerAt before 'Σ' rest = if endsWord before rest then ['ς'] else ['σ'] := by
      intro before rest
      rfl
    rw [hform, hform]
    cases endsWord before rest <;> cases endsWord before' rest' <;> decide
  · unfold lowerAt
    simp only [hsigma, if_false, false_imp_iff]

/-- A text is lowered alike in two places exactly if its sigmas keep their form. -/
theorem lowerWithin_eq_iff (text before after before' after' : List Char) :
    lowerWithin before after text = lowerWithin before' after' text ↔
      KeepsSigmas text before after before' after' := by
  induction text generalizing before before' with
  | nil =>
    refine iff_of_true rfl fun front back h => ?_
    exact absurd h.symm (List.append_ne_nil_of_right_ne_nil front (List.cons_ne_nil _ _))
  | cons c rest ih =>
    have hlen := length_lowerAt before before' c (rest ++ after) (rest ++ after')
    have happend : lowerAt before c (rest ++ after) ++ lowerWithin (c :: before) after rest =
        lowerAt before' c (rest ++ after') ++ lowerWithin (c :: before') after' rest ↔
          lowerAt before c (rest ++ after) = lowerAt before' c (rest ++ after') ∧
            lowerWithin (c :: before) after rest = lowerWithin (c :: before') after' rest :=
      ⟨fun h => List.append_inj h hlen, fun h => h.1 ▸ h.2 ▸ rfl⟩
    rw [lowerWithin, lowerWithin, happend, lowerAt_eq_iff, ih]
    constructor
    · rintro ⟨hfirst, hrest⟩ front back hsplit
      cases front with
      | nil =>
        obtain ⟨hc, rfl⟩ := List.cons.inj hsplit
        exact hfirst hc
      | cons d front =>
        obtain ⟨rfl, htail⟩ := List.cons.inj hsplit
        have hback := hrest front back htail
        rw [List.reverse_cons, List.append_assoc, List.append_assoc]
        exact hback
    · intro h
      refine ⟨fun hc => h [] rest (hc ▸ rfl), fun front back hsplit => ?_⟩
      have hback := h (c :: front) back (by rw [hsplit, List.cons_append])
      rw [List.reverse_cons, List.append_assoc, List.append_assoc] at hback
      exact hback

end Context

section Exposure

/-- Case-ignorable characters leave it to what follows them whether a cased one comes next. -/
theorem nextIsCased_append (text more : List Char) :
    nextIsCased (text ++ more) =
      if text.all isCaseIgnorable = true then nextIsCased more else nextIsCased text := by
  unfold nextIsCased
  rw [List.dropWhile_append]
  by_cases hall : text.all isCaseIgnorable = true
  · have hnone : text.dropWhile isCaseIgnorable = [] :=
      List.dropWhile_eq_nil_iff.mpr (List.all_eq_true.mp hall)
    rw [if_pos hall, hnone]
    rfl
  · have hsome : text.dropWhile isCaseIgnorable ≠ [] :=
      fun h => hall (List.all_eq_true.mpr (List.dropWhile_eq_nil_iff.mp h))
    obtain ⟨c, rest, hcons⟩ := List.exists_cons_of_ne_nil hsome
    rw [if_neg hall, hcons]
    rfl

/-- After case-ignorable characters only, no cased one comes. -/
theorem nextIsCased_of_all {text : List Char} (hall : text.all isCaseIgnorable = true) :
    nextIsCased text = false := by
  have h := nextIsCased_append text []
  rw [List.append_nil, if_pos hall] at h
  exact h

/-- A sigma that is not exposed ends a word in the text exactly if it does so wherever the text
stands. -/
theorem endsWord_of_not_exposed {front rest : List Char} (h : isExposed front rest = false)
    (before after : List Char) :
    endsWord (front ++ before) (rest ++ after) = endsWord front rest := by
  have hrest := @nextIsCased_of_all rest
  unfold isExposed at h
  unfold endsWord
  rw [nextIsCased_append, nextIsCased_append]
  revert h hrest
  cases nextIsCased rest <;> cases front.all isCaseIgnorable <;> cases nextIsCased front <;>
    cases rest.all isCaseIgnorable <;> simp

/-- A sigma is exposed if it is so with the text on both sides of it. -/
theorem exposesAfter_iff {before text : List Char} :
    exposesAfter before text = true ↔
      ∃ front back, text = front ++ 'Σ' :: back ∧
        isExposed (front.reverse ++ before) back = true := by
  induction text generalizing before with
  | nil => simp [exposesAfter]
  | cons c rest ih =>
    rw [exposesAfter, Bool.or_eq_true, Bool.and_eq_true, beq_iff_eq, ih]
    constructor
    · rintro (⟨rfl, h⟩ | ⟨front, back, rfl, h⟩)
      · exact ⟨[], rest, rfl, h⟩
      · refine ⟨c :: front, back, rfl, ?_⟩
        rw [List.reverse_cons, List.append_assoc]
        exact h
    · rintro ⟨front, back, hsplit, h⟩
      cases front with
      | nil =>
        obtain ⟨hc, rfl⟩ := List.cons.inj hsplit
        exact Or.inl ⟨hc, h⟩
      | cons d front =>
        obtain ⟨rfl, htail⟩ := List.cons.inj hsplit
        rw [List.reverse_cons, List.append_assoc] at h
        exact Or.inr ⟨front, back, htail, h⟩

/-- Where no sigma is exposed, all of them keep their form wherever the text stands. -/
theorem keepsSigmas_of_not_exposed {text : List Char} (h : exposesSigma text = false)
    (before after : List Char) : KeepsSigmas text before after [] [] := by
  intro front back hsplit
  have hback : isExposed (front.reverse ++ []) back = false := by
    rw [Bool.eq_false_iff]
    intro hexposed
    rw [exposesSigma, Bool.eq_false_iff] at h
    exact h (exposesAfter_iff.mpr ⟨front, back, hsplit, hexposed⟩)
  rw [List.append_nil] at hback
  rw [List.append_nil, List.append_nil]
  exact endsWord_of_not_exposed hback before after

end Exposure

section Missed

/-- Only the two forms of the first letter have its small form as their partner. -/
theorem eq_of_lowerChar_eq_a {c : Char} (h : lowerChar c = 'a') : c = 'a' ∨ c = 'A' := by
  unfold lowerChar at h
  split at h
  · rename_i hascii
    have hall : ∀ code < 0x80, (Char.ofNat code).toLower = 'a' →
        Char.ofNat code = 'a' ∨ Char.ofNat code = 'A' := by decide +kernel
    have hc := hall c.toNat hascii
    rw [Char.ofNat_toNat] at hc
    exact hc h
  · split at h
    · rename_i code hcode
      -- no run of the table reaches down to the small letters of ASCII
      have htargets : ∀ run ∈ lowercaseRuns, 0x61 < run.target := by decide +kernel
      obtain ⟨run, mem, hpartner⟩ := List.exists_of_findSome?_eq_some hcode
      have hlt : 0x61 < code := by
        unfold CaseRun.partner? at hpartner
        split at hpartner
        · have htarget := htargets run mem
          have hsum := Option.some.inj hpartner
          omega
        · cases hpartner
      have hchar : (Char.ofNat code).toNat = code ∨ (Char.ofNat code).toNat = 0 := by
        by_cases hvalid : code.isValidChar
        · rw [Char.ofNat, dif_pos hvalid]
          exact Or.inl rfl
        · rw [Char.ofNat, dif_neg hvalid]
          exact Or.inr rfl
      have ha : 'a'.toNat = 0x61 := rfl
      rw [h] at hchar
      omega
    · exact Or.inl h

/-- Neither a sigma nor a case-ignorable character has a form with the first small letter. -/
theorem a_not_mem_lowerAt {before rest : List Char} {c : Char}
    (h : c = 'Σ' ∨ isCaseIgnorable c = true) : 'a' ∉ lowerAt before c rest := by
  intro mem
  unfold lowerAt at mem
  split at mem
  · revert mem
    decide
  · split at mem
    · split at mem
      · revert mem
        decide
      · revert mem
        decide
    · rename_i hsigma
      have hc := eq_of_lowerChar_eq_a (List.mem_singleton.mp mem).symm
      rcases hc with rfl | rfl
      · exact absurd (h.resolve_left hsigma) (by decide +kernel)
      · exact absurd (h.resolve_left hsigma) (by decide +kernel)

/-- Every character has a form. -/
theorem lowerAt_ne_nil (before : List Char) (c : Char) (rest : List Char) :
    lowerAt before c rest ≠ [] := by
  unfold lowerAt
  split
  · exact List.cons_ne_nil _ _
  · split
    · split <;> exact List.cons_ne_nil _ _
    · exact List.cons_ne_nil _ _

/-- A text of the same length occurs in one with a character in front of it only as that text, or
in front. -/
theorem eq_or_in_front {needle middle : List Char} {c : Char}
    (hlen : needle.length = middle.length) (h : occursIn needle (c :: middle) = true) :
    needle = middle ∨ ∃ more, c :: middle = needle ++ more := by
  obtain ⟨before, after, hsplit⟩ := occursIn_iff.mp h
  cases before with
  | nil => exact Or.inr ⟨after, hsplit⟩
  | cons d before =>
    have htail : middle = before ++ needle ++ after := (List.cons.inj hsplit).2
    have hcount := congrArg List.length htail
    simp only [List.length_append] at hcount
    have hbefore : before = [] := List.length_eq_zero_iff.mp (by omega)
    have hafter : after = [] := List.length_eq_zero_iff.mp (by omega)
    rw [hbefore, hafter, List.append_nil] at htail
    exact Or.inl htail.symm

/-- A text of the same length occurs in one with a character behind it only as that text, or at
the end. -/
theorem eq_or_at_end {needle middle : List Char} {c : Char}
    (hlen : needle.length = middle.length) (h : occursIn needle (middle ++ [c]) = true) :
    needle = middle ∨ ∃ more, middle ++ [c] = more ++ needle := by
  obtain ⟨before, after, hsplit⟩ := occursIn_iff.mp h
  rcases List.eq_nil_or_concat after with rfl | ⟨init, d, rfl⟩
  · rw [List.append_nil] at hsplit
    exact Or.inr ⟨before, hsplit⟩
  · have hcount := congrArg List.length hsplit
    simp only [List.length_append, List.length_singleton, List.concat_eq_append] at hcount
    have hbefore : before = [] := List.length_eq_zero_iff.mp (by omega)
    have hinit : init = [] := List.length_eq_zero_iff.mp (by omega)
    rw [hbefore, hinit] at hsplit
    exact Or.inl (List.append_inj_left' hsplit rfl).symm

/-- A text with a letter in front misses itself if the letter makes a sigma of it end a word. -/
theorem missed_behind_a {front back : List Char} (hfront : front.all isCaseIgnorable = true)
    (hback : nextIsCased back = false) :
    occursIn (lower (front ++ 'Σ' :: back)) (lower ('a' :: (front ++ 'Σ' :: back))) = false := by
  rw [Bool.eq_false_iff]
  intro h
  have hlabel : lower ('a' :: (front ++ 'Σ' :: back)) =
      'a' :: lowerWithin ['a'] [] (front ++ 'Σ' :: back) := by
    rw [lowerWithin_nil]
    rfl
  rw [hlabel, lower, ← lowerWithin_nil] at h
  rcases eq_or_in_front (length_lowerWithin [] [] ['a'] [] _) h with hsame | ⟨more, hsame⟩
  · have hform := (lowerWithin_eq_iff _ [] [] ['a'] []).mp hsame front back rfl
    have hreverse : front.reverse.all isCaseIgnorable = true := by
      rw [List.all_reverse]
      exact hfront
    unfold endsWord at hform
    rw [nextIsCased_append, nextIsCased_append front.reverse, if_pos hreverse, if_pos hreverse,
      List.append_nil, hback] at hform
    revert hform
    decide +kernel
  · -- the first character of the text is no letter, so the label does not begin with it
    have hfirst : ∃ c rest, front ++ 'Σ' :: back = c :: rest ∧
        (c = 'Σ' ∨ isCaseIgnorable c = true) := by
      cases front with
      | nil => exact ⟨'Σ', back, rfl, Or.inl rfl⟩
      | cons c front =>
        exact ⟨c, front ++ 'Σ' :: back, rfl,
          Or.inr (List.all_eq_true.mp hfront c List.mem_cons_self)⟩
    obtain ⟨c, rest, hcons, hc⟩ := hfirst
    rw [hcons, lowerWithin_nil [] (c :: rest), lowerAfter_cons, List.append_assoc,
      List.cons_eq_append_iff] at hsame
    rcases hsame with ⟨hnil, _⟩ | ⟨tail, hmore, _⟩
    · exact lowerAt_ne_nil _ _ _ hnil
    · exact a_not_mem_lowerAt hc (hmore ▸ List.mem_cons_self)

/-- A text with a letter behind misses itself if the letter makes a sigma of it go on. -/
theorem missed_before_a {front back : List Char} (hfront : nextIsCased front.reverse = true)
    (hback : back.all isCaseIgnorable = true) :
    occursIn (lower (front ++ 'Σ' :: back)) (lower (front ++ 'Σ' :: back ++ ['a'])) = false := by
  rw [Bool.eq_false_iff]
  intro h
  have hlabel : lower (front ++ 'Σ' :: back ++ ['a']) =
      lowerWithin [] ['a'] (front ++ 'Σ' :: back) ++ ['a'] := by
    unfold lower
    rw [lowerAfter_append]
    rfl
  rw [hlabel, lower, ← lowerWithin_nil] at h
  rcases eq_or_at_end (length_lowerWithin [] [] [] ['a'] _) h with hsame | ⟨more, hsame⟩
  · have hform := (lowerWithin_eq_iff _ [] [] [] ['a']).mp hsame front back rfl
    unfold endsWord at hform
    rw [nextIsCased_append back, nextIsCased_append back, if_pos hback, if_pos hback,
      List.append_nil, hfront] at hform
    revert hform
    decide +kernel
  · -- the last character of the text is no letter, so the label does not end with it
    have hlast : ∃ init c, front ++ 'Σ' :: back = init ++ [c] ∧
        (c = 'Σ' ∨ isCaseIgnorable c = true) := by
      rcases List.eq_nil_or_concat back with rfl | ⟨init, c, rfl⟩
      · exact ⟨front, 'Σ', rfl, Or.inl rfl⟩
      · rw [List.concat_eq_append] at hback ⊢
        refine ⟨front ++ 'Σ' :: init, c, by simp, Or.inr ?_⟩
        exact List.all_eq_true.mp hback c (List.mem_append_right _ List.mem_cons_self)
    obtain ⟨init, c, hconcat, hc⟩ := hlast
    rw [lowerWithin_nil [] (front ++ _), hconcat, lowerAfter_append, lowerAfter_cons, lowerAfter,
      List.append_nil, List.append_nil, ← List.append_assoc] at hsame
    have hends := congrArg List.getLast? hsame
    rw [List.getLast?_concat, List.getLast?_append_of_ne_nil _ (lowerAt_ne_nil _ _ _)] at hends
    exact a_not_mem_lowerAt hc (List.mem_of_getLast? hends.symm)

/-- A text that exposes a sigma is missed in some label in which it stands. -/
theorem exists_missed {text : List Char} (h : exposesSigma text = true) :
    ∃ before after, occursIn (lower text) (lower (before ++ text ++ after)) = false := by
  obtain ⟨front, back, rfl, hexposed⟩ := exposesAfter_iff.mp h
  rw [List.append_nil, isExposed, Bool.and_eq_true, Bool.or_eq_true, Bool.and_eq_true,
    Bool.not_eq_true'] at hexposed
  obtain ⟨hback, hfront | ⟨hfront, hignored⟩⟩ := hexposed
  · rw [List.all_reverse] at hfront
    refine ⟨['a'], [], ?_⟩
    rw [List.append_nil]
    exact missed_behind_a hfront hback
  · exact ⟨[], ['a'], missed_before_a hfront hignored⟩

end Missed

/-- A text is found in a label where its sigmas keep their form. -/
theorem occursIn_lower_of_keepsSigmas {before text after : List Char}
    (h : KeepsSigmas text before.reverse after [] []) :
    occursIn (lower text) (lower (before ++ text ++ after)) = true := by
  rw [← lowerWithin_eq_iff, lowerWithin_nil] at h
  rw [occursIn_iff, lower_between, h]
  exact ⟨_, _, rfl⟩

end Text

namespace Query

section Active

variable {typed : String} {minChars : Nat}

/-- An active query looks for the trimmed text in lower case. -/
theorem ofText_of_active (active : (ofText typed minChars).isActive = true) :
    ofText typed minChars = ⟨some (String.ofList (Text.lower (Text.trim typed.toList)))⟩ := by
  unfold ofText at active ⊢
  dsimp only at active ⊢
  split
  · rename_i hshort
    rw [if_pos hshort] at active
    cases active
  · rfl

/-- An active query finds labels exactly if the trimmed text in lower case occurs in one of them
in lower case. -/
theorem matchesLabels_iff (active : (ofText typed minChars).isActive = true) {label : String}
    {altLabels : List String} :
    (ofText typed minChars).matchesLabels label altLabels = true ↔
      ∃ text ∈ label :: altLabels,
        Text.occursIn (Text.lower (Text.trim typed.toList)) (Text.lower text.toList) = true := by
  rw [ofText_of_active active]
  simp only [matchesLabels, hits, String.toList_ofList, Bool.or_eq_true, List.any_eq_true,
    List.mem_cons, exists_eq_or_imp]

end Active

/-- A query finds every label that holds its trimmed text letter by letter exactly if no sigma of
the text is exposed. Whatever the text, it finds each label in which, at one of the places of the
text, all sigmas have the form that they have in the text alone. -/
theorem literal_found_iff {typed : String} {minChars : Nat}
    (active : (ofText typed minChars).isActive = true) :
    ((∀ label altLabels,
        (∃ text ∈ label :: altLabels, ∃ before after,
          text.toList = before ++ Text.trim typed.toList ++ after) →
        (ofText typed minChars).matchesLabels label altLabels = true) ↔
      Text.exposesSigma (Text.trim typed.toList) = false) ∧
    ∀ label altLabels, ∀ text ∈ label :: altLabels, ∀ before after,
      text.toList = before ++ Text.trim typed.toList ++ after →
      Text.KeepsSigmas (Text.trim typed.toList) before.reverse after [] [] →
      (ofText typed minChars).matchesLabels label altLabels = true := by
  have hplace : ∀ label altLabels, ∀ text ∈ label :: altLabels, ∀ before after,
      text.toList = before ++ Text.trim typed.toList ++ after →
      Text.KeepsSigmas (Text.trim typed.toList) before.reverse after [] [] →
      (ofText typed minChars).matchesLabels label altLabels = true := by
    intro label altLabels text mem before after hsplit hkeeps
    refine (matchesLabels_iff active).mpr ⟨text, mem, ?_⟩
    rw [hsplit]
    exact Text.occursIn_lower_of_keepsSigmas hkeeps
  refine ⟨⟨fun hall => ?_, fun hsafe => ?_⟩, hplace⟩
  · rw [Bool.eq_false_iff]
    intro hexposed
    obtain ⟨before, after, hmissed⟩ := Text.exists_missed hexposed
    have hlabel : (String.ofList (before ++ Text.trim typed.toList ++ after)).toList =
        before ++ Text.trim typed.toList ++ after := String.toList_ofList
    have hfound := hall (String.ofList (before ++ Text.trim typed.toList ++ after)) []
      ⟨_, List.mem_cons_self, before, after, hlabel⟩
    obtain ⟨text, mem, hoccurs⟩ := (matchesLabels_iff active).mp hfound
    rw [List.mem_singleton.mp mem, hlabel, hmissed] at hoccurs
    cases hoccurs
  · rintro label altLabels ⟨text, mem, before, after, hsplit⟩
    exact hplace label altLabels text mem before after hsplit
      (Text.keepsSigmas_of_not_exposed hsafe before.reverse after)

/-- The sigma at the end of ΟΔΟΣ is exposed, so some labels with this text are missed; one in which
the word ends there is found. -/
theorem literal_found_iff_odos :
    (ofText " ΟΔΟΣ" 2).isActive = true ∧ Text.exposesSigma (Text.trim " ΟΔΟΣ".toList) = true ∧
      Text.KeepsSigmas (Text.trim " ΟΔΟΣ".toList) "Η ".toList.reverse " 5".toList [] [] ∧
      (ofText " ΟΔΟΣ" 2).matchesLabels "Street" ["Η ΟΔΟΣ 5"] = true ∧
      ¬∀ label altLabels,
        (∃ text ∈ label :: altLabels, ∃ before after,
          text.toList = before ++ Text.trim " ΟΔΟΣ".toList ++ after) →
        (ofText " ΟΔΟΣ" 2).matchesLabels label altLabels = true := by
  have active : (ofText " ΟΔΟΣ" 2).isActive = true := by decide +kernel
  have hexposed : Text.exposesSigma (Text.trim " ΟΔΟΣ".toList) = true := by decide +kernel
  have hkeeps :
      Text.KeepsSigmas (Text.trim " ΟΔΟΣ".toList) "Η ".toList.reverse " 5".toList [] [] := by
    rw [← Text.lowerWithin_eq_iff]
    decide +kernel
  obtain ⟨hiff, hplace⟩ := literal_found_iff active
  refine ⟨active, hexposed, hkeeps, ?_, fun hall => ?_⟩
  · exact hplace "Street" ["Η ΟΔΟΣ 5"] "Η ΟΔΟΣ 5" (by decide) _ _ (by decide +kernel) hkeeps
  · rw [hiff, hexposed] at hall
    cases hall

/-- The label ΟΔΟΣΗΜΑΝΣΗ begins with ΟΔΟΣ letter by letter, and a query of this text misses it. -/
theorem odos_missed :
    (ofText "ΟΔΟΣ" 1).isActive = true ∧
      "ΟΔΟΣΗΜΑΝΣΗ".toList = [] ++ Text.trim "ΟΔΟΣ".toList ++ "ΗΜΑΝΣΗ".toList ∧
      (ofText "ΟΔΟΣ" 1).matchesLabels "ΟΔΟΣΗΜΑΝΣΗ" [] = false := by
  decide +kernel

end Query

end Thesaurus
