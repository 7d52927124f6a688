import Thesaurus.Path

/-!
# Reading and writing paths

An id written as a segment holds no separator and is read back as it was. So the ids of a path
with one more segment are those of the path and the one more, and the path that was extended is
the parent of the extended one and the last of its ancestors, whatever texts the ids are and
whatever text the path was. A path is cut where the separators are: the parent before the last
one, the parent id between the last two, the ancestors before each. So a path written from ids is
read back as these ids.
-/

namespace Thesaurus.Path

/-- What is written is read back. -/
theorem decodeChars_encodeChars (id : List Char) : decodeChars (encodeChars id) = id := by
  induction id with
  | nil => rfl
  | cons c rest ih =>
    unfold encodeChars
    by_cases hs : c = separator
    · rw [if_pos hs, decodeChars, ih, hs]
    · by_cases he : c = escape
      · rw [if_neg hs, if_pos he, decodeChars, ih, he]
      · rw [if_neg hs, if_neg he, decodeChars.eq_4, ih]
        · exact fun _ hc _ => he hc
        · exact fun _ hc _ => he hc
        · exact fun _ hc _ => he hc

/-- A written id holds no separator. -/
theorem separator_not_mem_encodeChars (id : List Char) : separator ∉ encodeChars id := by
  induction id with
  | nil => exact List.not_mem_nil
  | cons c rest ih =>
    unfold encodeChars
    by_cases hs : c = separator
    · rw [if_pos hs]
      simp only [List.mem_cons, not_or]
      exact ⟨by decide, by decide, by decide, ih⟩
    · by_cases he : c = escape
      · rw [if_neg hs, if_pos he]
        simp only [List.mem_cons, not_or]
        exact ⟨by decide, by decide, by decide, ih⟩
      · rw [if_neg hs, if_neg he, List.mem_cons, not_or]
        exact ⟨fun same => hs same.symm, ih⟩

/-- Every text has a first segment. -/
theorem segments_ne_nil (text : List Char) : segments text ≠ [] := by
  cases text with
  | nil => exact List.cons_ne_nil _ _
  | cons c rest =>
    unfold segments
    split
    · exact List.cons_ne_nil _ _
    · split <;> exact List.cons_ne_nil _ _

/-- A text without separator is one segment. -/
theorem segments_of_not_mem {text : List Char} (h : separator ∉ text) : segments text = [text] := by
  induction text with
  | nil => rfl
  | cons c rest ih =>
    rw [List.mem_cons, not_or] at h
    unfold segments
    rw [if_neg (Ne.symm h.1), ih h.2]

/-- The segments of two texts with a separator between them are those of the one and those of
the other. -/
theorem segments_append_separator (before after : List Char) :
    segments (before ++ separator :: after) = segments before ++ segments after := by
  induction before with
  | nil =>
    have hfirst : segments (separator :: after) = [] :: segments after := by
      rw [segments, if_pos rfl]
    exact hfirst
  | cons c rest ih =>
    rw [List.cons_append, segments, segments, ih]
    by_cases hs : c = separator
    · rw [if_pos hs, if_pos hs]
      rfl
    · rw [if_neg hs, if_neg hs]
      -- the character goes to the first segment, and there is one
      cases hr : segments rest with
      | nil => exact absurd hr (segments_ne_nil rest)
      | cons first others => rfl

/-- Segments with separators before all but the first make up the text. -/
theorem append_flatMap_segments {text first : List Char} {rest : List (List Char)}
    (h : segments text = first :: rest) :
    first ++ rest.flatMap (fun segment => separator :: segment) = text := by
  induction text generalizing first rest with
  | nil =>
    cases h
    rfl
  | cons c others ih =>
    unfold segments at h
    by_cases hs : c = separator
    · rw [if_pos hs] at h
      obtain ⟨rfl, rfl⟩ := List.cons.inj h
      cases hr : segments others with
      | nil => exact absurd hr (segments_ne_nil others)
      | cons second rest =>
        rw [List.flatMap_cons, List.nil_append, List.cons_append, ih hr, hs]
    · rw [if_neg hs] at h
      cases hr : segments others with
      | nil => exact absurd hr (segments_ne_nil others)
      | cons second rest =>
        rw [hr] at h
        obtain ⟨rfl, rfl⟩ := List.cons.inj h
        rw [List.cons_append, ih hr]

/-- The characters of a joined path. -/
theorem toList_join (above : PathText) (segment : String) :
    (join above segment).toList = above.toList ++ separator :: segment.toList := by
  unfold join
  rw [String.toList_append, String.toList_append, String.toList_singleton, List.append_assoc,
    List.singleton_append]

/-- The characters of an id as one segment. -/
theorem toList_encode (id : ConceptId) : (encode id).toList = encodeChars id.toList :=
  String.toList_ofList

/-- One more text without separator is one more segment. -/
theorem segments_join {segment : String} (h : separator ∉ segment.toList) (above : PathText) :
    segments (join above segment).toList = segments above.toList ++ [segment.toList] := by
  rw [toList_join, segments_append_separator, segments_of_not_mem h]

/-- An id as one segment holds no separator. -/
theorem separator_not_mem_encode (id : ConceptId) : separator ∉ (encode id).toList := by
  rw [toList_encode]
  exact separator_not_mem_encodeChars id.toList

/-- One more id is one more segment. -/
theorem segments_child (above : PathText) (id : ConceptId) :
    segments (child above id).toList = segments above.toList ++ [encodeChars id.toList] := by
  unfold child
  rw [segments_join (separator_not_mem_encode id), toList_encode]

/-- The id of a written segment. -/
theorem ofList_decodeChars_encodeChars (id : ConceptId) :
    String.ofList (decodeChars (encodeChars id.toList)) = id := by
  rw [decodeChars_encodeChars, String.ofList_toList]

/-- The path of a root has its id alone. -/
theorem ids_root (id : ConceptId) : ids (root id) = [id] := by
  unfold ids root
  rw [toList_encode, segments_of_not_mem (separator_not_mem_encodeChars id.toList)]
  rw [List.map_cons, List.map_nil, ofList_decodeChars_encodeChars]

/-- A path that goes on from another goes on below it from there. -/
theorem child_append (above rest : PathText) (id : ConceptId) :
    child (above ++ rest) id = above ++ child rest id := by
  unfold child join
  rw [String.append_assoc, String.append_assoc, String.append_assoc]

/-- A path below another has one id more. -/
theorem ids_child (above : PathText) (id : ConceptId) :
    ids (child above id) = ids above ++ [id] := by
  unfold ids
  rw [segments_child, List.map_append, List.map_cons, List.map_nil,
    ofList_decodeChars_encodeChars]

/-- With one more segment, one more path lies before it: all that was joined so far. -/
theorem partsBefore_concat (above : PathText) (parts : List String) (segment : String) :
    partsBefore above (parts ++ [segment]) =
      partsBefore above parts ++ [parts.foldl join above] := by
  induction parts generalizing above with
  | nil => rfl
  | cons first rest ih =>
    show above :: partsBefore (join above first) (rest ++ [segment]) = _
    rw [ih]
    rfl

/-- The characters of segments joined one after another. -/
theorem toList_foldl_join (above : PathText) (parts : List (List Char)) :
    ((parts.map String.ofList).foldl join above).toList =
      above.toList ++ parts.flatMap (fun segment => separator :: segment) := by
  induction parts generalizing above with
  | nil => rw [List.map_nil, List.foldl_nil, List.flatMap_nil, List.append_nil]
  | cons first rest ih =>
    rw [List.map_cons, List.foldl_cons, ih, toList_join, String.toList_ofList, List.flatMap_cons,
      List.append_assoc]

/-- The segments of a path, joined again, are the path. -/
theorem foldl_join_segments {path : PathText} {first : List Char} {rest : List (List Char)}
    (h : segments path.toList = first :: rest) :
    (rest.map String.ofList).foldl join (String.ofList first) = path := by
  apply String.toList_inj.mp
  rw [toList_foldl_join, String.toList_ofList]
  exact append_flatMap_segments h

/-- With one more segment, what was there before is one more ancestor. -/
theorem ancestors_join {segment : String} (h : separator ∉ segment.toList) (above : PathText) :
    ancestors (join above segment) = ancestors above ++ [above] := by
  unfold ancestors
  rw [segments_join h]
  cases hs : segments above.toList with
  | nil => exact absurd hs (segments_ne_nil above.toList)
  | cons first rest =>
    show partsBefore (String.ofList first) ((rest ++ [segment.toList]).map String.ofList) = _
    rw [List.map_append, List.map_cons, List.map_nil, partsBefore_concat, foldl_join_segments hs]
    rfl

/-- The ancestors of a path below another are those of the other, and the other. -/
theorem ancestors_child (above : PathText) (id : ConceptId) :
    ancestors (child above id) = ancestors above ++ [above] :=
  ancestors_join (separator_not_mem_encode id) above

/-- A text without separator has no ancestors. -/
theorem ancestors_of_not_mem {path : PathText} (h : separator ∉ path.toList) :
    ancestors path = [] := by
  unfold ancestors
  rw [segments_of_not_mem h]
  rfl

/-- The path of a root has no ancestors. -/
theorem ancestors_root (id : ConceptId) : ancestors (root id) = [] :=
  ancestors_of_not_mem (separator_not_mem_encode id)

/-- A text without separator is not cut. -/
theorem cutLast?_of_not_mem {text : List Char} (h : separator ∉ text) : cutLast? text = none := by
  induction text with
  | nil => rfl
  | cons c rest ih =>
    rw [List.mem_cons, not_or] at h
    unfold cutLast?
    rw [ih h.2]
    exact if_neg (Ne.symm h.1)

/-- A text is cut at a separator that no other one follows. -/
theorem cutLast?_append (before : List Char) {after : List Char} (h : separator ∉ after) :
    cutLast? (before ++ separator :: after) = some (before, after) := by
  induction before with
  | nil =>
    have hrest : cutLast? after = none := cutLast?_of_not_mem h
    show cutLast? (separator :: after) = some ([], after)
    unfold cutLast?
    rw [hrest]
    exact if_pos rfl
  | cons c rest ih =>
    rw [List.cons_append, cutLast?, ih]

/-- With one more segment, a path is cut before that. -/
theorem cutLast?_join {segment : String} (h : separator ∉ segment.toList) (above : PathText) :
    cutLast? (join above segment).toList = some (above.toList, segment.toList) := by
  rw [toList_join]
  exact cutLast?_append above.toList h

/-- With one more segment, what was there before is the parent. -/
theorem parent?_join {segment : String} (h : separator ∉ segment.toList) (above : PathText) :
    parent? (join above segment) = some above := by
  unfold parent?
  rw [cutLast?_join h, Option.map_some]
  exact congrArg some String.ofList_toList

/-- A text without separator has no parent. -/
theorem parent?_of_not_mem {path : PathText} (h : separator ∉ path.toList) :
    parent? path = none := by
  unfold parent?
  rw [cutLast?_of_not_mem h, Option.map_none]

/-- The parent of a path below another is the other. -/
theorem parent?_child (above : PathText) (id : ConceptId) :
    parent? (child above id) = some above :=
  parent?_join (separator_not_mem_encode id) above

/-- The path of a root has no parent. -/
theorem parent?_root (id : ConceptId) : parent? (root id) = none :=
  parent?_of_not_mem (separator_not_mem_encode id)

/-- A path with a separator has a last segment. -/
theorem exists_join_of_mem {path : PathText} (h : separator ∈ path.toList) :
    ∃ above segment, separator ∉ segment.toList ∧ path = join above segment := by
  obtain ⟨after, before, hsplit, hlast⟩ :=
    List.eq_append_cons_of_mem (List.mem_reverse.mpr h)
  have hpath : path.toList = before.reverse ++ separator :: after.reverse := by
    rw [← List.reverse_reverse path.toList, hsplit, List.reverse_append, List.reverse_cons,
      List.append_assoc, List.singleton_append]
  refine ⟨String.ofList before.reverse, String.ofList after.reverse, ?_, ?_⟩
  · rw [String.toList_ofList, List.mem_reverse]
    exact hlast
  · apply String.toList_inj.mp
    rw [toList_join, String.toList_ofList, String.toList_ofList]
    exact hpath

/-- The parent of a path is what stands before its last separator. -/
theorem parent?_eq_some_iff {path above : PathText} :
    parent? path = some above ↔
      ∃ segment, separator ∉ segment.toList ∧ path = join above segment := by
  constructor
  · intro hparent
    by_cases h : separator ∈ path.toList
    · obtain ⟨before, segment, hsegment, rfl⟩ := exists_join_of_mem h
      rw [parent?_join hsegment] at hparent
      exact ⟨segment, hsegment, Option.some.inj hparent ▸ rfl⟩
    · rw [parent?_of_not_mem h] at hparent
      cases hparent
  · rintro ⟨segment, hsegment, rfl⟩
    exact parent?_join hsegment above

/-- The parent of a path is the last of its ancestors. -/
theorem parent?_eq_getLast?_ancestors (path : PathText) :
    parent? path = (ancestors path).getLast? := by
  by_cases h : separator ∈ path.toList
  · obtain ⟨above, segment, hsegment, rfl⟩ := exists_join_of_mem h
    rw [parent?_join hsegment, ancestors_join hsegment, List.getLast?_concat]
  · rw [parent?_of_not_mem h, ancestors_of_not_mem h, List.getLast?_nil]

/-- The last id of a path is the one after its last separator, or the whole path if it has none. -/
theorem getLast?_ids (path : PathText) :
    (ids path).getLast? =
      some (String.ofList (decodeChars ((cutLast? path.toList).elim path.toList Prod.snd))) := by
  unfold ids
  by_cases h : separator ∈ path.toList
  · obtain ⟨above, segment, hsegment, rfl⟩ := exists_join_of_mem h
    rw [cutLast?_join hsegment, segments_join hsegment, List.map_append, List.map_singleton,
      List.getLast?_concat]
    rfl
  · rw [cutLast?_of_not_mem h, segments_of_not_mem h]
    rfl

/-- The parent id of a path is the last id of its parent. -/
theorem parentId?_eq_bind (path : PathText) :
    parentId? path = (parent? path).bind fun above => (ids above).getLast? := by
  unfold parentId? parent?
  cases cutLast? path.toList with
  | none => rfl
  | some cut =>
    dsimp only [Option.map_some, Option.bind_some]
    rw [getLast?_ids, String.toList_ofList]

/-- The parent id of a path below another is the last id of the other. -/
theorem parentId?_child (above : PathText) (id : ConceptId) :
    parentId? (child above id) = (ids above).getLast? := by
  rw [parentId?_eq_bind, parent?_child, Option.bind_some]

/-- The path of a root has no parent id. -/
theorem parentId?_root (id : ConceptId) : parentId? (root id) = none := by
  rw [parentId?_eq_bind, parent?_root, Option.bind_none]

/-- Joining segments one after another joins their own join. -/
theorem join_join (above : PathText) (first second : String) :
    join (join above first) second = join above (join first second) := by
  apply String.toList_inj.mp
  rw [toList_join, toList_join, toList_join, toList_join, List.append_assoc, List.cons_append]

/-- A path that is cut at its last separator and at any other one is cut there at one and the
same, or the other one comes earlier. -/
theorem eq_or_exists_of_join_eq {before above : PathText} {segment rest : String}
    (h : separator ∉ segment.toList) (hsame : join before segment = join above rest) :
    above = before ∨ ∃ between, before = join above between := by
  have hlists : before.toList ++ separator :: segment.toList =
      above.toList ++ separator :: rest.toList := by
    rw [← toList_join, ← toList_join, hsame]
  rcases List.append_eq_append_iff.mp hlists with
    ⟨between, habove, hlast⟩ | ⟨between, hbefore, hlast⟩
  · cases between with
    | nil =>
      rw [List.append_nil] at habove
      exact Or.inl (String.toList_inj.mp habove)
    | cons c others =>
      -- the separator that ends `above` would lie in the last segment
      rw [List.cons_append] at hlast
      obtain ⟨_, htail⟩ := List.cons.inj hlast
      have mem : separator ∈ segment.toList := by
        rw [htail]
        exact List.mem_append_right _ List.mem_cons_self
      exact absurd mem h
  · cases between with
    | nil =>
      rw [List.append_nil] at hbefore
      exact Or.inl (String.toList_inj.mp hbefore.symm)
    | cons c others =>
      rw [List.cons_append] at hlast
      obtain ⟨rfl, _⟩ := List.cons.inj hlast
      refine Or.inr ⟨String.ofList others, String.toList_inj.mp ?_⟩
      rw [toList_join, String.toList_ofList]
      exact hbefore

/-- The ancestors of a path are what stands before any of its separators. -/
theorem mem_ancestors_iff {path above : PathText} :
    above ∈ ancestors path ↔ ∃ rest, path = join above rest := by
  induction hlength : path.toList.length using Nat.strongRecOn generalizing path with
  | ind length ih =>
    by_cases h : separator ∈ path.toList
    · obtain ⟨before, segment, hsegment, rfl⟩ := exists_join_of_mem h
      have hshorter : before.toList.length < length := by
        rw [← hlength, toList_join, List.length_append, List.length_cons]
        omega
      have hbefore := ih _ hshorter rfl
      rw [ancestors_join hsegment, List.mem_append, hbefore, List.mem_singleton]
      constructor
      · rintro (⟨between, rfl⟩ | rfl)
        · exact ⟨join between segment, join_join above between segment⟩
        · exact ⟨segment, rfl⟩
      · rintro ⟨rest, hsame⟩
        exact (eq_or_exists_of_join_eq hsegment hsame).symm
    · rw [ancestors_of_not_mem h]
      refine iff_of_false List.not_mem_nil ?_
      rintro ⟨rest, rfl⟩
      rw [toList_join] at h
      exact h (List.mem_append_right _ List.mem_cons_self)

/-- Every path has an id, if only an empty one. -/
theorem ids_ne_nil (path : PathText) : ids path ≠ [] := by
  unfold ids
  rw [ne_eq, List.map_eq_nil_iff]
  exact segments_ne_nil path.toList

/-- The path of some ids, from a root down. -/
def ofIds (first : ConceptId) (rest : List ConceptId) : PathText := rest.foldl child (root first)

/-- Extending a path by some ids one after another adds them in that order. -/
theorem ids_foldl_child (above : PathText) (rest : List ConceptId) :
    ids (rest.foldl child above) = ids above ++ rest := by
  induction rest generalizing above with
  | nil => rw [List.foldl_nil, List.append_nil]
  | cons id others ih =>
    rw [List.foldl_cons, ih, ids_child, List.append_assoc, List.singleton_append]

/-- A path is read as the ids it was written from. -/
theorem ids_ofIds (first : ConceptId) (rest : List ConceptId) :
    ids (ofIds first rest) = first :: rest := by
  unfold ofIds
  rw [ids_foldl_child, ids_root, List.singleton_append]

example : ofIds "a/b" ["%2F", ""] = "a%2Fb/%252F/" := by decide

/-- The path of some ids is read as these ids, so no other ids have the same path; and whatever
text a path is and whatever text an id is, the path with the id below has the path for its parent,
the last id of the path for its parent id, the ids of the path and the one more, and the ancestors
of the path and the path itself. -/
theorem path_reads_back :
    (∀ first rest, ids (ofIds first rest) = first :: rest) ∧
    (∀ first rest other others,
      ofIds first rest = ofIds other others ↔ first :: rest = other :: others) ∧
    ∀ (above : PathText) (id : ConceptId),
      parent? (child above id) = some above ∧
      parentId? (child above id) = some ((ids above).getLast (ids_ne_nil above)) ∧
      ids (child above id) = ids above ++ [id] ∧
      ancestors (child above id) = ancestors above ++ [above] := by
  refine ⟨ids_ofIds, fun first rest other others => ⟨fun hsame => ?_, fun hsame => ?_⟩,
    fun above id => ⟨parent?_child above id, ?_, ids_child above id, ancestors_child above id⟩⟩
  · rw [← ids_ofIds first rest, ← ids_ofIds other others, hsame]
  · obtain ⟨rfl, rfl⟩ := List.cons.inj hsame
    rfl
  · rw [parentId?_child, List.getLast?_eq_some_getLast]

end Thesaurus.Path
