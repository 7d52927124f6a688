import Mathlib
import Thesaurus.Interchange
import Thesaurus.Proofs.ExactReading
import Thesaurus.Proofs.WrittenValues

/-!
# Records and changes in other words

An object restates the fields of a record if it has them in any order, other members besides
them, and lacks none but those that hold nothing: lists without entries and an absent definition.
Each object that restates the fields of a record is read as the record, in whatever spelling it
comes and by whatever lawful format; so an array of them is read as the list of the records. The
like holds of a change.
-/

namespace Thesaurus

open Json

/-- A value that says no more than that it is not there. -/
def Json.Value.Vacant (value : Value) : Prop := value = .null ∨ value = .array []

/-- Members that say the same as the fields of a structure: the fields in any order, vacant ones
left out or not, and others besides. -/
def Json.Restates (fields members : Fields) : Prop :=
  ∃ kept others : Fields, kept.Sublist fields ∧
    (∀ field ∈ fields, field ∈ kept ∨ field.2.Vacant) ∧
    (∀ other ∈ others, other.1 ∉ fields.map Prod.fst) ∧ members.Perm (kept ++ others)

namespace Json

section Fields

variable {fields members : Fields} {name : String} {value : Value} {α : Type}

/-- Fields restate themselves. -/
theorem restates_self (fields : Fields) : Restates fields fields :=
  ⟨fields, [], List.Sublist.refl fields, fun _ hfield => Or.inl hfield,
    fun _ hother => absurd hother List.not_mem_nil, by rw [List.append_nil]⟩

/-- The members of an object with known names. -/
theorem mapM_named (members : Fields) :
    (members.map fun member => (some member.1, member.2)).mapM
      (fun member => member.1.map (·, member.2)) = some members := by
  induction members with
  | nil => rfl
  | cons member rest ih =>
    rw [List.map_cons, List.mapM_cons, ih]
    rfl

/-- Strings are read back. -/
theorem texts?_ofTexts (contents : List String) :
    (Value.ofTexts contents).texts? = some contents := by
  have hmap : (contents.map Value.ofText).mapM Value.text? = some contents := by
    induction contents with
    | nil => rfl
    | cons first rest ih =>
      rw [List.map_cons, List.mapM_cons, ih]
      rfl
  exact hmap

/-- A string that may be absent is read back. -/
theorem optionalText?_ofOption (content : Option String) :
    (Value.ofOption (content.map .ofText)).optionalText? = some content := by
  cases content <;> rfl

/-- Members that can be written make an object that can. -/
theorem spellable_ofMembers (hmembers : ∀ member ∈ members, member.2.Spellable) :
    (Value.ofMembers members).Spellable := by
  refine spellable_object fun named hnamed => ?_
  obtain ⟨member, hmember, rfl⟩ := List.mem_map.1 hnamed
  exact hmembers member hmember

/-- Texts can be written. -/
theorem spellable_ofTexts (contents : List String) : (Value.ofTexts contents).Spellable := by
  refine spellable_array fun item hitem => ?_
  obtain ⟨content, -, rfl⟩ := List.mem_map.1 hitem
  exact spellable_text (some content)

/-- A text that may be absent can be written. -/
theorem spellable_ofOption (content : Option String) :
    (Value.ofOption (content.map .ofText)).Spellable := by
  cases content with
  | none => exact ⟨_, .wordNull⟩
  | some content => exact spellable_text (some content)

variable (distinct : (fields.map Prod.fst).Nodup) (h : Restates fields members)
include distinct h

/-- Each field is given once at most. -/
theorem Restates.countP_le_one (hname : name ∈ fields.map Prod.fst) :
    members.countP (·.1 == name) ≤ 1 := by
  obtain ⟨kept, others, hkept, -, hothers, hperm⟩ := h
  have hnone : others.countP (·.1 == name) = 0 := by
    rw [List.countP_eq_zero]
    intro other hother
    simpa using fun same : other.1 = name => hothers other hother (same ▸ hname)
  have honce : (fields.map Prod.fst).count name ≤ 1 := List.nodup_iff_count.1 distinct name
  rw [List.count, List.countP_map] at honce
  rw [hperm.countP_eq, List.countP_append, hnone]
  exact (hkept.countP_le).trans honce

/-- A restated object gives the fields that its members give. -/
theorem Restates.fields? :
    (Value.ofMembers members).fields? (fields.map Prod.fst) = some members := by
  have honce : ((fields.map Prod.fst).all fun name => members.countP (·.1 == name) ≤ 1) = true := by
    rw [List.all_eq_true]
    exact fun name hname => decide_eq_true (h.countP_le_one distinct hname)
  rw [Value.ofMembers, Value.fields?, mapM_named]
  simp only [Option.bind_eq_bind, Option.bind_some, honce, if_true]

/-- A field is given as it is, or it is vacant and not given. -/
theorem Restates.lookup (hfield : (name, value) ∈ fields) :
    members.lookup name = some value ∨ value.Vacant ∧ members.lookup name = none := by
  obtain ⟨kept, others, hkept, hleft, hothers, hperm⟩ := h
  cases hfound : members.lookup name with
  | some content =>
    obtain ⟨before, after, rfl, -⟩ := List.lookup_eq_some_iff.1 hfound
    have hgiven : (name, content) ∈ kept ++ others :=
      hperm.mem_iff.1 (List.mem_append_right before List.mem_cons_self)
    rcases List.mem_append.1 hgiven with hin | hin
    · have hsame := List.inj_on_of_nodup_map distinct (hkept.mem hin) hfield rfl
      exact Or.inl (congrArg some (Prod.mk.inj hsame).2)
    · exact absurd (List.mem_map.2 ⟨(name, value), hfield, rfl⟩) (hothers (name, content) hin)
  | none =>
    have habsent := List.lookup_eq_none_iff.1 hfound
    rcases hleft _ hfield with hin | hvacant
    · have hgiven : (name, value) ∈ members := hperm.mem_iff.2 (List.mem_append_left others hin)
      simpa using habsent _ hgiven
    · exact Or.inr ⟨hvacant, rfl⟩

/-- A text is read from any such members. -/
theorem Restates.text {content : String} (hfield : (name, .ofText content) ∈ fields) :
    Fields.required members name Value.text? = some content := by
  rcases h.lookup distinct hfield with hfound | ⟨hvacant, -⟩
  · rw [Fields.required, hfound]
    rfl
  · rcases hvacant with hvacant | hvacant <;> cases hvacant

/-- A field that may be left out is read from any such members, provided that only what stands in
for a missing one is written in a vacant way. -/
theorem Restates.optional (hfield : (name, value) ∈ fields) {read : Value → Option α}
    {content missing : α} (hread : read value = some content)
    (hvacant : value.Vacant → content = missing) :
    Fields.optional members name missing read = some content := by
  rcases h.lookup distinct hfield with hfound | ⟨hleft, hfound⟩
  · rw [Fields.optional, hfound]
    exact hread
  · rw [Fields.optional, hfound, hvacant hleft]

/-- A list of texts is read from any such members. -/
theorem Restates.texts {contents : List String} (hfield : (name, .ofTexts contents) ∈ fields) :
    Fields.optional members name [] Value.texts? = some contents := by
  refine h.optional distinct hfield (texts?_ofTexts contents) ?_
  rintro (hnull | hempty)
  · cases hnull
  · exact List.map_eq_nil_iff.1 (Value.array.inj hempty)

/-- A text that may be absent is read from any such members. -/
theorem Restates.optionalText {content : Option String}
    (hfield : (name, .ofOption (content.map .ofText)) ∈ fields) :
    Fields.optional members name none Value.optionalText? = some content := by
  refine h.optional distinct hfield (optionalText?_ofOption content) ?_
  cases content with
  | none => exact fun _ => rfl
  | some content => rintro (hvacant | hvacant) <;> cases hvacant

end Fields

end Json

namespace Record

/-- The members of the object that a record is written as. -/
def members (record : Record) : Fields :=
  [("id", .ofText record.id), ("prefLabel", .ofText record.label),
    ("altLabels", .ofTexts record.altLabels),
    ("definition", .ofOption (record.definition.map .ofText)),
    ("broaderIds", .ofTexts record.broader), ("relatedIds", .ofTexts record.related)]

/-- A record is written with its members. -/
theorem toJson_eq (record : Record) : record.toJson = .ofMembers record.members := rfl

/-- Members that restate a record are read as the record. -/
theorem ofJson?_of_restates {record : Record} {given : Fields}
    (h : Restates record.members given) : ofJson? (.ofMembers given) = some record := by
  have distinct : (record.members.map Prod.fst).Nodup := by
    show fieldNames.Nodup
    decide
  have hfields : (Value.ofMembers given).fields? fieldNames = some given := h.fields? distinct
  have hid : Fields.required given "id" Value.text? = some record.id :=
    h.text distinct (by simp [members])
  have hlabel : Fields.required given "prefLabel" Value.text? = some record.label :=
    h.text distinct (by simp [members])
  have haltLabels : Fields.optional given "altLabels" [] Value.texts? = some record.altLabels :=
    h.texts distinct (by simp [members])
  have hdefinition : Fields.optional given "definition" none Value.optionalText? =
      some record.definition := h.optionalText distinct (by simp [members])
  have hbroader : Fields.optional given "broaderIds" [] Value.texts? = some record.broader :=
    h.texts distinct (by simp [members])
  have hrelated : Fields.optional given "relatedIds" [] Value.texts? = some record.related :=
    h.texts distinct (by simp [members])
  simp only [ofJson?, hfields, hid, hlabel, haltLabels, hdefinition, hbroader, hrelated,
    Option.bind_eq_bind, Option.bind_some, Option.pure_def]

/-- Records can be written. -/
theorem spellable_toJson (record : Record) : record.toJson.Spellable := by
  have hmembers : ∀ member ∈ record.members, member.2.Spellable := by
    intro member hmember
    simp only [members, List.mem_cons, List.not_mem_nil, or_false] at hmember
    rcases hmember with rfl | rfl | rfl | rfl | rfl | rfl
    · exact spellable_text _
    · exact spellable_text _
    · exact spellable_ofTexts _
    · exact spellable_ofOption _
    · exact spellable_ofTexts _
    · exact spellable_ofTexts _
  rw [toJson_eq]
  exact spellable_ofMembers hmembers

/-- Objects that restate records one by one are read as the records. -/
theorem mapM_ofJson?_of_restates {records : List Record} {objects : List Fields}
    (h : List.Forall₂ (fun record given => Restates record.members given) records objects) :
    (objects.map Value.ofMembers).mapM ofJson? = some records := by
  induction h with
  | nil => rfl
  | cons first more ih =>
    rw [List.map_cons, List.mapM_cons, ofJson?_of_restates first, ih]
    rfl

/-- A text of such objects is read as the records. -/
theorem parseAll?_of_restates {format : Format} (hlawful : format.Lawful) {records : List Record}
    {objects : List Fields} {text : String}
    (h : List.Forall₂ (fun record given => Restates record.members given) records objects)
    (hspelled : (Value.array (objects.map .ofMembers)).SpelledAmid text.toList) :
    parseAll? format text = some records := by
  rw [parseAll?, hlawful.read?_of_spelled _ text hspelled]
  exact mapM_ofJson?_of_restates h

/-- Records that are written in an array are read back. -/
theorem parseAll?_write {format : Format} (hlawful : format.Lawful) (records : List Record) :
    parseAll? format (format.write (.array (records.map toJson))) = some records := by
  have hspellable : (Value.array (records.map toJson)).Spellable := by
    refine spellable_array fun item hitem => ?_
    obtain ⟨record, -, rfl⟩ := List.mem_map.1 hitem
    exact record.spellable_toJson
  have hself : List.Forall₂ (fun record given => Restates (members record) given) records
      (records.map members) := by
    rw [List.forall₂_map_right_iff]
    exact List.forall₂_same.2 fun record _ => restates_self record.members
  have hobjects : records.map toJson = (records.map members).map .ofMembers := by
    rw [List.map_map]
    exact List.map_congr_left fun record _ => record.toJson_eq
  rw [parseAll?, hlawful.read?_write hspellable, hobjects]
  exact mapM_ofJson?_of_restates hself

end Record

namespace ParentChange

/-- The members of the object that a change is written as. -/
def members (change : ParentChange) : Fields :=
  [("conceptId", .ofText change.concept),
    ("newParentId", .ofOption (change.added.map .ofText)),
    ("previousParentIdToRemove", .ofOption (change.removed.map .ofText))]

/-- A change is written with its members. -/
theorem toJson_eq (change : ParentChange) : change.toJson = .ofMembers change.members := rfl

/-- A change can be written. -/
theorem spellable_toJson (change : ParentChange) : change.toJson.Spellable := by
  have hmembers : ∀ member ∈ change.members, member.2.Spellable := by
    intro member hmember
    simp only [members, List.mem_cons, List.not_mem_nil, or_false] at hmember
    rcases hmember with rfl | rfl | rfl
    · exact spellable_text _
    · exact spellable_ofOption _
    · exact spellable_ofOption _
  rw [toJson_eq]
  exact spellable_ofMembers hmembers

/-- Members that restate a change are read as the change. -/
theorem ofJson?_of_restates {change : ParentChange} {given : Fields}
    (h : Restates change.members given) : ofJson? (.ofMembers given) = some change := by
  have distinct : (change.members.map Prod.fst).Nodup := by
    show fieldNames.Nodup
    decide
  have hfields : (Value.ofMembers given).fields? fieldNames = some given := h.fields? distinct
  have hconcept : Fields.required given "conceptId" Value.text? = some change.concept :=
    h.text distinct (by simp [members])
  have hadded : Fields.optional given "newParentId" none Value.optionalText? = some change.added :=
    h.optionalText distinct (by simp [members])
  have hremoved : Fields.optional given "previousParentIdToRemove" none Value.optionalText? =
      some change.removed := h.optionalText distinct (by simp [members])
  have hobject : endsEarly (.ofMembers given) = false := rfl
  simp only [ofJson?, hobject, hfields, hconcept, hadded, hremoved, Option.bind_eq_bind,
    Option.bind_some, Option.pure_def, Bool.false_eq_true, if_false]

/-- A text of an object that restates a change is read as the change. -/
theorem parse?_of_restates {format : Format} (hlawful : format.Lawful) {change : ParentChange}
    {given : Fields} {text : String} (h : Restates change.members given)
    (hspelled : (Value.ofMembers given).SpelledAmid text.toList) :
    parse? format text = some change := by
  rw [parse?, hlawful.read?_of_spelled _ text hspelled, Option.bind_some, ofJson?_of_restates h]

/-- A change that is written is read back. -/
theorem parse?_write {format : Format} (hlawful : format.Lawful) (change : ParentChange) :
    parse? format (format.write change.toJson) = some change := by
  rw [parse?, hlawful.read?_write change.spellable_toJson, Option.bind_some, toJson_eq,
    ofJson?_of_restates (restates_self change.members)]

end ParentChange

/-- Records in an array are read back by a lawful format as they were, whatever texts they hold and
in whatever way the array restates and spells them; so is a change in an object. -/
theorem wire_read_back (format : Format) (hlawful : format.Lawful) :
    (∀ records : List Record,
      Record.parseAll? format (format.write (.array (records.map Record.toJson))) = some records) ∧
    (∀ (records : List Record) (objects : List Fields) (text : String),
      List.Forall₂ (fun record given => Restates record.members given) records objects →
      (Value.array (objects.map .ofMembers)).SpelledAmid text.toList →
        Record.parseAll? format text = some records) ∧
    (∀ change : ParentChange,
      ParentChange.parse? format (format.write change.toJson) = some change) ∧
    (∀ (change : ParentChange) (given : Fields) (text : String),
      Restates change.members given → (Value.ofMembers given).SpelledAmid text.toList →
        ParentChange.parse? format text = some change) := by
  refine ⟨?_, ?_, ?_, ?_⟩
  · exact Record.parseAll?_write hlawful
  · exact fun records objects text => Record.parseAll?_of_restates hlawful
  · exact ParentChange.parse?_write hlawful
  · exact fun change given text => ParentChange.parse?_of_restates hlawful

/-- A wolf with a label of quotes, a backslash, a tab and a character beyond the basic plane. -/
def wolf : Record :=
  { id := "wolf", label := "\"🐺\"\t\\", altLabels := [], definition := none, broader := ["dogs"],
    related := [] }

/-- The wolf in other words: an unknown key among the fields, three fields left out. -/
def wolfGiven : Fields :=
  [("broaderIds", .ofTexts ["dogs"]),
    ("seen", .array [.number ⟨false, digitsOf 1, digitsOf 5, some (false, digitsOf 3)⟩,
      .text none]),
    ("id", .ofText wolf.id), ("prefLabel", .ofText wolf.label)]

/-- An array of the wolf in these words, with blanks, escapes and half of a pair alone. -/
def wolfText : String :=
  "[ \x7b\"broaderIds\":[\"dogs\"] , \"seen\" : [1.5E+3,\"\\ud800\"],\n\"\\u0069d\":\"wolf\"," ++
    "\"prefLabel\":\"\\u0022\\ud83d\\uDC3a\\\"\\t\\\\\" \x7d]\n"

/-- The words restate the wolf. -/
theorem wolfGiven_restates : Restates wolf.members wolfGiven := by
  refine ⟨[("id", .ofText wolf.id), ("prefLabel", .ofText wolf.label),
    ("broaderIds", .ofTexts ["dogs"])], [wolfGiven[1]], ?_, ?_, ?_, ?_⟩
  · exact .cons_cons _ (.cons_cons _ (.cons _ (.cons _ (.cons_cons _ (.cons _ .slnil)))))
  · simp [Record.members, wolf, Value.Vacant, Value.ofTexts, Value.ofOption]
  · simp [Record.members, wolfGiven]
  · have hturned : (wolfGiven.take 2 ++ wolfGiven.drop 2).Perm
        (wolfGiven.drop 2 ++ wolfGiven.take 2) := List.perm_append_comm
    exact hturned

/-- The wolf as it is written. -/
def wolfWritten : String :=
  "\x7b\"id\":\"wolf\",\"prefLabel\":\"\\\"🐺\\\"\\t\\\\\",\"altLabels\":[],\"definition\":null," ++
    "\"broaderIds\":[\"dogs\"],\"relatedIds\":[]\x7d"

/-- A change that makes a wolf a root, its absent ids left out. -/
def rootText : String := "\x7b \"conceptId\" : \"\\ud83d\\uDC3a\"\x7d\n"

/-- The two are read as what they restate. -/
theorem wire_read_back_wolf :
    Format.plain.Lawful ∧
    Format.plain.write wolf.toJson = wolfWritten ∧
    Record.parseAll? Format.plain (Format.plain.write (.array [wolf.toJson])) = some [wolf] ∧
    Restates wolf.members wolfGiven ∧
    (Value.array ([wolfGiven].map .ofMembers)).SpelledAmid wolfText.toList ∧
    Record.parseAll? Format.plain wolfText = some [wolf] ∧
    Restates (ParentChange.members ⟨"🐺", none, none⟩) [("conceptId", .ofText "🐺")] ∧
    (Value.ofMembers [("conceptId", .ofText "🐺")]).SpelledAmid rootText.toList ∧
    ParentChange.parse? Format.plain rootText = some ⟨"🐺", none, none⟩ := by
  have hwolf : (Value.array ([wolfGiven].map .ofMembers)).SpelledAmid wolfText.toList :=
    read?_eq_some_iff.1 (by cbv)
  have hroot : (Value.ofMembers [("conceptId", .ofText "🐺")]).SpelledAmid rootText.toList :=
    read?_eq_some_iff.1 (by cbv)
  have hgiven : Restates (ParentChange.members ⟨"🐺", none, none⟩)
      [("conceptId", .ofText "🐺")] := by
    refine ⟨[("conceptId", .ofText "🐺")], [], .cons_cons _ (.cons _ (.cons _ .slnil)), ?_, ?_, ?_⟩
    · simp [ParentChange.members, Value.Vacant, Value.ofOption]
    · simp
    · rw [List.append_nil]
  have hwritten : Format.plain.write wolf.toJson = wolfWritten := by cbv
  obtain ⟨hback, hrecords, -, hchange⟩ := wire_read_back Format.plain Format.plain_lawful
  exact ⟨Format.plain_lawful, hwritten, hback [wolf], wolfGiven_restates, hwolf,
    hrecords [wolf] [wolfGiven] wolfText (.cons wolfGiven_restates .nil) hwolf,
    hgiven, hroot, hchange _ _ rootText hgiven hroot⟩

end Thesaurus
