import Thesaurus.Proofs.Dialogue

/-!
# What the answers of a repository tell

A change is either made in full or not at all, and the answer tells which. It is made exactly if no
failure was injected and the records of one scheme allow it; then the first record of its concept
names other broader concepts, and nothing else changes anywhere. A change with a fetch after it
has three outcomes: the graph of the scheme as it is after the change, an error that tells that
the change was made and only the fetch failed, or an error after which all is as before.
-/

namespace Thesaurus.Repository

open ConceptGraph

/-- No id is given in two schemes. -/
def Apart (repository : Repository) : Prop :=
  ∀ name records other others, repository.records? name = some records →
    repository.records? other = some others →
      ∀ record ∈ records, ∀ stranger ∈ others, record.id = stranger.id → name = other

/-- Records that allow a change: they have its concept, and the parent to be added, if there is
one, is another one of their concepts and not below it. -/
structure Allow (records : List Record) (request : ParentChange) : Prop where
  /-- Some record is that of the concept. -/
  concept_known : ∃ record ∈ records, record.id = request.concept
  /-- Some record is that of the parent. -/
  parent_known : ∀ parent, request.added = some parent → ∃ record ∈ records, record.id = parent
  /-- The parent is not the concept itself. -/
  parent_other : ∀ parent, request.added = some parent → parent ≠ request.concept
  /-- No links lead down from the concept to the parent. -/
  parent_above : ∀ parent, request.added = some parent →
    ¬(ofRecords records).Below request.concept parent

/-- One repository has the same records as another in every scheme. -/
def Keeps (repository after : Repository) : Prop :=
  ∀ name, after.records? name = repository.records? name

/-- One repository comes of another by a change: the first record of the concept names the broader
concepts that it named, but for the removed one, in their order, and behind them the added one,
unless it is among them. All else that the record says, all other records and all other schemes are
the same. -/
def Makes (repository : Repository) (request : ParentChange) (after : Repository) : Prop :=
  ∃ scheme before record behind kept,
    repository.records? scheme = some (before ++ record :: behind) ∧
    record.id = request.concept ∧ (∀ earlier ∈ before, earlier.id ≠ request.concept) ∧
    kept = record.broader.filter (fun parent => request.removed ≠ some parent) ∧
    after.records? scheme = some (before ++
      { record with broader := kept ++ request.added.toList.filter (· ∉ kept) } :: behind) ∧
    ∀ name, name ≠ scheme → after.records? name = repository.records? name

section Replace

variable {α : Type} {test : α → Bool}

/-- Items for which the test does not hold are passed over. -/
theorem replaceFirst_append (change : α → α) (behind : List α) {before : List α} {item : α}
    (hbefore : ∀ earlier ∈ before, test earlier = false) (hit : test item = true) :
    replaceFirst test change (before ++ item :: behind) = before ++ change item :: behind := by
  induction before with
  | nil => exact if_pos hit
  | cons first rest ih =>
    have hfirst := hbefore first List.mem_cons_self
    have hrest := ih fun earlier mem => hbefore earlier (List.mem_cons_of_mem _ mem)
    rw [List.cons_append, replaceFirst, hfirst, hrest]
    rfl

end Replace

/-- An added parent comes behind those kept, unless it is among them. -/
theorem addParent_eq (kept : List ConceptId) (added : Option ConceptId) :
    addParent kept added = kept ++ added.toList.filter (· ∉ kept) := by
  cases added with
  | none => exact (List.append_nil kept).symm
  | some parent =>
    unfold addParent
    by_cases mem : parent ∈ kept
    · simp [mem]
    · simp [mem]

/-- A record that is changed names the broader concepts that it named, but for the removed one, and
the added one. -/
theorem record_change_eq (record : Record) (request : ParentChange) :
    let kept := record.broader.filter fun parent => request.removed ≠ some parent
    record.change request =
      { record with broader := kept ++ request.added.toList.filter (· ∉ kept) } := by
  have hkept : record.keptParents request.removed =
      record.broader.filter fun parent => request.removed ≠ some parent := by
    unfold Record.keptParents
    refine List.filter_congr fun parent _ => ?_
    rw [Bool.eq_iff_iff, bne_iff_ne, decide_eq_true_iff]
    exact ne_comm
  intro kept
  rw [Record.change, hkept, addParent_eq]

section Change

variable {repository : Repository} {request : ParentChange} {records : List Record}

/-- Some record of a concept is found by its id. -/
theorem any_id_iff {id : ConceptId} :
    records.any (·.id == id) = true ↔ ∃ record ∈ records, record.id = id := by
  simp only [List.any_eq_true, beq_iff_eq]

/-- There is nothing to object to a change of a known concept exactly if the records allow it. -/
theorem allow_iff (known : records.any (·.id == request.concept) = true) :
    Allow records request ↔ objection? records request = none := by
  have hcontains : (ofRecords records).contains request.concept = true := by
    rw [contains_ofRecords]
    exact known
  rw [objection?_eq_none_iff]
  constructor
  · intro h parent hadded
    refine ⟨any_id_iff.mpr (h.parent_known parent hadded), h.parent_other parent hadded, ?_⟩
    rw [Bool.eq_false_iff]
    intro hbelow
    exact h.parent_above parent hadded (Descendants.isBelow_ofGraph.mp hbelow).2.2
  · intro h
    refine
      { concept_known := any_id_iff.mp known
        parent_known := fun parent hadded => any_id_iff.mp (h parent hadded).1
        parent_other := fun parent hadded => (h parent hadded).2.1
        parent_above := fun parent hadded hbelow => ?_ }
    obtain ⟨_, hother, hfalse⟩ := h parent hadded
    rw [Descendants.isBelow_ofGraph.mpr ⟨hcontains, hother, hbelow⟩] at hfalse
    cases hfalse

/-- Where no id is given in two schemes, the scheme of a record is found for its concept. -/
theorem Apart.schemeOf?_eq (apart : repository.Apart) {name : String}
    (hr : repository.records? name = some records)
    (known : records.any (·.id == request.concept) = true) :
    repository.schemeOf? request.concept = some (name, records) := by
  refine schemeOf?_of_apart hr known fun other others ho hk => ?_
  obtain ⟨record, mem, hid⟩ := any_id_iff.mp known
  obtain ⟨stranger, inside, hid'⟩ := any_id_iff.mp hk
  exact apart other others name records ho hr stranger inside record mem (hid'.trans hid.symm)

/-- A change is made in the scheme found for its concept, or there is an error, all records stay as
they are, and the error does not tell of a change unless an injected one does. -/
theorem change_made_or_refused (repository : Repository) (request : ParentChange) :
    (∃ scheme records, repository.changeFailure = none ∧
      repository.records? scheme = some records ∧
      records.any (·.id == request.concept) = true ∧ objection? records request = none ∧
      repository.change request = (.ok (), repository.withScheme scheme (amend records request))) ∨
    ∃ error after, repository.change request = (.error error, after) ∧ repository.Keeps after ∧
      (repository.Honest → error.saved = false) := by
  rcases change_cases repository request with ⟨error, hf, h⟩ | ⟨_, _, h⟩ |
    ⟨scheme, records, hf, hs, ⟨error, ho, h⟩ | ⟨ho, h⟩⟩
  · exact Or.inr ⟨error, _, h, fun _ => rfl, fun honest => honest error hf⟩
  · exact Or.inr ⟨_, _, h, fun _ => rfl, fun _ => rfl⟩
  · exact Or.inr ⟨error, _, h, fun _ => rfl, fun _ => saved_of_objection ho⟩
  · obtain ⟨hr, known⟩ := schemeOf?_eq_some hs
    exact Or.inl ⟨scheme, records, hf, hr, known, ho, h⟩

/-- A change is made exactly if no failure was injected and the records of some scheme allow it. -/
theorem change_ok_iff (apart : repository.Apart) :
    (repository.change request).1 = .ok () ↔ repository.changeFailure = none ∧
      ∃ name records, repository.records? name = some records ∧ Allow records request := by
  constructor
  · intro hok
    rcases change_made_or_refused repository request with ⟨name, records, hf, hr, known, ho, _⟩ |
      ⟨_, _, h, _⟩
    · exact ⟨hf, name, records, hr, (allow_iff known).mpr ho⟩
    · rw [h] at hok
      cases hok
  · rintro ⟨hf, name, records, hr, hallow⟩
    have known := any_id_iff.mpr hallow.concept_known
    rw [change_of_no_objection hf (apart.schemeOf?_eq hr known) ((allow_iff known).mp hallow)]

/-- After an error all records of all schemes are as before, and it does not tell of a change
unless an injected one does. -/
theorem keeps_of_error {error : RequestError} (h : (repository.change request).1 = .error error) :
    repository.Keeps (repository.change request).2 ∧
      (repository.Honest → error.saved = false) := by
  rcases change_made_or_refused repository request with ⟨_, _, _, _, _, _, hc⟩ |
    ⟨_, _, hc, hkeeps, hsaved⟩
  · rw [hc] at h
    cases h
  · rw [hc] at h ⊢
    cases h
    exact ⟨hkeeps, hsaved⟩

/-- Where there is no error, the change is made. -/
theorem makes_of_ok (h : (repository.change request).1 = .ok ()) :
    repository.Makes request (repository.change request).2 := by
  rcases change_made_or_refused repository request with ⟨scheme, records, _, hr, known, _, hc⟩ |
    ⟨_, _, hc, _⟩
  · have hfound : (records.find? (·.id == request.concept)).isSome = true := by
      rw [List.find?_isSome]
      exact List.any_eq_true.mp known
    obtain ⟨record, hrecord⟩ := Option.isSome_iff_exists.mp hfound
    obtain ⟨hit, before, behind, rfl, hbefore⟩ := List.find?_eq_some_iff_append.mp hrecord
    have hother : ∀ earlier ∈ before, (earlier.id == request.concept) = false :=
      fun earlier mem => Bool.not_eq_true' _ ▸ hbefore earlier mem
    have hamend := replaceFirst_append (·.change request) behind hother hit
    have hafter := records?_withScheme repository scheme
    rw [hc]
    refine ⟨scheme, before, record, behind, _, hr, beq_iff_eq.mp hit, ?_, rfl, ?_, ?_⟩
    · exact fun earlier mem => ne_of_beq_false (hother earlier mem)
    · rw [hafter, if_pos rfl, amend, hamend, record_change_eq]
    · intro name hne
      rw [hafter, if_neg hne]
  · rw [hc] at h
    cases h

end Change

section Fetch

/-- A fetch changes no records. -/
theorem keeps_fetchGraph (repository : Repository) (name : String) :
    repository.Keeps (repository.fetchGraph name).2 :=
  fun other => records?_fetch repository name other

/-- A fetch fails exactly if a failure was injected or the scheme does not exist. -/
theorem fetchGraph_error_iff {repository : Repository} {name : String} :
    (∃ cause, (repository.fetchGraph name).1 = .error cause) ↔
      repository.fetchFailure ≠ none ∨ repository.records? name = none := by
  unfold fetchGraph fetch
  cases repository.fetchFailure with
  | some error => simp [Except.map]
  | none =>
    cases repository.records? name with
    | none => simp [Except.map]
    | some records => simp [Except.map]

/-- A fetch that does not fail brings the graph of the records. -/
theorem fetchGraph_ok {repository : Repository} {name : String} {graph : ConceptGraph}
    (h : (repository.fetchGraph name).1 = .ok graph) :
    ∃ records, repository.records? name = some records ∧ graph = ofRecords records := by
  obtain ⟨result, after, hfetch, _, _, hgraph⟩ := repository.fetchGraph_undisturbed name
  rw [hfetch] at h
  exact hgraph graph h

end Fetch

section ChangeAndFetch

variable {repository : Repository} {request : ParentChange} {name : String}

/-- What a change with a fetch after it comes to: the error of the change; or the change, and the
graph or the error of the fetch. -/
theorem changeAndFetch_cases (repository : Repository) (name : String) (request : ParentChange) :
    (∃ error, (repository.change request).1 = .error error ∧
      repository.changeAndFetch name request = (.error error, (repository.change request).2)) ∨
    ((repository.change request).1 = .ok () ∧
      repository.changeAndFetch name request =
        (((repository.change request).2.fetchGraph name).1.mapError .savedUnseen,
          ((repository.change request).2.fetchGraph name).2)) := by
  unfold changeAndFetch
  rcases repository.change request with ⟨_ | _, after⟩
  · exact Or.inl ⟨_, rfl, rfl⟩
  · exact Or.inr ⟨rfl, rfl⟩

/-- A change leaves the failure that waits for the next fetch. -/
theorem fetchFailure_change (repository : Repository) (request : ParentChange) :
    (repository.change request).2.fetchFailure = repository.fetchFailure := by
  rcases change_cases repository request with ⟨_, _, h⟩ | ⟨_, _, h⟩ |
    ⟨_, _, _, _, ⟨_, _, h⟩ | ⟨_, h⟩⟩
  · rw [h]
  · rw [h]
  · rw [h]
  · rw [h]
    rfl

/-- A repository made by a change lacks the schemes that it lacked before, and no others. -/
theorem Makes.records?_eq_none_iff {after : Repository} (hm : repository.Makes request after) :
    after.records? name = none ↔ repository.records? name = none := by
  obtain ⟨scheme, before, record, behind, kept, hr, _, _, _, hafter, hothers⟩ := hm
  by_cases same : name = scheme
  · rw [same, hr, hafter]
    simp
  · rw [hothers name same]

/-- Repositories with the same records come of the same changes. -/
theorem Makes.congr {after later : Repository} (hm : repository.Makes request after)
    (hk : after.Keeps later) : repository.Makes request later := by
  obtain ⟨scheme, before, record, behind, kept, hr, hid, hbefore, hkept, hafter, hothers⟩ := hm
  refine ⟨scheme, before, record, behind, kept, hr, hid, hbefore, hkept, ?_, ?_⟩
  · rw [hk, hafter]
  · intro other hne
    rw [hk, hothers other hne]

/-- The graph of a scheme comes only after the change, and shows the scheme as it is then. -/
theorem changeAndFetch_ok {graph : ConceptGraph}
    (h : (repository.changeAndFetch name request).1 = .ok graph) :
    (repository.change request).1 = .ok () ∧
      repository.Makes request (repository.changeAndFetch name request).2 ∧
      ∃ records, (repository.changeAndFetch name request).2.records? name = some records ∧
        graph = ofRecords records := by
  rcases repository.changeAndFetch_cases name request with ⟨error, _, hcf⟩ | ⟨hok, hcf⟩
  · rw [hcf] at h
    cases h
  · have hkept := keeps_fetchGraph (repository.change request).2 name
    rw [hcf] at h ⊢
    cases hfetch : ((repository.change request).2.fetchGraph name).1 with
    | error cause =>
      rw [hfetch] at h
      cases h
    | ok fetched =>
      rw [hfetch] at h
      cases h
      obtain ⟨records, hr, hgraph⟩ := fetchGraph_ok hfetch
      exact ⟨hok, (makes_of_ok hok).congr hkept, records, (hkept name).trans hr, hgraph⟩

/-- An error tells that the change was made exactly if it was and the fetch failed. -/
theorem changeAndFetch_saved_iff (honest : repository.Honest) :
    (∃ error, (repository.changeAndFetch name request).1 = .error error ∧ error.saved = true) ↔
      (repository.change request).1 = .ok () ∧
        ∃ cause, ((repository.change request).2.fetchGraph name).1 = .error cause := by
  rcases repository.changeAndFetch_cases name request with ⟨error, hc, hcf⟩ | ⟨hok, hcf⟩
  · rw [hcf]
    constructor
    · rintro ⟨told, hsame, hsaved⟩
      cases hsame
      rw [(keeps_of_error hc).2 honest] at hsaved
      cases hsaved
    · rintro ⟨hok, _⟩
      rw [hc] at hok
      cases hok
  · rw [hcf]
    cases hfetch : ((repository.change request).2.fetchGraph name).1 with
    | error cause => simp [Except.mapError, hok, RequestError.saved]
    | ok fetched => simp [Except.mapError]

/-- After an error that tells of a change it is made, and after any other all is as before. -/
theorem changeAndFetch_error (honest : repository.Honest) {error : RequestError}
    (h : (repository.changeAndFetch name request).1 = .error error) :
    if error.saved then repository.Makes request (repository.changeAndFetch name request).2
    else repository.Keeps (repository.changeAndFetch name request).2 := by
  rcases repository.changeAndFetch_cases name request with ⟨told, hc, hcf⟩ | ⟨hok, hcf⟩
  · rw [hcf] at h ⊢
    cases h
    rw [(keeps_of_error hc).2 honest]
    exact (keeps_of_error hc).1
  · rw [hcf] at h ⊢
    cases hfetch : ((repository.change request).2.fetchGraph name).1 with
    | ok fetched =>
      rw [hfetch] at h
      cases h
    | error cause =>
      rw [hfetch] at h
      cases h
      exact (makes_of_ok hok).congr (keeps_fetchGraph _ name)

end ChangeAndFetch

/-- Where no id is given in two schemes and no failure tells of a change that was not made: a
change is made exactly if no failure was injected and the records of some scheme allow it, it
changes nothing but the broader concepts of the first record of its concept, and an error leaves
all as before. With a fetch after it, the graph of a scheme comes only after the change and shows
the scheme as it is then; an error tells of the change exactly if it was made and the fetch failed,
be it by a failure injected or as the scheme does not exist; and any other error leaves all as
before. -/
theorem answers_tell (repository : Repository) (request : ParentChange)
    (apart : repository.Apart) (honest : repository.Honest) :
    ((repository.change request).1 = .ok () ↔ repository.changeFailure = none ∧
      ∃ name records, repository.records? name = some records ∧ Allow records request) ∧
    ((repository.change request).1 = .ok () →
      repository.Makes request (repository.change request).2) ∧
    (∀ error, (repository.change request).1 = .error error →
      repository.Keeps (repository.change request).2) ∧
    ∀ name,
      (∀ graph, (repository.changeAndFetch name request).1 = .ok graph →
        (repository.change request).1 = .ok () ∧
          repository.Makes request (repository.changeAndFetch name request).2 ∧
          ∃ records, (repository.changeAndFetch name request).2.records? name = some records ∧
            graph = ofRecords records) ∧
      ((∃ error, (repository.changeAndFetch name request).1 = .error error ∧
          error.saved = true) ↔
        (repository.change request).1 = .ok () ∧
          ∃ cause, ((repository.change request).2.fetchGraph name).1 = .error cause) ∧
      ((repository.change request).1 = .ok () →
        ((∃ cause, ((repository.change request).2.fetchGraph name).1 = .error cause) ↔
          repository.fetchFailure ≠ none ∨ repository.records? name = none)) ∧
      ∀ error, (repository.changeAndFetch name request).1 = .error error →
        if error.saved then repository.Makes request (repository.changeAndFetch name request).2
        else repository.Keeps (repository.changeAndFetch name request).2 := by
  refine ⟨change_ok_iff apart, makes_of_ok, fun _ h => (keeps_of_error h).1, fun name => ?_⟩
  refine ⟨fun _ => changeAndFetch_ok, changeAndFetch_saved_iff honest, fun hok => ?_,
    fun _ => changeAndFetch_error honest⟩
  rw [fetchGraph_error_iff, fetchFailure_change, (makes_of_ok hok).records?_eq_none_iff]

/-- The shipped schemes share no ids. -/
theorem samples_apart : Samples.repository.Apart := by
  have hall : ∀ scheme ∈ Samples.repository.schemes, ∀ other ∈ Samples.repository.schemes,
      ∀ record ∈ scheme.2, ∀ stranger ∈ other.2, record.id = stranger.id →
        scheme.1 = other.1 := by
    decide +kernel
  intro name records other others hr ho
  exact hall (name, records) (mem_of_records? hr) (other, others) (mem_of_records? ho)

/-- Dogs are moved from canines to birds while the next fetch is made to fail: the error tells of
the change, and the record of dogs names pets and birds then. Mammals cannot be put below dogs:
there is an error, and all records are as before. -/
theorem answers_tell_dogs :
    let failing := Samples.repository.failFetch (.unavailable "timeout")
    let moved := failing.changeAndFetch "animals" ⟨"dogs", some "birds", some "canines"⟩
    let refused := failing.change ⟨"mammals", some "dogs", none⟩
    failing.Apart ∧ failing.Honest ∧
      (∃ error, moved.1 = .error error ∧ error.saved = true) ∧
      failing.Makes ⟨"dogs", some "birds", some "canines"⟩ moved.2 ∧
      (moved.2.records? "animals").map (fun records =>
        (records.filter (·.id = "dogs")).map Record.broader) = some [["pets", "birds"]] ∧
      refused.1 = .error (.closesCycle "mammals" "dogs") ∧ failing.Keeps refused.2 ∧
      ¬∃ name records, failing.records? name = some records ∧
        Allow records ⟨"mammals", some "dogs", none⟩ := by
  intro failing moved refused
  have honest : failing.Honest := honest_of_none rfl
  obtain ⟨_, _, _, hfetch⟩ := answers_tell failing ⟨"dogs", some "birds", some "canines"⟩
    samples_apart honest
  obtain ⟨hallowed, _, hkeeps, _⟩ := answers_tell failing ⟨"mammals", some "dogs", none⟩
    samples_apart honest
  obtain ⟨_, hsaved, _, hmade⟩ := hfetch "animals"
  obtain ⟨error, herror, htold⟩ := hsaved.mpr ⟨by decide +kernel, .unavailable "timeout",
    by decide +kernel⟩
  have hmakes := hmade error herror
  rw [htold, if_pos rfl] at hmakes
  have hrefused : refused.1 = .error (.closesCycle "mammals" "dogs") := by decide +kernel
  refine ⟨samples_apart, honest, ⟨error, herror, htold⟩, hmakes, by decide +kernel, hrefused,
    hkeeps _ hrefused, fun hallow => ?_⟩
  have hok := hallowed.mpr ⟨rfl, hallow⟩
  rw [hrefused] at hok
  cases hok

end Thesaurus.Repository
