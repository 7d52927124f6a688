import Thesaurus.Proofs.Ingest
import Thesaurus.Samples

/-!
# Changes that a repository guards

A repository makes a change only if the parent to be added is known beside its concept, is
another concept and is not below it. So the graph of every scheme stays acyclic, whoever asks for
changes and however old the state is that they have seen. A change touches only the broader
concepts of one record.
-/

namespace Thesaurus

/-- A record without what it says of broader concepts. -/
def Record.withoutBroader (record : Record) : Record := { record with broader := [] }

/-- A change touches nothing but the broader concepts. -/
theorem Record.withoutBroader_change (record : Record) (request : ParentChange) :
    (record.change request).withoutBroader = record.withoutBroader := rfl

namespace Repository

open ConceptGraph

section Amend

variable {records : List Record} {request : ParentChange}

/-- A change to records leaves all but the broader concepts as they are. -/
theorem amend_withoutBroader (records : List Record) (request : ParentChange) :
    (amend records request).map Record.withoutBroader = records.map Record.withoutBroader :=
  map_replaceFirst fun record _ => record.withoutBroader_change request

/-- A change to records leaves the ids as they are. -/
theorem amend_ids (records : List Record) (request : ParentChange) :
    (amend records request).map Record.id = records.map Record.id :=
  map_replaceFirst fun _ _ => rfl

/-- A change to records leaves what they say of their concepts. -/
theorem amend_concepts (records : List Record) (request : ParentChange) :
    (amend records request).map Record.concept = records.map Record.concept :=
  map_replaceFirst fun _ _ => rfl

/-- Changed records have the ids that the records had. -/
theorem exists_id_of_amend {id : ConceptId}
    (h : ∃ record ∈ amend records request, record.id = id) :
    ∃ record ∈ records, record.id = id := by
  have hid : id ∈ (amend records request).map Record.id := List.mem_map.mpr h
  rw [amend_ids] at hid
  exact List.mem_map.mp hid

/-- Changed records name only parents that were named before, and the one added. -/
theorem mem_namedParents_amend {id parent : ConceptId}
    (h : parent ∈ namedParents (amend records request) id) :
    parent ∈ namedParents records id ∨ (request.concept = id ∧ request.added = some parent) := by
  obtain ⟨record, mem, hp⟩ := List.mem_flatMap.mp h
  have hnamed : ∀ old ∈ records, old.id = id → parent ∈ old.broader →
      parent ∈ namedParents records id := by
    intro old inside hid hb
    refine List.mem_flatMap.mpr ⟨old, inside, ?_⟩
    rw [if_pos hid]
    exact hb
  split at hp
  · rename_i hid
    rcases mem_replaceFirst mem with old | ⟨old, inside, hit, rfl⟩
    · exact Or.inl (hnamed record old hid hp)
    · rcases Record.mem_broader_change hp with hb | hadded
      · exact Or.inl (hnamed old inside hid hb)
      · exact Or.inr ⟨(beq_iff_eq.mp hit).symm.trans hid, hadded⟩
  · cases hp

/-- Changed records link only what was linked before, and the concept below the one added. -/
theorem narrower_amend {upper lower : ConceptId}
    (h : (ofRecords (amend records request)).Narrower upper lower) :
    (ofRecords records).Narrower upper lower ∨
      (request.concept = lower ∧ request.added = some upper) := by
  obtain ⟨named, known, hne⟩ := narrower_ofRecords.mp h
  rcases mem_namedParents_amend named with old | new
  · exact Or.inl (narrower_ofRecords.mpr ⟨old, exists_id_of_amend known, hne⟩)
  · exact Or.inr new

/-- There is no objection to a change exactly if the parent to be added is known, is another
concept and is not below the concept. -/
theorem objection?_eq_none_iff :
    objection? records request = none ↔
      ∀ parent, request.added = some parent →
        records.any (·.id == parent) = true ∧ parent ≠ request.concept ∧
          (Descendants.ofGraph (ofRecords records)).isBelow request.concept parent = false := by
  unfold objection?
  cases hadded : request.added with
  | none => simp
  | some parent =>
    dsimp only
    generalize hk : records.any (·.id == parent) = known
    generalize hb : (Descendants.ofGraph (ofRecords records)).isBelow request.concept parent = below
    constructor
    · intro h added same
      cases same
      rw [hk, hb]
      cases known <;> cases below <;> simp_all
    · intro h
      obtain ⟨hknown, hne, hbelow⟩ := h parent rfl
      rw [hk] at hknown
      rw [hb] at hbelow
      simp [hknown, hne, hbelow]

/-- A change to which there is no objection keeps the graph of the records acyclic. -/
theorem acyclic_amend (known : records.any (·.id == request.concept) = true)
    (ha : (ofRecords records).Acyclic) (ho : objection? records request = none) :
    (ofRecords (amend records request)).Acyclic := by
  cases hadded : request.added with
  | none =>
    refine ha.of_links_le fun upper lower hl => ?_
    rcases narrower_amend hl with old | ⟨_, new⟩
    · exact old
    · rw [hadded] at new
      cases new
  | some parent =>
    obtain ⟨_, hne, hb⟩ := objection?_eq_none_iff.mp ho parent hadded
    have hbelow : ¬(ofRecords records).Below request.concept parent := by
      intro h
      have hc : (ofRecords records).contains request.concept = true := by
        rw [contains_ofRecords]
        exact known
      have ht := Descendants.isBelow_ofGraph.mpr ⟨hc, hne, h⟩
      rw [hb] at ht
      cases ht
    -- the guard looks at the graph before the removal, which has all links that stay
    refine ha.of_added_link hne hbelow fun upper lower hl => ?_
    rcases narrower_amend hl with old | ⟨hlower, hupper⟩
    · exact Or.inl old
    · rw [hadded] at hupper
      exact Or.inr ⟨(Option.some.inj hupper).symm, hlower.symm⟩

end Amend

/-- What a change comes to: an injected failure, an unknown concept, an objection or changed
records in the scheme of the concept. -/
theorem change_cases (repository : Repository) (request : ParentChange) :
    (∃ error, repository.changeFailure = some error ∧
      repository.change request = (.error error, { repository with changeFailure := none })) ∨
    (repository.changeFailure = none ∧ repository.schemeOf? request.concept = none ∧
      repository.change request = (.error (.unknownConcept request.concept), repository)) ∨
    ∃ name records, repository.changeFailure = none ∧
      repository.schemeOf? request.concept = some (name, records) ∧
        ((∃ error, objection? records request = some error ∧
          repository.change request = (.error error, repository)) ∨
        (objection? records request = none ∧
          repository.change request =
            (.ok (), repository.withScheme name (amend records request)))) := by
  unfold change
  cases hf : repository.changeFailure with
  | some error => exact Or.inl ⟨error, rfl, rfl⟩
  | none =>
    refine Or.inr ?_
    cases hs : repository.schemeOf? request.concept with
    | none => exact Or.inl ⟨rfl, rfl, rfl⟩
    | some found =>
      obtain ⟨name, records⟩ := found
      refine Or.inr ⟨name, records, rfl, rfl, ?_⟩
      dsimp only
      cases ho : objection? records request with
      | some error => exact Or.inl ⟨error, rfl, rfl⟩
      | none => exact Or.inr ⟨rfl, rfl⟩

/-- An objection does not tell of a change that was made. -/
theorem saved_of_objection {records : List Record} {request : ParentChange} {error : RequestError}
    (h : objection? records request = some error) : error.saved = false := by
  unfold objection? at h
  cases hadded : request.added with
  | none =>
    rw [hadded] at h
    cases h
  | some parent =>
    rw [hadded] at h
    dsimp only at h
    split at h
    · cases h
      rfl
    · split at h
      · cases h
        rfl
      · cases h

/-- Without an injected failure a change is made, and the scheme has records as before; or there
is an error that does not tell of a change, and nothing changes. -/
theorem change_of_sound {repository : Repository} {name : String} {records : List Record}
    (hc : repository.changeFailure = none) (hr : repository.records? name = some records)
    (request : ParentChange) :
    (∃ after now, repository.change request = (.ok (), after) ∧ after.changeFailure = none ∧
      after.fetchFailure = repository.fetchFailure ∧ after.records? name = some now) ∨
    ∃ error, repository.change request = (.error error, repository) ∧ error.saved = false := by
  rcases change_cases repository request with ⟨_, hf, _⟩ | ⟨_, _, h⟩ |
    ⟨scheme, old, _, _, ⟨error, ho, h⟩ | ⟨_, h⟩⟩
  · rw [hc] at hf
    cases hf
  · exact Or.inr ⟨_, h, rfl⟩
  · exact Or.inr ⟨error, h, saved_of_objection ho⟩
  · have hnow := records?_withScheme repository scheme name (amend old request)
    refine Or.inl ?_
    by_cases same : name = scheme
    · rw [if_pos same] at hnow
      exact ⟨_, _, h, hc, rfl, hnow⟩
    · rw [if_neg same, hr] at hnow
      exact ⟨_, _, h, hc, rfl, hnow⟩

/-- What a change does to the schemes: nothing, or it changes the records of one scheme that has
the concept, to which there is no objection. -/
theorem records?_change (repository : Repository) (request : ParentChange) :
    (∀ name, (repository.change request).2.records? name = repository.records? name) ∨
    ∃ scheme records, repository.records? scheme = some records ∧
      records.any (·.id == request.concept) = true ∧ objection? records request = none ∧
      ∀ name, (repository.change request).2.records? name =
        if name = scheme then some (amend records request) else repository.records? name := by
  rcases change_cases repository request with ⟨_, _, h⟩ | ⟨_, _, h⟩ |
    ⟨scheme, records, _, hs, ⟨_, _, h⟩ | ⟨ho, h⟩⟩
  · rw [h]
    exact Or.inl fun _ => rfl
  · rw [h]
    exact Or.inl fun _ => rfl
  · rw [h]
    exact Or.inl fun _ => rfl
  · rw [h]
    obtain ⟨hr, known⟩ := schemeOf?_eq_some hs
    exact Or.inr ⟨scheme, records, hr, known, ho,
      fun name => records?_withScheme repository scheme name (amend records request)⟩

/-- In every scheme the broader links form no cycle. -/
def Acyclic (repository : Repository) : Prop :=
  ∀ name records, repository.records? name = some records → (ofRecords records).Acyclic

/-- The records of a scheme without what they say of broader concepts. -/
def outline (repository : Repository) (name : String) : Option (List Record) :=
  (repository.records? name).map (List.map Record.withoutBroader)

/-- What may happen at a repository: a request of some client, or a failure injected. -/
inductive ServerEvent where
  /-- A client asks for a change, whatever state it has seen. -/
  | change (request : ParentChange)
  /-- A client fetches a scheme. -/
  | fetch (name : String)
  /-- The next change is to fail. -/
  | failChange (error : RequestError)
  /-- The next fetch is to fail. -/
  | failFetch (error : RequestError)

/-- The repository after an event. -/
def serve (repository : Repository) : ServerEvent → Repository
  | .change request => (repository.change request).2
  | .fetch name => (repository.fetch name).2
  | .failChange error => repository.failChange error
  | .failFetch error => repository.failFetch error

/-- The repository at the start and after each of some events. -/
def trail (repository : Repository) : List ServerEvent → List Repository
  | [] => [repository]
  | event :: events => repository :: (repository.serve event).trail events

/-- A repository is acyclic if each of its schemes is. -/
theorem acyclic_of_schemes {repository : Repository}
    (h : ∀ scheme ∈ repository.schemes, (ofRecords scheme.2).Acyclic) : repository.Acyclic := by
  intro name records hr
  exact h (name, records) (mem_of_records? hr)

/-- Fetching changes no scheme. -/
theorem records?_fetch (repository : Repository) (scheme name : String) :
    (repository.fetch scheme).2.records? name = repository.records? name := by
  unfold fetch
  split
  · rfl
  · split <;> rfl

/-- A change keeps every scheme acyclic. -/
theorem Acyclic.change {repository : Repository} (ha : repository.Acyclic)
    (request : ParentChange) : (repository.change request).2.Acyclic := by
  intro name records hr
  rcases records?_change repository request with same | ⟨scheme, old, hold, known, ho, changed⟩
  · rw [same] at hr
    exact ha name records hr
  · rw [changed] at hr
    split at hr
    · cases hr
      exact acyclic_amend known (ha scheme old hold) ho
    · exact ha name records hr

/-- A change touches nothing but the broader concepts of records. -/
theorem outline_change (repository : Repository) (request : ParentChange) (name : String) :
    (repository.change request).2.outline name = repository.outline name := by
  unfold outline
  rcases records?_change repository request with same | ⟨scheme, old, hold, _, _, changed⟩
  · rw [same]
  · rw [changed]
    split
    · rename_i same
      rw [same, hold, Option.map_some, Option.map_some, amend_withoutBroader]
    · rfl

/-- Every event keeps every scheme acyclic. -/
theorem Acyclic.serve {repository : Repository} (ha : repository.Acyclic) (event : ServerEvent) :
    (repository.serve event).Acyclic := by
  cases event with
  | change request => exact ha.change request
  | fetch scheme =>
    intro name records hr
    exact ha name records ((records?_fetch repository scheme name).symm.trans hr)
  | failChange error => exact ha
  | failFetch error => exact ha

/-- No event touches anything but the broader concepts of records. -/
theorem outline_serve (repository : Repository) (event : ServerEvent) (name : String) :
    (repository.serve event).outline name = repository.outline name := by
  cases event with
  | change request => exact outline_change repository request name
  | fetch scheme =>
    show ((repository.fetch scheme).2.records? name).map _ = _
    rw [records?_fetch]
    rfl
  | failChange error => rfl
  | failFetch error => rfl

/-- Whatever clients ask for and whatever failures are injected, in any order, after every step
every scheme is still acyclic, and its records are still the same in the same order but for
their broader concepts. -/
theorem trail_acyclic (repository : Repository) (ha : repository.Acyclic)
    (events : List ServerEvent) :
    ∀ reached ∈ repository.trail events,
      reached.Acyclic ∧ ∀ name, reached.outline name = repository.outline name := by
  induction events generalizing repository with
  | nil =>
    intro reached mem
    rw [trail, List.mem_singleton] at mem
    rw [mem]
    exact ⟨ha, fun _ => rfl⟩
  | cons event events ih =>
    intro reached mem
    rcases List.mem_cons.mp mem with rfl | mem
    · exact ⟨ha, fun _ => rfl⟩
    · obtain ⟨hacyclic, houtline⟩ := ih (repository.serve event) (ha.serve event) reached mem
      exact ⟨hacyclic, fun name => (houtline name).trans (outline_serve repository event name)⟩

/-- The schemes shipped with the editor are acyclic. -/
theorem samples_acyclic : Samples.repository.Acyclic := by
  refine acyclic_of_schemes fun scheme mem => acyclic_of_ordered ?_
  revert scheme
  decide +kernel

/-- One client puts dogs below wolves, another wolves below dogs, as neither sees the other. -/
theorem trail_acyclic_samples :
    Samples.repository.Acyclic ∧
      ∀ reached ∈ Samples.repository.trail
        [.change ⟨"dogs", some "wolves", some "canines"⟩,
          .change ⟨"wolves", some "dogs", some "canines"⟩, .failChange (.rejected "locked"),
          .change ⟨"steel", none, some "alloys"⟩, .change ⟨"steel", none, some "alloys"⟩],
        reached.Acyclic ∧ ∀ name, reached.outline name = Samples.repository.outline name :=
  ⟨samples_acyclic, trail_acyclic Samples.repository samples_acyclic _⟩

end Repository

end Thesaurus
