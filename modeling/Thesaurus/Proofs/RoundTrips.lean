import Thesaurus.Proofs.Exchange

/-!
# Round trips that overlap

When nothing is under way any more, the repository holds what the answer given last shows, and the
session shows what the answer taken last shows. So a change is lost from view exactly if an answer
is overtaken by one given later that shows something else, and the session does not know of it.
-/

namespace Thesaurus

namespace Exchange

open ConceptGraph

/-- An exchange without failures, as far as it has come: no error tells of a change that was made,
the session shows what it took last, and unless a fetch is still to be served the repository holds
what the answer given last shows. -/
structure Sound (exchange : Exchange) : Prop where
  /-- The session shows the scheme. -/
  scheme_eq : exchange.session.scheme = some exchange.name
  /-- The next change is not made to fail. -/
  change_sound : exchange.repository.changeFailure = none
  /-- The next fetch is not made to fail. -/
  fetch_sound : exchange.repository.fetchFailure = none
  /-- No error on its way tells of a change that was made. -/
  unsaved : ∀ answer ∈ exchange.answers, ∀ error, answer.result = .error error →
    error.saved = false
  /-- The graph shown is the one taken last. -/
  shown : exchange.taken.head? = some exchange.session.graph
  /-- The records held show the graph given last, or a fetch is to be served. -/
  held : ∃ records, exchange.repository.records? exchange.name = some records ∧
    ((∃ settled, .fetch settled ∈ exchange.asked) ∨
      exchange.given.head? = some (ofRecords records))

section Sound

variable {exchange : Exchange}

/-- What serving does: nothing; or a change is made, and a fetch takes its place; or a change is
refused; or a fetch is answered with what the repository holds. -/
theorem Sound.serve_cases (hs : exchange.Sound) (place : Nat) :
    exchange.serve place = exchange ∨
    (∃ request repository records, exchange.serve place =
        { exchange with repository, asked := exchange.asked.set place (.fetch (some request)) } ∧
      exchange.asked[place]? = some (.change request) ∧ repository.changeFailure = none ∧
      repository.fetchFailure = none ∧ repository.records? exchange.name = some records) ∨
    (∃ request error, exchange.serve place =
        answer { exchange with asked := exchange.asked.eraseIdx place }
          ⟨some request, .error error⟩ ∧
      exchange.asked[place]? = some (.change request) ∧ error.saved = false) ∨
    ∃ settled records, exchange.serve place =
        answer { exchange with asked := exchange.asked.eraseIdx place }
          ⟨settled, .ok (ofRecords records)⟩ ∧
      exchange.repository.records? exchange.name = some records := by
  obtain ⟨records, hr, _⟩ := hs.held
  unfold serve
  cases hasked : exchange.asked[place]? with
  | none => exact Or.inl rfl
  | some inquiry =>
    refine Or.inr ?_
    cases inquiry with
    | change request =>
      rcases Repository.change_of_sound hs.change_sound hr request with
        ⟨after, now, hchange, hc, hf, hnow⟩ | ⟨error, hchange, hu⟩
      · refine Or.inl ⟨request, after, now, ?_, rfl, hc, hf.trans hs.fetch_sound, hnow⟩
        dsimp only
        rw [hchange]
      · refine Or.inr (Or.inl ⟨request, error, ?_, rfl, hu⟩)
        dsimp only
        rw [hchange]
    | fetch settled =>
      refine Or.inr (Or.inr ⟨settled, records, ?_, hr⟩)
      dsimp only
      rw [Repository.fetchGraph_of_records hs.fetch_sound hr]
      cases settled <;> rfl

/-- What a delivery does: nothing; or a graph comes in and is shown; or an error comes in that does
not tell of a change. -/
theorem Sound.deliver_cases (hs : exchange.Sound) (place : Nat) :
    (exchange.answers[place]? = none ∧ exchange.deliver place = exchange) ∨
    ∃ answer session, exchange.answers[place]? = some answer ∧
      exchange.deliver place =
        { exchange with
          session
          answers := exchange.answers.eraseIdx place
          taken := answer.graphs ++ exchange.taken } ∧
      session.scheme = some exchange.name ∧
      (session.stale = true → exchange.session.stale = true) ∧
      (answer.graphs = [session.graph] ∨
        answer.graphs = [] ∧ session.outlook = exchange.session.outlook) := by
  unfold deliver
  cases hplace : exchange.answers[place]? with
  | none => exact Or.inl ⟨rfl, rfl⟩
  | some answer =>
    refine Or.inr ⟨answer, answer.receive exchange.name exchange.session, rfl, rfl, ?_⟩
    cases hresult : answer.result with
    | ok graph =>
      obtain ⟨hscheme, hgraph, hstale⟩ := Answer.receive_ok hs.scheme_eq hresult
      refine ⟨hscheme, hstale, Or.inl ?_⟩
      unfold Answer.graphs
      rw [hresult, hgraph]
      rfl
    | error error =>
      have hu := hs.unsaved answer (List.mem_of_getElem? hplace) error hresult
      have hout : (answer.receive exchange.name exchange.session).outlook =
          exchange.session.outlook := Answer.receive_error hresult hu
      obtain ⟨hscheme, _, hstale⟩ := Session.outlook_eq_iff.mp hout
      refine ⟨hscheme.trans hs.scheme_eq, fun h => hstale ▸ h, Or.inr ⟨?_, hout⟩⟩
      unfold Answer.graphs
      rw [hresult]
      rfl

/-- Asking keeps an exchange sound. -/
theorem Sound.asking (hs : exchange.Sound) {session : Session} (inquiries : List Inquiry)
    (hout : session.outlook = exchange.session.outlook) :
    Sound { exchange with session, asked := exchange.asked ++ inquiries } := by
  obtain ⟨hscheme, hgraph, _⟩ := Session.outlook_eq_iff.mp hout
  obtain ⟨records, hr, hheld⟩ := hs.held
  refine ⟨hscheme.trans hs.scheme_eq, hs.change_sound, hs.fetch_sound, hs.unsaved, ?_,
    records, hr, hheld.imp_left ?_⟩
  · rw [hgraph]
    exact hs.shown
  · rintro ⟨settled, mem⟩
    exact ⟨settled, List.mem_append_left _ mem⟩

/-- A fetch is still to be served after a change was. -/
theorem fetch_mem_of_ne {asked : List Inquiry} {place : Nat} {request : ParentChange}
    {settled : Option ParentChange} (hplace : asked[place]? = some (.change request))
    (mem : .fetch settled ∈ asked) : .fetch settled ∈ asked.eraseIdx place := by
  obtain ⟨other, hother⟩ := List.mem_iff_getElem?.mp mem
  refine List.mem_eraseIdx_iff_getElem?.mpr ⟨other, fun same => ?_, hother⟩
  rw [same, hplace] at hother
  cases hother

/-- Serving keeps an exchange sound. -/
theorem Sound.serve (hs : exchange.Sound) (place : Nat) : (exchange.serve place).Sound := by
  obtain ⟨held, hheldRecords, hheld⟩ := hs.held
  rcases hs.serve_cases place with h | ⟨request, after, now, h, hplace, hc, hf, hnow⟩ |
    ⟨request, error, h, hplace, hu⟩ | ⟨settled, now, h, hnow⟩
  · rw [h]
    exact hs
  · rw [h]
    have hlt := (List.getElem?_eq_some_iff.mp hplace).1
    -- the records have changed, but the fetch that settles the change is still to be served
    exact ⟨hs.scheme_eq, hc, hf, hs.unsaved, hs.shown, now, hnow,
      Or.inl ⟨some request, List.mem_set hlt _⟩⟩
  · rw [h]
    refine ⟨hs.scheme_eq, hs.change_sound, hs.fetch_sound, ?_, hs.shown, held, hheldRecords,
      hheld.imp_left ?_⟩
    · intro answer mem other hother
      rcases List.mem_append.mp mem with old | new
      · exact hs.unsaved answer old other hother
      · rw [List.mem_singleton.mp new] at hother
        cases hother
        exact hu
    · rintro ⟨settled, mem⟩
      exact ⟨settled, fetch_mem_of_ne hplace mem⟩
  · rw [h]
    refine ⟨hs.scheme_eq, hs.change_sound, hs.fetch_sound, ?_, hs.shown, now, hnow, Or.inr rfl⟩
    intro answer mem other hother
    rcases List.mem_append.mp mem with old | new
    · exact hs.unsaved answer old other hother
    · rw [List.mem_singleton.mp new] at hother
      cases hother

/-- A delivery keeps an exchange sound. -/
theorem Sound.deliver (hs : exchange.Sound) (place : Nat) : (exchange.deliver place).Sound := by
  rcases hs.deliver_cases place with ⟨_, h⟩ | ⟨answer, session, _, h, hscheme, _, htaken⟩
  · rw [h]
    exact hs
  · rw [h]
    refine ⟨hscheme, hs.change_sound, hs.fetch_sound, ?_, ?_, hs.held⟩
    · exact fun other mem => hs.unsaved other (List.mem_of_mem_eraseIdx mem)
    · rcases htaken with hgraph | ⟨hnone, hout⟩
      · show (answer.graphs ++ exchange.taken).head? = some session.graph
        rw [hgraph]
        rfl
      · have hgraph := (Session.outlook_eq_iff.mp hout).2.1
        show (answer.graphs ++ exchange.taken).head? = some session.graph
        rw [hnone, hgraph]
        exact hs.shown

/-- Every step keeps an exchange sound. -/
theorem Sound.step (hs : exchange.Sound) (step : Step) : (exchange.step step).Sound := by
  rcases exchange.step_cases step with ⟨session, inquiries, h, hout⟩ | ⟨place, h⟩ | ⟨place, _, h⟩
  · rw [h]
    exact hs.asking inquiries hout
  · rw [h]
    exact hs.serve place
  · rw [h]
    exact hs.deliver place

/-- Every run keeps an exchange sound. -/
theorem Sound.run (hs : exchange.Sound) (steps : List Step) : (exchange.run steps).Sound := by
  induction steps generalizing exchange with
  | nil => exact hs
  | cons step rest ih => exact ih (hs.step step)

end Sound

section Run

variable {exchange : Exchange}

/-- No step makes the session aware of being out of date. -/
theorem Sound.stale_of_step (hs : exchange.Sound) {step : Step}
    (h : (exchange.step step).session.stale = true) : exchange.session.stale = true := by
  rcases exchange.step_cases step with ⟨session, _, hstep, hout⟩ | ⟨place, hstep⟩ |
    ⟨place, _, hstep⟩
  · have hsame := (Session.outlook_eq_iff.mp hout).2.2
    rw [hstep] at h
    exact hsame ▸ h
  · rw [hstep] at h
    rcases hs.serve_cases place with heq | ⟨_, _, _, heq, _⟩ | ⟨_, _, heq, _⟩ | ⟨_, _, heq, _⟩
    all_goals
      rw [heq] at h
      exact h
  · rw [hstep] at h
    rcases hs.deliver_cases place with ⟨_, heq⟩ | ⟨_, session, _, heq, _, hstale, _⟩
    · rw [heq] at h
      exact h
    · rw [heq] at h
      exact hstale h

/-- No run makes the session aware of being out of date. -/
theorem Sound.stale_of_run (hs : exchange.Sound) {steps : List Step}
    (h : (exchange.run steps).session.stale = true) : exchange.session.stale = true := by
  induction steps generalizing exchange with
  | nil => exact h
  | cons step rest ih => exact hs.stale_of_step (ih (hs.step step) h)

/-- What comes of deliveries in the order of answering: the graphs given are those taken, behind
those that are still on their way, but for the graph held and the one shown at the start; and while
none was taken, the graph shown counts as up to date as at the start. -/
def Ordered (held shown : ConceptGraph) (stale : Bool) (exchange : Exchange) : Prop :=
  ∃ news, exchange.given =
      (exchange.answers.flatMap Answer.graphs).reverse ++ (news ++ [held]) ∧
    exchange.taken = news ++ [shown] ∧ (news = [] → exchange.session.stale = stale)

variable {held shown : ConceptGraph} {stale : Bool}

/-- Putting an answer on its way keeps to the order. -/
theorem Ordered.answer (ho : exchange.Ordered held shown stale) (answer : Answer) :
    (exchange.answer answer).Ordered held shown stale := by
  obtain ⟨news, hgiven, htaken, hstale⟩ := ho
  refine ⟨news, ?_, htaken, hstale⟩
  have hshort : answer.graphs.reverse = answer.graphs := by
    unfold Answer.graphs
    cases answer.result <;> rfl
  show answer.graphs ++ exchange.given =
    ((exchange.answers ++ [answer]).flatMap Answer.graphs).reverse ++ (news ++ [held])
  rw [hgiven, List.flatMap_append, List.reverse_append, List.flatMap_singleton, hshort,
    List.append_assoc]

/-- The delivery of the answer given first keeps to the order. -/
theorem Ordered.deliver (ho : exchange.Ordered held shown stale) (hs : exchange.Sound) :
    (exchange.deliver 0).Ordered held shown stale := by
  rcases hs.deliver_cases 0 with ⟨_, h⟩ | ⟨answer, session, hfirst, h, _, _, htaken⟩
  · rw [h]
    exact ho
  · rw [h]
    obtain ⟨news, hgiven, hnews, hstale⟩ := ho
    cases hanswers : exchange.answers with
    | nil =>
      rw [hanswers] at hfirst
      cases hfirst
    | cons first rest =>
      rw [hanswers] at hfirst hgiven
      have hsame : first = answer := Option.some.inj hfirst
      rw [hsame, List.flatMap_cons, List.reverse_append] at hgiven
      rcases htaken with hgraph | ⟨hnone, hout⟩
      · refine ⟨session.graph :: news, ?_, ?_, fun hnil => nomatch hnil⟩
        · show exchange.given = (rest.flatMap Answer.graphs).reverse ++ _
          rw [hgiven, hgraph, List.append_assoc]
          rfl
        · show answer.graphs ++ exchange.taken = _
          rw [hgraph, hnews]
          rfl
      · have hsame := (Session.outlook_eq_iff.mp hout).2.2
        refine ⟨news, ?_, ?_, fun hnil => hsame.trans (hstale hnil)⟩
        · show exchange.given = (rest.flatMap Answer.graphs).reverse ++ _
          rw [hgiven, hnone, List.reverse_nil, List.append_nil]
        · show answer.graphs ++ exchange.taken = _
          rw [hnone, hnews]
          rfl

/-- A step in which no answer overtakes another keeps to the order. -/
theorem Ordered.step (ho : exchange.Ordered held shown stale) (hs : exchange.Sound) {step : Step}
    (hk : step.KeepsOrder) : (exchange.step step).Ordered held shown stale := by
  rcases exchange.step_cases step with ⟨session, inquiries, hstep, hout⟩ | ⟨place, hstep⟩ |
    ⟨place, rfl, hstep⟩
  · obtain ⟨news, hgiven, htaken, hstale⟩ := ho
    have hsame := (Session.outlook_eq_iff.mp hout).2.2
    rw [hstep]
    exact ⟨news, hgiven, htaken, fun hnil => hsame.trans (hstale hnil)⟩
  · rw [hstep]
    rcases hs.serve_cases place with h | ⟨_, _, _, h, _⟩ | ⟨_, _, h, _⟩ | ⟨_, _, h, _⟩
    · rw [h]
      exact ho
    · rw [h]
      exact ho
    · rw [h]
      exact Ordered.answer ho _
    · rw [h]
      exact Ordered.answer ho _
  · have hplace : place = 0 := hk
    rw [hstep, hplace]
    exact ho.deliver hs

/-- A run in which no answer overtakes another keeps to the order. -/
theorem Ordered.run (ho : exchange.Ordered held shown stale) (hs : exchange.Sound)
    {steps : List Step} (hk : ∀ step ∈ steps, step.KeepsOrder) :
    (exchange.run steps).Ordered held shown stale := by
  induction steps generalizing exchange with
  | nil => exact ho
  | cons step rest ih =>
    obtain ⟨hstep, hrest⟩ := List.forall_mem_cons.mp hk
    exact ih (ho.step hs hstep) (hs.step step) hrest

end Run

/-- A session that shows a scheme, and a repository that holds it and is not made to fail, are
sound before anything is asked. -/
theorem start_sound {name : String} {session : Session} {repository : Repository}
    {records : List Record} (hs : session.scheme = some name)
    (hr : repository.records? name = some records) (hc : repository.changeFailure = none)
    (hf : repository.fetchFailure = none) : (start name session repository records).Sound where
  scheme_eq := hs
  change_sound := hc
  fetch_sound := hf
  unsaved := fun _ mem => nomatch mem
  shown := rfl
  held := ⟨records, hr, Or.inr rfl⟩

/-- When nothing is under way any more, a sound exchange holds what was given last, and shows it
exactly if that is also what was taken last. -/
theorem Sound.graph_eq_iff {exchange : Exchange} (hs : exchange.Sound) (hrest : exchange.AtRest) :
    ∃ now, exchange.repository.records? exchange.name = some now ∧
      (exchange.session.graph = ofRecords now ↔ exchange.taken.head? = exchange.given.head?) := by
  obtain ⟨now, hnow, hheld⟩ := hs.held
  have hgiven : exchange.given.head? = some (ofRecords now) := by
    refine hheld.resolve_left ?_
    rintro ⟨settled, mem⟩
    rw [hrest.1] at mem
    cases mem
  refine ⟨now, hnow, ?_⟩
  rw [hs.shown, hgiven]
  exact (Option.some_inj).symm

/-- Whatever overlaps, when every round trip has ended without failures the session shows what
the repository holds exactly if the graph taken last is the one given last; else it must know that
it does not, and it never learns that on the way. If no answer overtakes another, a session that
showed what the repository holds, or knew that it did not, still does. -/
theorem showsHeld_iff {name : String} {session : Session} {repository : Repository}
    {records : List Record} (hscheme : session.scheme = some name)
    (hrecords : repository.records? name = some records)
    (hchange : repository.changeFailure = none) (hfetch : repository.fetchFailure = none)
    (steps : List Step) {first final : Exchange}
    (hfirst : first = start name session repository records) (hfinal : final = first.run steps)
    (hrest : final.AtRest) :
    final.name = name ∧
      (final.ShowsHeld ↔ final.taken.head? = final.given.head? ∨ final.session.stale = true) ∧
      (final.session.stale = true → session.stale = true) ∧
      (first.ShowsHeld → (∀ step ∈ steps, step.KeepsOrder) → final.ShowsHeld) := by
  have hsound : first.Sound := hfirst ▸ start_sound hscheme hrecords hchange hfetch
  have hs : final.Sound := hfinal ▸ hsound.run steps
  obtain ⟨now, hnow, hiff⟩ := hs.graph_eq_iff hrest
  have hshows : final.ShowsHeld ↔
      final.taken.head? = final.given.head? ∨ final.session.stale = true := by
    rw [← hiff]
    constructor
    · rintro ⟨other, hother, h⟩
      rw [hnow] at hother
      exact Option.some.inj hother ▸ h
    · exact fun h => ⟨now, hnow, h⟩
  refine ⟨?_, hshows, ?_, ?_⟩
  · rw [hfinal, hfirst]
    exact name_run _ steps
  · intro h
    rw [hfinal] at h
    have hold := hsound.stale_of_run h
    rw [hfirst] at hold
    exact hold
  · intro hstart hk
    have ho : first.Ordered (ofRecords records) session.graph session.stale := by
      rw [hfirst]
      exact ⟨[], rfl, rfl, fun _ => rfl⟩
    have hstart' : session.graph = ofRecords records ∨ session.stale = true := by
      rw [hfirst] at hstart
      obtain ⟨old, hold, h⟩ := hstart
      have hsame : some old = some records := hold.symm.trans hrecords
      exact Option.some.inj hsame ▸ h
    obtain ⟨news, hall, htaken, hstale⟩ := hfinal ▸ ho.run hsound hk
    rw [hrest.2] at hall
    refine hshows.mpr ?_
    cases news with
    | nil =>
      -- nothing came in, so the session is as aware as it was at the start
      refine hstart'.imp (fun hsame => ?_) (hstale rfl).trans
      rw [htaken, hall, hsame]
      rfl
    | cons last earlier =>
      refine Or.inl ?_
      rw [htaken, hall]
      rfl

/-- Dogs, then wolves, are dropped on birds before either change is answered, and the answer to
the second overtakes the answer to the first. -/
def overtaken : List Step :=
  [.user (.grab "dogs" "animals/mammals/canines/dogs"),
    .user (.drop (some (.concept "birds")) false),
    .user (.grab "wolves" "animals/mammals/canines/wolves"),
    .user (.drop (some (.concept "birds")) false),
    .serve 0, .serve 0, .serve 0, .serve 0, .deliver 1, .deliver 0]

/-- The same, but the answers come in as they were given. -/
def inTurn : List Step := overtaken.take 8 ++ [.deliver 0, .deliver 0]

/-- The opened animals before anything is asked. -/
def animalsAtStart : Exchange :=
  start "animals" openedAnimals Samples.repository Samples.animals

/-- Answers that come in as they were given show both changes. -/
theorem showsHeld_in_turn :
    animalsAtStart.ShowsHeld ∧ (∀ step ∈ inTurn, step.KeepsOrder) ∧
      (animalsAtStart.run inTurn).AtRest ∧ (animalsAtStart.run inTurn).ShowsHeld := by
  have hstart : animalsAtStart.ShowsHeld :=
    ⟨Samples.animals, rfl, Or.inl inStep_openedAnimals.graph_eq⟩
  have hk : ∀ step ∈ inTurn, step.KeepsOrder := by decide
  have hrest : (animalsAtStart.run inTurn).AtRest := by decide +kernel
  have hin := inStep_openedAnimals
  obtain ⟨_, _, _, hshows⟩ := showsHeld_iff hin.scheme_eq hin.records_eq hin.change_sound
    hin.fetch_sound inTurn (Eq.refl animalsAtStart) (Eq.refl (animalsAtStart.run inTurn)) hrest
  exact ⟨hstart, hk, hrest, hshows hstart hk⟩

/-- An answer that is overtaken hides the change of the other, and the session does not know. -/
theorem overtaken_not_showsHeld :
    animalsAtStart.ShowsHeld ∧ (animalsAtStart.run overtaken).AtRest ∧
      ¬(animalsAtStart.run overtaken).ShowsHeld := by
  have hrest : (animalsAtStart.run overtaken).AtRest := by decide +kernel
  have hheld : (animalsAtStart.run overtaken).repository.records? "animals" =
      some (Repository.amend
        (Repository.amend Samples.animals ⟨"dogs", some "birds", some "canines"⟩)
        ⟨"wolves", some "birds", some "canines"⟩) := by
    decide +kernel
  have hne : (animalsAtStart.run overtaken).session.graph ≠
      ofRecords (Repository.amend
        (Repository.amend Samples.animals ⟨"dogs", some "birds", some "canines"⟩)
        ⟨"wolves", some "birds", some "canines"⟩) := by
    decide +kernel
  have hunaware : (animalsAtStart.run overtaken).session.stale = false := by decide +kernel
  refine ⟨⟨Samples.animals, rfl, Or.inl inStep_openedAnimals.graph_eq⟩, hrest, ?_⟩
  rintro ⟨now, hnow, h⟩
  have hname : (animalsAtStart.run overtaken).name = "animals" := name_run _ _
  rw [hname, hheld] at hnow
  rcases h with hgraph | hstale
  · exact hne (hgraph.trans (congrArg ofRecords (Option.some.inj hnow).symm))
  · exact Bool.false_ne_true (hunaware.symm.trans hstale)

end Exchange

end Thesaurus
