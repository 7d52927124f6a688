import Thesaurus.Proofs.Dialogue
import Thesaurus.Samples

/-!
# When a graph counts as out of date

A graph is to count as out of date while the repository holds a change of its scheme that the graph
does not show. It does so, once an error has reported that change. It stops doing so when a load
brings another graph, but not when the answer to a change brings one, though that shows everything
as well. So a graph counts as out of date exactly if a report came in since the last load, and the
report then tells of a change that the graph does not show unless the graph came with the answer to
a change.
-/

namespace Thesaurus

/-- Whether a trip brings a graph, or reports a change that the graph shown does not show. -/
def Trip.tells (trip : Trip) : Bool := trip.brings || trip.reports

namespace Dialogue

variable {first : Repository} {dialogue : Dialogue}

section Heard

variable {session : Session} {trip : Trip}

/-- The graph shown after an answer that brings one comes from that answer. -/
theorem origin?_hear_of_brings (h : trip.brings = true) :
    (dialogue.hear trip session).origin? = some trip :=
  List.find?_cons_of_pos h

/-- The graph shown after an answer that brings none comes from where it came from. -/
theorem origin?_hear_of_not_brings (h : trip.brings = false) :
    (dialogue.hear trip session).origin? = dialogue.origin? :=
  List.find?_cons_of_neg (Bool.eq_false_iff.mp h)

/-- Nothing is reported since a load that came in last. -/
theorem not_reported_hear_of_loads (h : trip.loads = true) :
    ¬(dialogue.hear trip session).Reported := by
  have hnone : (dialogue.hear trip session).sinceLoad = [] := by
    apply List.takeWhile_cons_of_neg
    rw [h]
    exact Bool.false_ne_true
  rintro ⟨_, mem, _⟩
  rw [hnone] at mem
  cases mem

/-- An answer other than a load adds to what was reported if it reports a change. -/
theorem reported_hear_iff (h : trip.loads = false) :
    (dialogue.hear trip session).Reported ↔ trip.reports = true ∨ dialogue.Reported := by
  have hmore : (dialogue.hear trip session).sinceLoad = trip :: dialogue.sinceLoad := by
    apply List.takeWhile_cons_of_pos
    rw [h]
    rfl
  unfold Reported
  rw [hmore, List.exists_mem_cons_iff]

end Heard

section Lags

/-- The changes since the graph was fetched are those made after the ones it goes back to. -/
theorem unseen_eq {later : List Made} (h : dialogue.made = later ++ dialogue.basis) :
    dialogue.unseen = later := by
  unfold unseen
  rw [h, List.length_append, Nat.add_sub_cancel, List.take_left]

/-- Where the graph goes back to all changes, none is missing from it. -/
theorem not_lags_of_eq (h : dialogue.basis = dialogue.made) : ¬dialogue.Lags := by
  rintro ⟨made, mem, _⟩
  have hnone : dialogue.unseen = [] := unseen_eq h.symm
  rw [hnone] at mem
  cases mem

/-- Whether a change is missing from the graph depends on the scheme, the changes that were made
and where the graph comes from. -/
theorem lags_congr {other : Dialogue} (hscheme : other.session.scheme = dialogue.session.scheme)
    (hmade : other.made = dialogue.made) (horigin : other.origin? = dialogue.origin?) :
    other.Lags ↔ dialogue.Lags := by
  unfold Lags unseen basis
  rw [hscheme, hmade, horigin]

/-- A change that is made is missing from the graph, like those missing before. -/
theorem unseen_of_made (hback : dialogue.basis <:+ dialogue.made) (made : Made)
    (repository : Repository) (trip : Option Trip) :
    { dialogue with repository, trip, made := made :: dialogue.made }.unseen =
      made :: dialogue.unseen := by
  obtain ⟨later, hlater⟩ := hback
  rw [unseen_eq hlater.symm]
  exact unseen_eq (congrArg _ hlater.symm)

/-- One more change is missing from the graph, if it was made in the scheme that is shown. -/
theorem lags_of_made (hback : dialogue.basis <:+ dialogue.made) (made : Made)
    (repository : Repository) (trip : Option Trip) :
    { dialogue with repository, trip, made := made :: dialogue.made }.Lags ↔
      dialogue.session.scheme = some made.scheme ∨ dialogue.Lags := by
  unfold Lags
  rw [unseen_of_made hback, List.exists_mem_cons_iff]

end Lags

section Busy

/-- While something is under way, nothing is loaded. -/
theorem load_of_busy {trip : Trip} (h : dialogue.trip = some trip) (name : String) :
    dialogue.load name = dialogue := by
  unfold load
  rw [h]
  rfl

/-- While something is under way, no change is asked for. -/
theorem change_of_busy {trip : Trip} (h : dialogue.trip = some trip) (name : String)
    (request : ParentChange) : dialogue.change name request = dialogue := by
  unfold change
  rw [h]
  rfl

/-- While nothing is under way, nothing comes in. -/
theorem deliver_of_idle (h : dialogue.trip = none) : dialogue.deliver = dialogue := by
  unfold deliver
  rw [h]

end Busy

/-- What is under way goes back to all changes that were made: a graph shows the records after
them, and a report tells of one that the graph shown does not show. -/
structure Accounts (first : Repository) (dialogue : Dialogue) (trip : Trip) : Prop where
  /-- The trip goes back to all changes. -/
  basis_eq : trip.basis = dialogue.made
  /-- The graph shows the records after the changes. -/
  graph_eq : ∀ graph, trip.answer.result = .ok graph →
    ∃ records, (first.replay dialogue.made).records? trip.scheme = some records ∧
      graph = ConceptGraph.ofRecords records
  /-- A change that is reported was made since the graph shown was fetched. -/
  told : trip.reports = true → ∃ made ∈ dialogue.unseen, made.scheme = trip.scheme

/-- The graph shown is that of the records after the changes that the answer goes back to which
brought it. -/
structure Shows (first : Repository) (dialogue : Dialogue) (trip : Trip) : Prop where
  /-- The answer was one for the scheme shown. -/
  scheme_eq : dialogue.session.scheme = some trip.scheme
  /-- The changes that it goes back to are the first ones. -/
  goes_back : trip.basis <:+ dialogue.made
  /-- The graph is that of the records after these. -/
  graph_eq : ∃ records, (first.replay trip.basis).records? trip.scheme = some records ∧
    dialogue.session.graph = ConceptGraph.ofRecords records

/-- The record is right: the repository is where the changes lead, and the graph shown is that of
the records after those it goes back to, and so will be the graph under way. -/
structure Recorded (first : Repository) (dialogue : Dialogue) : Prop where
  /-- No error tells of a change that was not made. -/
  honest : dialogue.repository.Honest
  /-- The changes lead to the repository. -/
  replayed : dialogue.repository.undisturbed = first.replay dialogue.made
  /-- Until a graph comes in, one without concepts is shown. -/
  blank : dialogue.origin? = none → dialogue.session.graph = ConceptGraph.empty
  /-- The graph that came in is shown. -/
  shown : ∀ trip, dialogue.origin? = some trip → dialogue.Shows first trip
  /-- What is under way goes back to all changes. -/
  under_way : ∀ trip, dialogue.trip = some trip → dialogue.Accounts first trip

/-- A graph counts as out of date if a change is reported after the last load: then it lags behind,
or it came with the answer to another change; and where it lags behind, this is reported, unless
what is under way is going to tell. -/
structure Marked (dialogue : Dialogue) : Prop where
  /-- A graph counts as out of date from a report on, until a load brings another one. -/
  stale_iff : dialogue.session.stale = true ↔ dialogue.Reported
  /-- A graph that counts as out of date lags behind, or came with the answer to a change. -/
  cause_of_stale : dialogue.session.stale = true → dialogue.Lags ∨ dialogue.FollowsChange
  /-- A graph that lags behind counts as out of date, or something under way is going to tell. -/
  stale_of_lags : dialogue.origin?.isSome = true → dialogue.Lags → dialogue.session.stale = true ∨
    ∃ trip, dialogue.trip = some trip ∧ dialogue.session.scheme = some trip.scheme ∧
      trip.tells = true

section Recorded

/-- A graph that is still shown is that of the records it was before, whatever changes were made
since. -/
theorem Shows.mono {other : Dialogue} {trip : Trip} (h : dialogue.Shows first trip)
    (hscheme : other.session.scheme = dialogue.session.scheme)
    (hgraph : other.session.graph = dialogue.session.graph)
    (hmade : dialogue.made <:+ other.made) : other.Shows first trip := by
  obtain ⟨hs, hback, records, hrecords, hg⟩ := h
  exact ⟨hscheme.trans hs, hback.trans hmade, records, hrecords, hgraph.trans hg⟩

/-- At the start nothing is recorded. -/
theorem recorded_start (settings : Settings) (honest : first.Honest) :
    (start settings first).Recorded first where
  honest := honest
  replayed := rfl
  blank _ := rfl
  shown := by rintro _ ⟨⟩
  under_way := by rintro _ ⟨⟩

/-- The graph shown goes back to the first of the changes. -/
theorem Recorded.goes_back (hr : dialogue.Recorded first) : dialogue.basis <:+ dialogue.made := by
  unfold basis
  cases horigin : dialogue.origin? with
  | none => exact List.nil_suffix
  | some trip => exact (hr.shown trip horigin).goes_back

/-- What shows the same graph and changes nothing but the failures that wait leaves the record
right. -/
theorem Recorded.congr (hr : dialogue.Recorded first) {session : Session}
    {repository : Repository} (hout : session.outlook = dialogue.session.outlook)
    (honest : repository.Honest)
    (hsame : repository.undisturbed = dialogue.repository.undisturbed) :
    { dialogue with session, repository }.Recorded first := by
  obtain ⟨hscheme, hgraph, _⟩ := Session.outlook_eq_iff.mp hout
  refine ⟨honest, hsame.trans hr.replayed, fun horigin => hgraph.trans (hr.blank horigin),
    fun trip horigin => (hr.shown trip horigin).mono hscheme hgraph List.suffix_rfl,
    fun trip htrip => ?_⟩
  obtain ⟨hbasis, hgraphs, htold⟩ := hr.under_way trip htrip
  exact ⟨hbasis, hgraphs, htold⟩

/-- Turning to a scheme leaves the record right. -/
theorem Recorded.turnTo (hr : dialogue.Recorded first) (scheme : String) :
    (dialogue.turnTo scheme).Recorded first := by
  refine ⟨hr.honest, hr.replayed, fun _ => rfl, ?_, fun trip htrip => ?_⟩
  · rintro _ ⟨⟩
  obtain ⟨hbasis, hgraphs, htold⟩ := hr.under_way trip htrip
  refine ⟨hbasis, hgraphs, fun hreports => ?_⟩
  -- a graph without concepts goes back to no change, so none stops being missing
  have hall : (dialogue.turnTo scheme).unseen = dialogue.made :=
    unseen_eq (List.append_nil _).symm
  obtain ⟨made, mem, hmade⟩ := htold hreports
  rw [hall]
  exact ⟨made, List.mem_of_mem_take mem, hmade⟩

/-- Asking for a scheme leaves the record right. -/
theorem Recorded.load (hr : dialogue.Recorded first) (name : String) :
    (dialogue.load name).Recorded first := by
  cases htrip : dialogue.trip with
  | some trip =>
    rw [load_of_busy htrip]
    exact hr
  | none =>
    obtain ⟨result, repository, h, hsame, hhonest, hgraph⟩ := load_cases htrip name
    rw [h]
    refine ⟨hhonest hr.honest, hsame.trans hr.replayed, hr.blank,
      fun trip horigin => (hr.shown trip horigin).mono rfl rfl List.suffix_rfl, ?_⟩
    rintro trip ⟨⟩
    refine ⟨rfl, fun graph hok => ?_, fun hreports => ?_⟩
    · have hheld := Repository.records?_of_undisturbed (hsame.trans hr.replayed)
      obtain ⟨records, hrecords, hg⟩ := hgraph graph hok
      exact ⟨records, (hheld name).symm.trans hrecords, hg⟩
    · rw [Trip.reports_of_load rfl] at hreports
      cases hreports

/-- Asking for a change leaves the record right. -/
theorem Recorded.change (hr : dialogue.Recorded first) (name : String) (request : ParentChange) :
    (dialogue.change name request).Recorded first := by
  cases htrip : dialogue.trip with
  | some trip =>
    rw [change_of_busy htrip]
    exact hr
  | none =>
    obtain ⟨result, repository, made, h, hhonest, hcases⟩ := change_cases htrip name request
    rw [h]
    rcases hcases with ⟨rfl, hsame, error, rfl, huntold⟩ | ⟨rfl, hafter, hresult⟩
    · refine ⟨hhonest, hsame.trans hr.replayed, hr.blank,
        fun trip horigin => (hr.shown trip horigin).mono rfl rfl List.suffix_rfl, ?_⟩
      rintro trip ⟨⟩
      refine ⟨rfl, fun _ hok => (nomatch hok), fun hreports => ?_⟩
      have hsaved : error.saved = true := hreports
      rw [huntold hr.honest] at hsaved
      cases hsaved
    · have hreplayed : repository.undisturbed =
          first.replay (⟨name, request⟩ :: dialogue.made) := by
        rw [hafter, hr.replayed]
        rfl
      refine ⟨hhonest, hreplayed, hr.blank,
        fun trip horigin => (hr.shown trip horigin).mono rfl rfl (List.suffix_cons _ _), ?_⟩
      rintro trip ⟨⟩
      refine ⟨rfl, fun graph hok => ?_, fun _ => ⟨⟨name, request⟩, ?_, rfl⟩⟩
      · rcases hresult with ⟨records, hrecords, rfl⟩ | ⟨cause, rfl⟩
        · have hheld := Repository.records?_of_undisturbed hreplayed name
          exact ⟨records, hheld.symm.trans hrecords, (Except.ok.inj hok).symm⟩
        · cases hok
      · rw [unseen_of_made hr.goes_back]
        exact List.mem_cons_self

/-- What comes in leaves the record right. -/
theorem Recorded.deliver (hr : dialogue.Recorded first) : dialogue.deliver.Recorded first := by
  cases htrip : dialogue.trip with
  | none =>
    rw [deliver_of_idle htrip]
    exact hr
  | some trip =>
    obtain ⟨hbasis, hgraphs, _⟩ := hr.under_way trip htrip
    rcases deliver_cases htrip with
      ⟨session, graph, hresult, hshown, h, hscheme, hgraph, _⟩ |
      ⟨session, error, hresult, _, h, hscheme, hgraph, _⟩ | ⟨session, _, h, hout⟩
    · have hbrings := Trip.brings_of_ok hresult
      rw [h]
      refine ⟨hr.honest, hr.replayed, fun hnone => ?_, fun origin horigin => ?_, ?_⟩
      · rw [origin?_hear_of_brings hbrings] at hnone
        cases hnone
      · rw [origin?_hear_of_brings hbrings] at horigin
        obtain rfl := Option.some.inj horigin
        obtain ⟨records, hrecords, hg⟩ := hgraphs graph hresult
        refine ⟨hscheme.trans hshown, hbasis ▸ List.suffix_rfl, records, ?_, hgraph.trans hg⟩
        rw [hbasis]
        exact hrecords
      · rintro _ ⟨⟩
    · have hnot := Trip.brings_of_error hresult
      rw [h]
      refine ⟨hr.honest, hr.replayed, fun hnone => ?_, fun origin horigin => ?_, ?_⟩
      · rw [origin?_hear_of_not_brings hnot] at hnone
        exact hgraph.trans (hr.blank hnone)
      · rw [origin?_hear_of_not_brings hnot] at horigin
        exact (hr.shown origin horigin).mono hscheme hgraph List.suffix_rfl
      · rintro _ ⟨⟩
    · rw [h]
      obtain ⟨honest, hreplayed, hblank, hshown, _⟩ := hr.congr hout hr.honest rfl
      refine ⟨honest, hreplayed, hblank,
        fun origin horigin => (hshown origin horigin).mono rfl rfl List.suffix_rfl, ?_⟩
      rintro _ ⟨⟩

/-- Every step leaves the record right. -/
theorem Recorded.step (hr : dialogue.Recorded first) (step : Step) :
    (dialogue.step step).Recorded first := by
  cases step with
  | turnTo scheme => exact hr.turnTo scheme
  | user action =>
    obtain ⟨session, h, hout⟩ := dialogue.user_eq action
    show (dialogue.user action).Recorded first
    rw [h]
    exact hr.congr hout hr.honest rfl
  | load name => exact hr.load name
  | change name request => exact hr.change name request
  | deliver => exact hr.deliver
  | failChange error untold =>
    refine hr.congr rfl ?_ rfl
    rintro waiting ⟨⟩
    exact untold
  | failFetch error => exact hr.congr rfl hr.honest rfl

end Recorded

section Marked

/-- What shows a graph that comes from nowhere and is not marked has no mark to account for. -/
theorem marked_of_blank (hstale : dialogue.session.stale = false) (hheard : dialogue.heard = []) :
    dialogue.Marked := by
  have hsince : dialogue.sinceLoad = [] := by
    unfold sinceLoad
    rw [hheard]
    rfl
  have hnot : ¬dialogue.Reported := by
    rintro ⟨_, mem, _⟩
    rw [hsince] at mem
    cases mem
  have horigin : dialogue.origin? = none := by
    unfold origin?
    rw [hheard]
    rfl
  refine ⟨?_, fun hs => ?_, fun hsome => ?_⟩
  · rw [hstale]
    exact iff_of_false Bool.false_ne_true hnot
  · rw [hstale] at hs
    cases hs
  · rw [horigin] at hsome
    cases hsome

/-- What shows the same leaves the marks right. -/
theorem Marked.congr (hm : dialogue.Marked) {session : Session} {repository : Repository}
    (hout : session.outlook = dialogue.session.outlook) :
    { dialogue with session, repository }.Marked := by
  obtain ⟨hscheme, _, hstale⟩ := Session.outlook_eq_iff.mp hout
  have hlags : { dialogue with session, repository }.Lags ↔ dialogue.Lags :=
    lags_congr hscheme rfl rfl
  refine ⟨?_, fun hs => ?_, fun horigin hlag => ?_⟩
  · rw [hstale]
    exact hm.stale_iff
  · exact (hm.cause_of_stale (hstale.symm.trans hs)).imp_left hlags.mpr
  · rcases hm.stale_of_lags horigin (hlags.mp hlag) with hs | ⟨trip, htrip, hs, htells⟩
    · exact Or.inl (hstale.trans hs)
    · exact Or.inr ⟨trip, htrip, hscheme.trans hs, htells⟩

/-- While nothing is under way, a graph that lags behind counts as out of date. -/
theorem Marked.stale_of_idle (hm : dialogue.Marked) (htrip : dialogue.trip = none)
    (horigin : dialogue.origin?.isSome = true) (hlag : dialogue.Lags) :
    dialogue.session.stale = true := by
  rcases hm.stale_of_lags horigin hlag with hs | ⟨trip, hsome, _⟩
  · exact hs
  · rw [htrip] at hsome
    cases hsome

/-- Asking for a scheme leaves the marks right. -/
theorem Marked.load (hm : dialogue.Marked) (name : String) : (dialogue.load name).Marked := by
  cases htrip : dialogue.trip with
  | some trip =>
    rw [load_of_busy htrip]
    exact hm
  | none =>
    obtain ⟨result, repository, h, _⟩ := load_cases htrip name
    rw [h]
    exact ⟨hm.stale_iff, hm.cause_of_stale,
      fun horigin hlag => Or.inl (hm.stale_of_idle htrip horigin hlag)⟩

/-- Asking for a change leaves the marks right: if it is made, what is under way is going to tell
of it. -/
theorem Marked.change (hm : dialogue.Marked) (hr : dialogue.Recorded first) (name : String)
    (request : ParentChange) : (dialogue.change name request).Marked := by
  cases htrip : dialogue.trip with
  | some trip =>
    rw [change_of_busy htrip]
    exact hm
  | none =>
    obtain ⟨result, repository, made, h, _, hcases⟩ := change_cases htrip name request
    rw [h]
    rcases hcases with ⟨rfl, _⟩ | ⟨rfl, _, hresult⟩
    · exact ⟨hm.stale_iff, hm.cause_of_stale,
        fun horigin hlag => Or.inl (hm.stale_of_idle htrip horigin hlag)⟩
    · have htells : Trip.tells ⟨name, ⟨some request, result⟩, ⟨name, request⟩ :: dialogue.made⟩ =
          true := by
        rcases hresult with ⟨records, _, rfl⟩ | ⟨cause, rfl⟩ <;> rfl
      have hlags := lags_of_made hr.goes_back ⟨name, request⟩ repository
      refine ⟨hm.stale_iff, fun hs => ?_, fun horigin hlag => ?_⟩
      · exact (hm.cause_of_stale hs).imp_left fun hlag => (hlags _).mpr (Or.inr hlag)
      · rcases (hlags _).mp hlag with hscheme | hbefore
        · exact Or.inr ⟨_, rfl, hscheme, htells⟩
        · exact Or.inl (hm.stale_of_idle htrip horigin hbefore)

/-- A graph that comes in leaves the marks right: it goes back to all changes. -/
theorem Marked.bring (hm : dialogue.Marked) {session : Session} {trip : Trip} {graph : ConceptGraph}
    (hresult : trip.answer.result = .ok graph) (hbasis : trip.basis = dialogue.made)
    (hstale : session.stale = (trip.answer.settled.isSome && dialogue.session.stale)) :
    (dialogue.hear trip session).Marked := by
  have hbrings := Trip.brings_of_ok hresult
  have horigin : (dialogue.hear trip session).origin? = some trip :=
    origin?_hear_of_brings hbrings
  have hall : (dialogue.hear trip session).basis = dialogue.made := by
    unfold basis
    rw [horigin]
    exact hbasis
  refine ⟨?_, fun hs => Or.inr ⟨trip, horigin, ?_⟩, fun _ hlag => absurd hlag (not_lags_of_eq hall)⟩
  · rw [session_hear, hstale]
    cases hsettled : trip.answer.settled with
    | none =>
      have hloads : trip.loads = true := by
        unfold Trip.loads
        rw [hsettled, hbrings]
        rfl
      exact iff_of_false Bool.false_ne_true (not_reported_hear_of_loads hloads)
    | some request =>
      have hloads : trip.loads = false := by
        unfold Trip.loads
        rw [hsettled]
        rfl
      rw [reported_hear_iff hloads, Trip.reports_of_ok hresult, ← hm.stale_iff]
      simp
  · rw [session_hear, hstale, Bool.and_eq_true] at hs
    exact hs.1

/-- An error that comes in for the scheme shown leaves the marks right. -/
theorem Marked.refuse (hm : dialogue.Marked) {session : Session} {trip : Trip}
    {error : RequestError} (hresult : trip.answer.result = .error error)
    (htrip : dialogue.trip = some trip) (hshown : dialogue.session.scheme = some trip.scheme)
    (htold : trip.reports = true → ∃ made ∈ dialogue.unseen, made.scheme = trip.scheme)
    (hscheme : session.scheme = dialogue.session.scheme)
    (hstale : session.stale = (dialogue.session.stale || trip.reports)) :
    (dialogue.hear trip session).Marked := by
  have hnot := Trip.brings_of_error hresult
  have horigin : (dialogue.hear trip session).origin? = dialogue.origin? :=
    origin?_hear_of_not_brings hnot
  have hlags : (dialogue.hear trip session).Lags ↔ dialogue.Lags := lags_congr hscheme rfl horigin
  have hmarked : session.stale = true ↔ dialogue.session.stale = true ∨ trip.reports = true := by
    rw [hstale, Bool.or_eq_true]
  refine ⟨?_, fun hs => ?_, fun hsome hlag => Or.inl (hmarked.mpr ?_)⟩
  · rw [reported_hear_iff (Trip.loads_of_not_brings hnot), ← hm.stale_iff, or_comm]
    exact hmarked
  · rcases hmarked.mp hs with hbefore | hreports
    · refine (hm.cause_of_stale hbefore).imp hlags.mpr fun hfollows => ?_
      unfold FollowsChange
      rw [horigin]
      exact hfollows
    · obtain ⟨made, mem, hmade⟩ := htold hreports
      exact Or.inl (hlags.mpr ⟨made, mem, hmade ▸ hshown⟩)
  · rw [horigin] at hsome
    rcases hm.stale_of_lags hsome (hlags.mp hlag) with hbefore | ⟨under, hunder, _, htells⟩
    · exact Or.inl hbefore
    · rw [htrip] at hunder
      obtain rfl := Option.some.inj hunder
      unfold Trip.tells at htells
      rw [hnot, Bool.false_or] at htells
      exact Or.inr htells

/-- What comes in for another scheme leaves the marks right. -/
theorem Marked.ignore (hm : dialogue.Marked) {session : Session} {trip : Trip}
    (htrip : dialogue.trip = some trip) (hother : dialogue.session.scheme ≠ some trip.scheme)
    (hout : session.outlook = dialogue.session.outlook) :
    { dialogue with session, trip := none }.Marked := by
  obtain ⟨hscheme, _, hstale⟩ := Session.outlook_eq_iff.mp hout
  have hlags : { dialogue with session, trip := none }.Lags ↔ dialogue.Lags :=
    lags_congr hscheme rfl rfl
  refine ⟨?_, fun hs => ?_, fun hsome hlag => Or.inl (hstale.trans ?_)⟩
  · rw [hstale]
    exact hm.stale_iff
  · exact (hm.cause_of_stale (hstale.symm.trans hs)).imp_left hlags.mpr
  · rcases hm.stale_of_lags hsome (hlags.mp hlag) with hbefore | ⟨under, hunder, hs, _⟩
    · exact hbefore
    · rw [htrip] at hunder
      obtain rfl := Option.some.inj hunder
      exact absurd hs hother

/-- What comes in leaves the marks right. -/
theorem Marked.deliver (hm : dialogue.Marked) (hr : dialogue.Recorded first) :
    dialogue.deliver.Marked := by
  cases htrip : dialogue.trip with
  | none =>
    rw [deliver_of_idle htrip]
    exact hm
  | some trip =>
    obtain ⟨hbasis, _, htold⟩ := hr.under_way trip htrip
    rcases deliver_cases htrip with
      ⟨session, graph, hresult, _, h, _, _, hstale⟩ |
      ⟨session, error, hresult, hshown, h, hscheme, _, hstale⟩ | ⟨session, hother, h, hout⟩
    · rw [h]
      exact hm.bring hresult hbasis hstale
    · rw [h]
      exact hm.refuse hresult htrip hshown htold hscheme hstale
    · rw [h]
      exact hm.ignore htrip hother hout

/-- Every step leaves the marks right. -/
theorem Marked.step (hm : dialogue.Marked) (hr : dialogue.Recorded first) (step : Step) :
    (dialogue.step step).Marked := by
  cases step with
  | turnTo scheme => exact marked_of_blank rfl rfl
  | user action =>
    obtain ⟨session, h, hout⟩ := dialogue.user_eq action
    show (dialogue.user action).Marked
    rw [h]
    exact hm.congr hout
  | load name => exact hm.load name
  | change name request => exact hm.change hr name request
  | deliver => exact hm.deliver hr
  | failChange error untold => exact hm.congr rfl
  | failFetch error => exact hm.congr rfl

end Marked

/-- Every run leaves the record and the marks right. -/
theorem recorded_and_marked_run (hr : dialogue.Recorded first) (hm : dialogue.Marked)
    (steps : List Step) : (dialogue.run steps).Recorded first ∧ (dialogue.run steps).Marked := by
  induction steps generalizing dialogue with
  | nil => exact ⟨hr, hm⟩
  | cons step rest ih => exact ih (hr.step step) (hm.step hr step)

/-- In every run of a new session with an honest repository, in which one thing is asked for at a
time: the changes recorded lead to what the repository holds, and the graph that came in last for
the scheme shown since it was turned to is shown, which is that of the records after the changes
that it goes back to. It counts as out of date exactly if a change was reported since the last load.
It then lags behind, or it came with the answer to a change; and while nothing is under way, it
counts as out of date wherever it lags behind. A graph that comes in for the scheme shown is that of
the records held, so it does not lag behind; but unless it comes with a load, it counts as out of
date if the one before did. -/
theorem stale_iff_reported (settings : Settings) (honest : first.Honest) (steps : List Step)
    (hrun : dialogue = (start settings first).run steps) :
    dialogue.repository.undisturbed = first.replay dialogue.made ∧
      (dialogue.origin? = none → dialogue.session.graph = ConceptGraph.empty) ∧
      (∀ trip, dialogue.origin? = some trip → dialogue.session.scheme = some trip.scheme ∧
        trip.basis <:+ dialogue.made ∧
        ∃ records, (first.replay trip.basis).records? trip.scheme = some records ∧
          dialogue.session.graph = ConceptGraph.ofRecords records) ∧
      (dialogue.session.stale = true ↔ dialogue.Reported) ∧
      (dialogue.session.stale = true → dialogue.Lags ∨ dialogue.FollowsChange) ∧
      (dialogue.trip = none → dialogue.origin?.isSome = true →
        (dialogue.session.stale = true ↔
          dialogue.Lags ∨ dialogue.FollowsChange ∧ dialogue.Reported)) ∧
      ∀ trip graph, dialogue.trip = some trip → trip.answer.result = .ok graph →
        dialogue.session.scheme = some trip.scheme →
        dialogue.deliver.session.graph = graph ∧
          (∃ records, dialogue.deliver.repository.records? trip.scheme = some records ∧
            graph = ConceptGraph.ofRecords records) ∧
          ¬dialogue.deliver.Lags ∧
          dialogue.deliver.session.stale =
            (trip.answer.settled.isSome && dialogue.session.stale) := by
  obtain ⟨hr, hm⟩ : dialogue.Recorded first ∧ dialogue.Marked :=
    hrun ▸ recorded_and_marked_run (recorded_start settings honest) (marked_of_blank rfl rfl) steps
  refine ⟨hr.replayed, hr.blank, fun trip horigin => ?_, hm.stale_iff, hm.cause_of_stale,
    fun hidle hsome => ⟨fun hs => ?_, ?_⟩, fun trip graph htrip hresult hscheme => ?_⟩
  · obtain ⟨hs, hback, hg⟩ := hr.shown trip horigin
    exact ⟨hs, hback, hg⟩
  · exact (hm.cause_of_stale hs).imp_right fun hfollows => ⟨hfollows, hm.stale_iff.mp hs⟩
  · rintro (hlag | ⟨_, hreported⟩)
    · exact hm.stale_of_idle hidle hsome hlag
    · exact hm.stale_iff.mpr hreported
  · obtain ⟨hbasis, hgraphs, _⟩ := hr.under_way trip htrip
    obtain ⟨records, hrecords, hg⟩ := hgraphs graph hresult
    have hheld := Repository.records?_of_undisturbed hr.replayed trip.scheme
    rcases deliver_cases htrip with
      ⟨session, brought, hok, _, h, _, hgraph, hstale⟩ | ⟨_, _, herror, _⟩ | ⟨_, hother, _⟩
    · obtain rfl : graph = brought := Except.ok.inj (hresult.symm.trans hok)
      rw [h]
      refine ⟨hgraph, ⟨records, hheld.trans hrecords, hg⟩, ?_, hstale⟩
      apply not_lags_of_eq
      unfold basis
      rw [origin?_hear_of_brings (Trip.brings_of_ok hresult)]
      exact hbasis
    · rw [hresult] at herror
      cases herror
    · exact absurd hscheme hother

/-- A run in which two changes are made, and the scheme cannot be fetched after the first. -/
def savedTwice : List Step :=
  [.turnTo "animals", .load "animals", .deliver,
    .user (.grab "dogs" "animals/mammals/canines/dogs"),
    .user (.drop (some (.concept "birds")) false),
    .failFetch (.unavailable "timeout"),
    .change "animals" ⟨"dogs", some "birds", some "canines"⟩, .deliver,
    .user (.grab "wolves" "animals/mammals/canines/wolves"),
    .user (.drop (some (.concept "birds")) false),
    .change "animals" ⟨"wolves", some "birds", some "canines"⟩, .deliver]

/-- The dialogue with the animals as shipped, before anything is asked. -/
def animalsAtStart : Dialogue := start Samples.settings Samples.repository

/-- After the first change the graph counts as out of date, as it lags behind. After the second it
still does, as it came with the answer to a change and the first one was reported. -/
theorem stale_iff_reported_twice :
    Samples.repository.Honest ∧
      ((animalsAtStart.run (savedTwice.take 8)).trip = none ∧
        (animalsAtStart.run (savedTwice.take 8)).origin?.isSome = true ∧
        (animalsAtStart.run (savedTwice.take 8)).Lags ∧
        (animalsAtStart.run (savedTwice.take 8)).session.stale = true) ∧
      (animalsAtStart.run savedTwice).FollowsChange ∧
        (animalsAtStart.run savedTwice).Reported ∧
        (animalsAtStart.run savedTwice).session.stale = true := by
  have honest : Samples.repository.Honest := Repository.honest_of_none rfl
  have hidle : (animalsAtStart.run (savedTwice.take 8)).trip = none :=
    Option.isNone_iff_eq_none.mp (by decide +kernel)
  have hsome : (animalsAtStart.run (savedTwice.take 8)).origin?.isSome = true := by decide +kernel
  have hlags : (animalsAtStart.run (savedTwice.take 8)).Lags := by decide +kernel
  have hfollows : (animalsAtStart.run savedTwice).FollowsChange := by decide +kernel
  have hreported : (animalsAtStart.run savedTwice).Reported := by decide +kernel
  obtain ⟨_, _, _, _, _, hfirst, _⟩ :=
    stale_iff_reported Samples.settings honest (savedTwice.take 8) rfl
  obtain ⟨_, _, _, hsecond, _⟩ := stale_iff_reported Samples.settings honest savedTwice rfl
  exact ⟨honest, ⟨hidle, hsome, hlags, (hfirst hidle hsome).mpr (Or.inl hlags)⟩, hfollows,
    hreported, hsecond.mpr hreported⟩

/-- After the second change the graph is that of the records held and no change is missing from it,
and yet it counts as out of date. -/
theorem stale_though_all_shown :
    (animalsAtStart.run savedTwice).trip.isNone = true ∧
      (animalsAtStart.run savedTwice).session.scheme = some "animals" ∧
      (animalsAtStart.run savedTwice).repository.records? "animals" =
        some (Repository.amend
          (Repository.amend Samples.animals ⟨"dogs", some "birds", some "canines"⟩)
          ⟨"wolves", some "birds", some "canines"⟩) ∧
      (animalsAtStart.run savedTwice).session.graph =
        ConceptGraph.ofRecords (Repository.amend
          (Repository.amend Samples.animals ⟨"dogs", some "birds", some "canines"⟩)
          ⟨"wolves", some "birds", some "canines"⟩) ∧
      ¬(animalsAtStart.run savedTwice).Lags ∧
      (animalsAtStart.run savedTwice).session.stale = true := by
  decide +kernel

end Dialogue

end Thesaurus
