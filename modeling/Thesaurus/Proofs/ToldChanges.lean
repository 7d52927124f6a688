import Thesaurus.Page.TreeView
import Thesaurus.Proofs.SessionRun

/-!
# Changes of a session that are told

Views look at a session again when they are told that it has changed. Most actions tell it. A drag
that begins, hovers or ends goes on without a word, and nothing that a row shows depends on it. New
trees are told apart from old ones by their edition, so trees of one edition are the same.
-/

namespace Thesaurus

namespace Session

variable {session other : Session}

/-- What rows see of a session. -/
def look (session : Session) : Expansion × TextSet × Query :=
  (session.expansion, session.pending, session.query)

/-- What changes from one session to a later one: trees that are not made anew are the same, and
unless the change is told, rows see nothing of it. -/
structure Leads (told : Bool) (before after : Session) : Prop where
  /-- The trees get no older. -/
  edition_le : before.edition ≤ after.edition
  /-- They are the same in the same edition. -/
  forest_eq : before.edition = after.edition → after.forest = before.forest
  /-- A change that is not told is not seen. -/
  unseen : told = false → after.look = before.look ∧ after.edition = before.edition

/-- Another drag is not seen. -/
theorem leads_drag (told : Bool) (session : Session) (drag : Drag) :
    Leads told session { session with drag } where
  edition_le := Nat.le_refl _
  forest_eq _ := rfl
  unseen _ := ⟨rfl, rfl⟩

/-- A session leads to itself. -/
theorem Leads.refl (told : Bool) (session : Session) : Leads told session session :=
  leads_drag told session session.drag

/-- One change after another is told if one of them is. -/
theorem Leads.trans {told later : Bool} {last : Session} (h : Leads told session other)
    (hnext : Leads later other last) : Leads (told || later) session last where
  edition_le := Nat.le_trans h.edition_le hnext.edition_le
  forest_eq he := by
    have hfirst : session.edition = other.edition :=
      Nat.le_antisymm h.edition_le (he ▸ hnext.edition_le)
    rw [hnext.forest_eq (hfirst.symm.trans he), h.forest_eq hfirst]
  unseen hquiet := by
    obtain ⟨htold, hlater⟩ := Bool.or_eq_false_iff.mp hquiet
    obtain ⟨hlook, hedition⟩ := h.unseen htold
    obtain ⟨hlook', hedition'⟩ := hnext.unseen hlater
    exact ⟨hlook'.trans hlook, hedition'.trans hedition⟩

/-- Trees that are made anew are of a later edition. -/
theorem leads_renewed (he : other.edition = session.edition + 1) : Leads true session other where
  edition_le := he ▸ Nat.le_succ _
  forest_eq h := absurd (h.trans he) (Nat.ne_of_lt (Nat.lt_succ_self _))
  unseen := nofun

/-- What is told without new trees leads on. -/
theorem leads_told (he : other.edition = session.edition) (hf : other.forest = session.forest) :
    Leads true session other where
  edition_le := Nat.le_of_eq he.symm
  forest_eq _ := hf
  unseen := nofun

/-- Every action of a session leads on, if it is told. -/
theorem leads_act (session : Session) (action : Action) :
    Leads true session (session.act action) := by
  cases action with
  | turnTo scheme => exact leads_renewed rfl
  | receiveScheme scheme answer =>
    show Leads true session (session.receiveScheme scheme answer).2
    rcases session.receiveScheme_cases scheme answer with
      ⟨_, h⟩ | ⟨graph, expansion, _, _, h⟩ | ⟨error, _, _, h⟩
    · rw [h]
      exact Leads.refl true session
    · rw [h]
      exact leads_renewed rfl
    · rw [h]
      exact leads_told rfl rfl
  | receiveAnswer scheme change answer =>
    show Leads true session (session.receiveAnswer scheme change answer).2
    rcases session.receiveAnswer_cases scheme change answer with
      ⟨graph, _, _, h⟩ | ⟨graph, _, _, h⟩ | ⟨error, _, h⟩
    · rw [h]
      exact leads_renewed rfl
    · rw [h]
      exact leads_told rfl rfl
    · rw [h]
      exact leads_told rfl rfl
  | setGraph graph => exact leads_renewed rfl
  | search typed => exact leads_renewed rfl
  | toggle path => exact leads_told rfl rfl
  | expandAll => exact leads_told rfl rfl
  | collapseAll => exact leads_told rfl rfl
  | select id => exact leads_told rfl rfl
  | revealSelected =>
    obtain ⟨expansion, h⟩ := session.revealSelected_eq
    show Leads true session session.revealSelected.2
    rw [h]
    exact leads_told rfl rfl
  | dismissError => exact leads_told rfl rfl
  | grab id path =>
    show Leads true session (session.grab id path)
    unfold grab
    split
    · exact Leads.refl true session
    · exact leads_told rfl rfl
  | hover place modifier => exact leads_told rfl rfl
  | drop place modifier =>
    show Leads true session (session.drop place modifier).2
    rcases session.drop_cases place modifier with ⟨_, _, _, h⟩ | ⟨_, _, _, h⟩ | ⟨_, _, h⟩
    · rw [h]
      exact leads_told rfl rfl
    · rw [h]
      exact leads_told rfl rfl
    · rw [h]
      exact leads_told rfl rfl
  | letGo => exact leads_told rfl rfl

end Session

namespace Page

/-- Handlers that keep two states related do so along a whole line. -/
theorem dispatch_rel {α σ τ : Type} (run : α → Event → σ → Reaction × σ)
    (other : α → Event → τ → Reaction × τ) {event : Event} (r : σ → τ → Prop)
    (hrun : ∀ action first second, r first second →
      (run action event first).1 = (other action event second).1 ∧
        r (run action event first).2 (other action event second).2)
    (line : List (Handlers α)) (first : σ) (second : τ) (h : r first second) :
    (dispatch run event line first).1 = (dispatch other event line second).1 ∧
      r (dispatch run event line first).2 (dispatch other event line second).2 := by
  induction line generalizing first second with
  | nil => exact ⟨rfl, h⟩
  | cons handlers above ih =>
    unfold dispatch
    dsimp only
    -- the handlers of the element itself, one by one
    have helement := List.foldl_rel
      (l := handlers.filter (·.1 == event.kind))
      (f := fun (state : Reaction × σ) handler =>
        (state.1.also { (run handler.2 event state.2).1 with handlers := 1 },
          (run handler.2 event state.2).2))
      (g := fun (state : Reaction × τ) handler =>
        (state.1.also { (other handler.2 event state.2).1 with handlers := 1 },
          (other handler.2 event state.2).2))
      (r := fun state next => state.1 = next.1 ∧ r state.2 next.2)
      (a := (({} : Reaction), first)) (b := (({} : Reaction), second)) ⟨rfl, h⟩
      fun handler _ state next hstate => by
        obtain ⟨hsame, hr⟩ := hrun handler.2 state.2 next.2 hstate.2
        refine ⟨?_, hr⟩
        dsimp only
        rw [hstate.1, hsame]
    obtain ⟨hsame, hr⟩ := helement
    rw [hsame]
    split
    · exact ⟨rfl, hr⟩
    · obtain ⟨hlater, hrest⟩ := ih _ _ hr
      refine ⟨?_, hrest⟩
      dsimp only
      rw [hlater]

/-- Whether the session is told to have changed when a handler has run. -/
def TreeAction.isTold : TreeAction → Bool
  | .drop .. => true
  | .toggle _ => true
  | .select _ => true
  | _ => false

namespace TreeView

variable {view : TreeView}

/-- Do what a handler stands for, and keep in mind whether the session is told to have changed. -/
def actTold (action : TreeAction) (event : Event) (state : TreeView × Bool) :
    Reaction × TreeView × Bool :=
  let (reaction, next) := act action event state.1
  (reaction, next, state.2 || action.isTold)

/-- Whether an event at a place tells that the session has changed. -/
def tells (view : TreeView) (place : Place TreeAction) (event : Event) : Bool :=
  (dispatch actTold event place.line (view, false)).2.2

/-- A handler leads the session on; what it does not tell is not seen. -/
theorem leads_act (action : TreeAction) (event : Event) (view : TreeView) :
    Session.Leads action.isTold view.session (act action event view).2.session := by
  cases action with
  | hover place row => exact Session.leads_drag false view.session _
  | unhover row => exact Session.Leads.refl false view.session
  | drop place row => exact Session.leads_act view.session (.drop (some place) event.alt)
  | grab id path =>
    show Session.Leads false view.session _
    dsimp only [act]
    cases hp : view.session.isPending id with
    | true => exact Session.Leads.refl false view.session
    | false =>
      rw [if_neg Bool.false_ne_true, Session.grab_of_idle hp]
      exact Session.leads_drag false view.session _
  | letGo => exact Session.leads_drag false view.session none
  | toggle path => exact Session.leads_act view.session (.toggle path)
  | select id => exact Session.leads_act view.session (.select (some id))

/-- An event leads the session on; what it does not tell is not seen. -/
theorem leads_handle (view : TreeView) (place : Place TreeAction) (event : Event) :
    Session.Leads (view.tells place event) view.session (view.handle place event).2.session := by
  have hstep : ∀ action (now : TreeView) (state : TreeView × Bool),
      now = state.1 ∧ Session.Leads state.2 view.session now.session →
        (act action event now).1 = (actTold action event state).1 ∧
          (act action event now).2 = (actTold action event state).2.1 ∧
            Session.Leads (actTold action event state).2.2 view.session
              (act action event now).2.session := by
    rintro action now state ⟨rfl, hleads⟩
    exact ⟨rfl, rfl, hleads.trans (leads_act action event state.1)⟩
  have hline := dispatch_rel act actTold
    (fun now state => now = state.1 ∧ Session.Leads state.2 view.session now.session) hstep
    place.line view (view, false) ⟨rfl, Session.Leads.refl false view.session⟩
  exact hline.2.2

end TreeView

end Page

end Thesaurus
