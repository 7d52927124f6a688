import Thesaurus.Layout.Simulation

/-!
# What is asked of forces

A layout relies on its forces for little: that they lose no body, and that they leave each body that
is held where it is. The second says of every body whether and where it is held, so the first comes
of it. The simulation keeps to both, as the only bodies it moves are free ones.
-/

namespace Thesaurus

/-- Where a body is held, if it is. -/
def Body.hold? (body : Body) : Option (Float32 × Float32) :=
  if body.anchored then some (body.x, body.y) else none

/-- A body is held somewhere if it is marked as held and is there. -/
theorem Body.hold?_eq_some_iff {body : Body} {place : Float32 × Float32} :
    body.hold? = some place ↔ body.anchored = true ∧ (body.x, body.y) = place := by
  unfold hold?
  split
  · rename_i hmarked
    rw [Option.some.injEq, and_iff_right hmarked]
  · rename_i hfree
    exact iff_of_false nofun fun h => hfree h.1

/-- Whether forces move bodies and add or lose none. -/
def Forces.KeepsBodies (forces : Forces) : Prop :=
  ∀ settings springs dt bodies,
    (forces.advance settings springs dt bodies).length = bodies.length

/-- Whether forces move no body that is held, and hold and free none. -/
def Forces.SparesHeld (forces : Forces) : Prop :=
  ∀ settings springs dt bodies,
    (forces.advance settings springs dt bodies).map Body.hold? = bodies.map Body.hold?

/-- Lists of bodies that are held alike are of one length. -/
theorem length_eq_of_holds_eq {bodies others : List Body}
    (h : bodies.map Body.hold? = others.map Body.hold?) : bodies.length = others.length := by
  have hlength := congrArg List.length h
  rw [List.length_map, List.length_map] at hlength
  exact hlength

/-- Forces that spare what is held keep the bodies. -/
theorem Forces.SparesHeld.keepsBodies {forces : Forces} (h : forces.SparesHeld) :
    forces.KeepsBodies :=
  fun settings springs dt bodies => length_eq_of_holds_eq (h settings springs dt bodies)

namespace Simulation

variable {settings : LayoutSettings} {dt : Float32}

/-- A force speeds a body up and moves it nowhere. -/
theorem hold?_accelerate (force : Force) (body : Body) :
    (force.accelerate settings dt body).hold? = body.hold? := rfl

/-- So does a force that acts on free bodies only. -/
theorem hold?_accelerateFree (force : Force) (body : Body) :
    (force.accelerateFree settings dt body).hold? = body.hold? := by
  unfold Force.accelerateFree
  split
  · rfl
  · exact hold?_accelerate force body

/-- Only free bodies are moved, and they stay free. -/
theorem hold?_move (body : Body) : (move settings dt body).hold? = body.hold? := by
  unfold move
  split
  · rfl
  · rename_i hfree
    unfold Body.hold?
    dsimp only
    rw [if_neg hfree, if_neg hfree]

/-- Bodies that repel each other are held where they were. -/
theorem hold?_repel (body : Body) (others : List Body) :
    (repel settings dt body others).1.hold? = body.hold? ∧
      (repel settings dt body others).2.map Body.hold? = others.map Body.hold? := by
  induction others generalizing body with
  | nil => exact ⟨rfl, rfl⟩
  | cons other rest ih =>
    obtain ⟨hbody, hrest⟩ :=
      ih ((push settings body other).accelerateFree settings dt body)
    simp only [repel, List.map_cons]
    rw [hbody, hrest, hold?_accelerateFree, hold?_accelerateFree]
    exact ⟨rfl, rfl⟩

/-- So none of them is lost. -/
theorem length_repel (body : Body) (others : List Body) :
    (repel settings dt body others).2.length = others.length :=
  length_eq_of_holds_eq (hold?_repel body others).2

/-- A body is held where it was after changes of which none moves it. -/
theorem hold?_foldl {pulled : Body → Nat → Body}
    (h : ∀ body joint, (pulled body joint).hold? = body.hold?) (body : Body) (joints : List Nat) :
    (joints.foldl pulled body).hold? = body.hold? := by
  refine List.foldlRecOn (motive := fun current : Body => current.hold? = body.hold?) joints _ rfl
    fun current hcurrent joint _ => ?_
  exact (h current joint).trans hcurrent

/-- While the bodies are taken in order, each is held where it was. -/
theorem hold?_sweep (springs : List Spring) (moved bodies : List Body) :
    (sweep settings springs dt moved bodies bodies.length).map Body.hold? =
      moved.map Body.hold? ++ bodies.map Body.hold? := by
  -- the bodies left to be taken change with each step, but neither their number nor their holds
  generalize hcount : bodies.length = count
  induction count generalizing moved bodies with
  | zero =>
    rw [List.length_eq_zero_iff] at hcount
    rw [hcount]
    simp only [sweep, List.map_nil, List.append_nil]
  | succ count ih =>
    cases bodies with
    | nil => cases hcount
    | cons body rest =>
      have hrest : rest.length = count := by
        simpa only [List.length_cons, Nat.add_right_cancel_iff] using hcount
      simp only [sweep]
      rw [ih _ _ ((length_repel _ rest).trans hrest), List.map_append, List.map_singleton,
        hold?_move, (hold?_repel _ rest).1, (hold?_repel _ rest).2, hold?_foldl,
        List.append_assoc]
      · rfl
      · intro current joint
        split
        · exact hold?_accelerate _ current
        · rfl

/-- The forces of the simulation spare what is held. -/
theorem forces_sparesHeld : forces.SparesHeld := by
  intro settings springs dt bodies
  show (advance settings (springs.foldl addSpring []) dt bodies).map Body.hold? = _
  unfold advance
  rw [hold?_sweep, List.map_nil, List.nil_append]

/-- So they keep the bodies. -/
theorem forces_keepsBodies : forces.KeepsBodies := forces_sparesHeld.keepsBodies

end Simulation

end Thesaurus
