import PipelineFusion.Proofs.Optimizer.Equivalence
import PipelineFusion.Proofs.Plan.Events
import PipelineFusion.Proofs.Rule.Wall

/-!
# What external effects see

A step puts one leaf without effects in the place of several, so the plan that it leads to shadows
the plan that it starts from.  Push by push, the external effects of an optimized plan are thus
handed the values that those of the plan are handed, in the same order.
-/

namespace PipelineFusion

namespace Plan

variable {c : Classifier} {depth : Nat} {p q : Plan} {a : Applied} {as : List Applied}

theorem effects_eq_zero (h : ∀ node ∈ p, ¬ c.IsWall node) : p.effects c = 0 := by
  induction p with
  | nil => rfl
  | cons node p ih =>
      rw [List.forall_mem_cons] at h
      obtain ⟨stage, purity, rfl, hclass⟩ := Classifier.not_isWall_iff.1 h.1
      have hquiet : c.classify (.leaf stage purity) ≠ .opaqueEffect := by
        rcases hclass with hclass | ⟨hclass, -⟩ <;> simp [hclass]
      rw [effects_cons, ih h.2, Node.effects, if_neg hquiet]

theorem Step.exists_shadows (h : Step c.Admits depth p a q) : ∃ R, q.Shadows c p R := by
  induction h with
  | @here depth window hit h =>
      obtain ⟨hspan, hnode⟩ := Rule.not_isWall_of_fuse h.found h.fused
      obtain ⟨ts, hsimulates⟩ := Rule.exists_simulates_of_fuse h.fused
      have hone : effects c [hit.replacement] = 0 := effects_eq_zero (by simpa using hnode)
      have hwindow := (Shadows.of_simulates hsimulates hone (effects_eq_zero hspan)).append
        (.refl c (window.drop hit.length))
      rw [List.take_append_drop] at hwindow
      exact ⟨_, hwindow⟩
  | later node _ ih =>
      obtain ⟨R, hrest⟩ := ih
      exact ⟨_, (Shadows.refl c [node]).append hrest⟩
  | left mode right purity rest _ ih =>
      obtain ⟨R, hleft⟩ := ih
      exact ⟨_, (hleft.branch mode purity (.refl c right)).append (.refl c rest)⟩
  | right mode left purity rest _ ih =>
      obtain ⟨R, hright⟩ := ih
      exact ⟨_, ((Shadows.refl c left).branch mode purity hright).append (.refl c rest)⟩

theorem Derives.exists_shadows (h : Derives c.Admits depth p as q) : ∃ R, q.Shadows c p R := by
  induction h with
  | refl p => exact ⟨_, .refl c p⟩
  | step hstep _ ih =>
      obtain ⟨R, hq⟩ := hstep.exists_shadows
      obtain ⟨S, hr⟩ := ih
      exact ⟨_, hq.trans hr⟩

end Plan

namespace Runner

/-- The events of one push. -/
def eventsOfPush (c : Classifier) (r : Runner) (x : Value) : List Event :=
  (r.plan.observe c 0 ⟨r.states, []⟩ [x]).1.events

/-- The events of each push. -/
def events (c : Classifier) : Runner → List Value → List (List Event)
  | _, [] => []
  | r, x :: xs => r.eventsOfPush c x :: (r.push x).1.events c xs

variable {c : Classifier} {r s : Runner} {R : List Value → List Value → Prop}

theorem eventsOfPush_eq (h : r.plan.Shadows c s.plan R) (hstates : R r.states s.states)
    (x : Value) :
    r.eventsOfPush c x = s.eventsOfPush c x ∧ R (r.push x).1.states (s.push x).1.states := by
  obtain ⟨⟨hnext, hevents⟩, -⟩ := h.lockstep 0 ⟨r.states, []⟩ ⟨s.states, []⟩ [x] ⟨hstates, rfl⟩
  refine ⟨hevents, ?_⟩
  have hr := Plan.follows_observe c r.plan 0 ⟨r.states, []⟩ [x]
  have hs := Plan.follows_observe c s.plan 0 ⟨s.states, []⟩ [x]
  rw [push, push, hr, hs]
  exact hnext

theorem events_eq (h : r.plan.Shadows c s.plan R) (hstates : R r.states s.states)
    (inputs : List Value) : r.events c inputs = s.events c inputs := by
  induction inputs generalizing r s with
  | nil => rfl
  | cons x xs ih =>
      obtain ⟨hevents, hnext⟩ := eventsOfPush_eq h hstates x
      have hrest : (r.push x).1.events c xs = (s.push x).1.events c xs := ih h hnext
      rw [events, events, hevents, hrest]

end Runner

/-- An optimized plan has as many external effects as the plan, and push by push they are handed
the same values in the same order. -/
theorem Optimizer.effects_and_events_optimize (o : Optimizer) (plan : Plan) :
    (o.optimize plan).effects o.classifier = plan.effects o.classifier ∧
      ∀ inputs : List Value, (Runner.start (o.optimize plan)).events o.classifier inputs =
        (Runner.start plan).events o.classifier inputs := by
  obtain ⟨as, hderives, -, -⟩ := o.run_derives plan
  obtain ⟨R, hshadows⟩ := (Takes.derives hderives).exists_shadows
  refine ⟨hshadows.effects_eq, ?_⟩
  intro inputs
  exact Runner.events_eq hshadows hshadows.initial inputs

end PipelineFusion
