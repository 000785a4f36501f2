import PipelineFusion.Proofs.Optimizer.Derivation
import PipelineFusion.Proofs.Plan.Responses
import PipelineFusion.Proofs.Rule.Meaning

/-!
# Optimized plans in operation

Every step puts a node where a span was that it simulates, so a plan is simulated by whatever is
derived from it.  The runner of the derived plan thus answers every push as that of the plan does,
and the states of the plan can be read off from its states at any time.
-/

namespace PipelineFusion

/-! ## Simulation along a derivation -/

namespace Plan

variable {c : Classifier} {depth : Nat} {p q : Plan} {a : Applied} {as : List Applied}

theorem Step.exists_simulates (h : Step c.Admits depth p a q) : ∃ ts, q.Simulates p ts := by
  induction h with
  | @here depth window hit h =>
      obtain ⟨ts, hnode⟩ := Rule.exists_simulates_of_fuse h.fused
      have hwindow := hnode.append (.refl (window.drop hit.length))
      rw [List.take_append_drop] at hwindow
      exact ⟨_, hwindow⟩
  | later node _ ih =>
      obtain ⟨ts, hrest⟩ := ih
      exact ⟨_, (Simulates.refl [node]).append hrest⟩
  | left mode right purity rest _ ih =>
      obtain ⟨ts, hleft⟩ := ih
      exact ⟨_, (hleft.branch mode purity (.refl right)).append (.refl rest)⟩
  | right mode left purity rest _ ih =>
      obtain ⟨ts, hright⟩ := ih
      exact ⟨_, ((Simulates.refl left).branch mode purity hright).append (.refl rest)⟩

theorem Derives.exists_simulates (h : Derives c.Admits depth p as q) :
    ∃ ts, q.Simulates p ts := by
  induction h with
  | refl p => exact ⟨_, .refl p⟩
  | step hstep _ ih =>
      obtain ⟨ts, hq⟩ := hstep.exists_simulates
      obtain ⟨us, hr⟩ := ih
      exact hq.trans hr

end Plan

theorem Optimizer.exists_simulates (o : Optimizer) (plan : Plan) :
    ∃ ts, (o.optimize plan).Simulates plan ts := by
  obtain ⟨as, hderives, -, -⟩ := o.run_derives plan
  exact (Takes.derives hderives).exists_simulates

/-! ## What an optimizer keeps -/

namespace Optimizer

/-- Push by push, an optimized plan gives the outputs of the plan. -/
theorem responses_optimize (o : Optimizer) (plan : Plan) (inputs : List Value) :
    (Runner.start (o.optimize plan)).responses inputs = (Runner.start plan).responses inputs := by
  obtain ⟨ts, hsimulates⟩ := o.exists_simulates plan
  exact (Runner.mirrors_start hsimulates).responses_eq inputs

/-- The scan states of the plan stand in those of the optimized plan, in order, and nested in a way
that does not depend on the inputs. -/
theorem exists_unnest_states_optimize (o : Optimizer) (plan : Plan) :
    ∃ ts : List Nesting, ts.length = (o.optimize plan).scans ∧ ∀ inputs : List Value,
      ((Runner.start (o.optimize plan)).pushAll inputs).1.states.length = ts.length ∧
      unnest ts ((Runner.start (o.optimize plan)).pushAll inputs).1.states =
        ((Runner.start plan).pushAll inputs).1.states := by
  obtain ⟨ts, hsimulates⟩ := o.exists_simulates plan
  refine ⟨ts, hsimulates.length_eq, ?_⟩
  intro inputs
  have hrun := (Runner.mirrors_start hsimulates).pushAll inputs
  exact ⟨hrun.length_eq, hrun.states_eq⟩

end Optimizer
end PipelineFusion
