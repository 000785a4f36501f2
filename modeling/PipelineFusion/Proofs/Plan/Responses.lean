import PipelineFusion.Proofs.Plan.Simulation

/-!
# Responses

A run answers every push with a list of values.  The runner of a plan that simulates another gives
the same responses, and the states of the other can be read off from its states at any time.
-/

namespace PipelineFusion

namespace Runner

/-- What comes out at each push. -/
def responses : Runner → List Value → List (List Value)
  | _, [] => []
  | r, x :: xs => (r.push x).2 :: (r.push x).1.responses xs

theorem flatten_responses (r : Runner) (inputs : List Value) :
    (r.responses inputs).flatten = (r.pushAll inputs).2 := by
  induction inputs generalizing r with
  | nil => rfl
  | cons x xs ih =>
      rw [responses, List.flatten_cons, ih]
      rfl

/-- Two runners in the midst of runs on the same inputs, the first of which simulates the second. -/
structure Mirrors (ts : List Nesting) (r s : Runner) : Prop where
  simulates : r.plan.Simulates s.plan ts
  length_eq : r.states.length = ts.length
  states_eq : unnest ts r.states = s.states

variable {ts : List Nesting} {r s : Runner}

theorem mirrors_start {p q : Plan} (h : q.Simulates p ts) : Mirrors ts (start q) (start p) :=
  ⟨h, h.length_eq.symm, h.initial_eq⟩

theorem Mirrors.push (h : Mirrors ts r s) (x : Value) :
    Mirrors ts (r.push x).1 (s.push x).1 ∧ (r.push x).2 = (s.push x).2 := by
  have hmemory : r.states.length = r.plan.scans := h.length_eq.trans h.simulates.length_eq
  have hflow := h.simulates.flow_eq r.states hmemory [x]
  rw [h.states_eq] at hflow
  refine ⟨⟨h.simulates, ?_, ?_⟩, ?_⟩
  · exact (Plan.length_flow hmemory [x]).trans h.simulates.length_eq.symm
  · exact (congrArg Prod.fst hflow).symm
  · exact (congrArg Prod.snd hflow).symm

theorem Mirrors.pushAll (h : Mirrors ts r s) (inputs : List Value) :
    Mirrors ts (r.pushAll inputs).1 (s.pushAll inputs).1 := by
  induction inputs generalizing r s with
  | nil => exact h
  | cons x xs ih => exact ih (h.push x).1

theorem Mirrors.responses_eq (h : Mirrors ts r s) (inputs : List Value) :
    r.responses inputs = s.responses inputs := by
  induction inputs generalizing r s with
  | nil => rfl
  | cons x xs ih =>
      obtain ⟨hnext, hout⟩ := h.push x
      rw [responses, responses, hout, ih hnext]

end Runner
end PipelineFusion
