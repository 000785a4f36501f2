import PipelineFusion.Proofs.Plan.Responses

/-!
# Plans in sequence

A chain that is cut in two runs like two runners in a row, of which the second is pushed what the
first lets out.  A composed branch does the same with its two plans, so it may be replaced by their
nodes wherever it stands.
-/

namespace PipelineFusion

/-! ## Two runners in a row -/

namespace Runner

variable {r s t : Runner}

/-- To push values one after another is to pass them through the plan as one batch. -/
theorem pushAll_eq_flow (h : r.states.length = r.plan.scans) (batch : List Value) :
    r.pushAll batch =
      (⟨r.plan, (Plan.flow r.plan r.states batch).1⟩, (Plan.flow r.plan r.states batch).2) := by
  rw [Plan.flow_eq_feedAll h]
  exact feedAll_simulation (I := fun m : List Value ↦ m.length = r.plan.scans)
    (φ := Runner.mk r.plan) (f := fun m x ↦ Plan.flow r.plan m [x]) (g := push)
    (fun m x hm ↦ Plan.length_flow hm [x]) (fun m x hm ↦ rfl) h batch

theorem pushAll_cons (r : Runner) (x : Value) (xs : List Value) :
    r.pushAll (x :: xs) =
      (((r.push x).1.pushAll xs).1, (r.push x).2 ++ ((r.push x).1.pushAll xs).2) := rfl

theorem pushAll_append (r : Runner) (xs ys : List Value) :
    r.pushAll (xs ++ ys) =
      (((r.pushAll xs).1.pushAll ys).1,
        (r.pushAll xs).2 ++ ((r.pushAll xs).1.pushAll ys).2) :=
  feedAll_append push r xs ys

/-- The runner `t` of a chain in the state of the runners `r` and `s` of its two parts. -/
structure Joins (t r s : Runner) : Prop where
  plan_eq : t.plan = r.plan ++ s.plan
  states_eq : t.states = r.states ++ s.states
  length_first : r.states.length = r.plan.scans
  length_second : s.states.length = s.plan.scans

theorem joins_start (p q : Plan) : Joins (start (p ++ q)) (start p) (start q) :=
  ⟨rfl, Plan.initial_append p q, rfl, rfl⟩

/-- The second runner is pushed, one by one, what the first one lets out. -/
theorem Joins.push (h : Joins t r s) (x : Value) :
    Joins (t.push x).1 (r.push x).1 (s.pushAll (r.push x).2).1 ∧
      (t.push x).2 = (s.pushAll (r.push x).2).2 := by
  have hflow : Plan.flow (r.plan ++ s.plan) (r.states ++ s.states) [x] = _ :=
    Plan.flow_append r.plan s.plan h.length_first [x]
  rw [← h.plan_eq, ← h.states_eq] at hflow
  rw [pushAll_eq_flow h.length_second]
  refine ⟨⟨h.plan_eq, ?_, ?_, ?_⟩, ?_⟩
  · exact congrArg (·.1) hflow
  · exact Plan.length_flow h.length_first [x]
  · exact Plan.length_flow h.length_second (r.push x).2
  · exact congrArg (·.2) hflow

theorem Joins.pushAll (h : Joins t r s) (inputs : List Value) :
    Joins (t.pushAll inputs).1 (r.pushAll inputs).1 (s.pushAll (r.pushAll inputs).2).1 := by
  induction inputs generalizing t r s with
  | nil => exact h
  | cons x xs ih =>
      rw [pushAll_cons t, pushAll_cons r, pushAll_append]
      exact ih (h.push x).1

end Runner

/-! ## Plans that cannot be told apart -/

namespace Plan

variable {p q p' q' : Plan}

/-- The first plan simulates the second state by state. -/
def Matches (q p : Plan) : Prop := q.Simulates p (List.replicate q.scans .whole)

namespace Matches

theorem refl (p : Plan) : p.Matches p := Simulates.refl p

theorem of_flow_eq (hinitial : q.initial = p.initial)
    (hflow : ∀ memory : List Value, memory.length = q.scans → ∀ batch : List Value,
      flow q memory batch = flow p memory batch) : q.Matches p where
  length_eq := List.length_replicate
  initial_eq := (unnest_whole q.initial).trans hinitial
  flow_eq := by
    intro memory hmemory batch
    have hmatch := (Simulates.refl q).flow_eq memory hmemory batch
    have hwhole : unnest (List.replicate q.scans .whole) memory = memory := by
      rw [← hmemory, unnest_whole]
    rw [hwhole] at hmatch ⊢
    rw [← hflow memory hmemory]
    exact hmatch

theorem append (h : q.Matches p) (h' : q'.Matches p') : (q ++ q').Matches (p ++ p') := by
  have happend := Simulates.append h h'
  rwa [List.replicate_append_replicate, ← scans_append] at happend

theorem branch (mode : Mode) (purity : Purity) (h : q.Matches p) (h' : q'.Matches p') :
    Matches [.branch mode q q' purity] [.branch mode p p' purity] := by
  have hbranch := Simulates.branch mode purity h h'
  have hscans : scans [.branch mode q q' purity] = q.scans + q'.scans := by simp
  rwa [List.replicate_append_replicate, ← hscans] at hbranch

theorem compose (left right : Plan) (purity : Purity) :
    Matches [.branch .compose left right purity] (left ++ right) := by
  have hscans : scans [.branch .compose left right purity] = scans (left ++ right) := by simp
  apply of_flow_eq
  · simp [Node.initial]
  · intro memory hmemory batch
    exact flow_compose purity (hmemory.trans hscans) batch

theorem responses_eq (h : q.Matches p) (inputs : List Value) :
    (Runner.start q).responses inputs = (Runner.start p).responses inputs :=
  (Runner.mirrors_start h).responses_eq inputs

theorem states_eq (h : q.Matches p) (inputs : List Value) :
    ((Runner.start q).pushAll inputs).1.states = ((Runner.start p).pushAll inputs).1.states := by
  have hrun := (Runner.mirrors_start h).pushAll inputs
  have hlength : ((Runner.start q).pushAll inputs).1.states.length = q.scans := by
    rw [hrun.length_eq, List.length_replicate]
  rw [← hrun.states_eq, ← hlength, unnest_whole]

end Matches

/-- Where a run of nodes may stand: in the chain itself, or in a child plan at any depth. -/
inductive Place where
  | chain (front back : Plan)
  | left (front : Plan) (mode : Mode) (place : Place) (other : Plan) (purity : Purity) (back : Plan)
  | right (front : Plan) (mode : Mode) (other : Plan) (place : Place) (purity : Purity) (back : Plan)

namespace Place

/-- The plan with the nodes at the place. -/
def fill : Place → Plan → Plan
  | .chain front back, nodes => front ++ nodes ++ back
  | .left front mode place other purity back, nodes =>
      front ++ [.branch mode (place.fill nodes) other purity] ++ back
  | .right front mode other place purity back, nodes =>
      front ++ [.branch mode other (place.fill nodes) purity] ++ back

theorem matches_fill (place : Place) (h : q.Matches p) :
    (place.fill q).Matches (place.fill p) := by
  induction place with
  | chain front back => exact ((Matches.refl front).append h).append (.refl back)
  | left front mode place other purity back ih =>
      have hbranch := ih.branch mode purity (.refl other)
      exact ((Matches.refl front).append hbranch).append (.refl back)
  | right front mode other place purity back ih =>
      have hbranch := (Matches.refl other).branch mode purity ih
      exact ((Matches.refl front).append hbranch).append (.refl back)

end Place

/-- The runner of a plan after the given inputs. -/
def runnerAfter (p : Plan) (inputs : List Value) : Runner := ((Runner.start p).pushAll inputs).1

/-- A chain in two parts answers each push with what the second part gives for each value that the
first one lets out, and its states are those of both parts.  So wherever a composed branch stands,
the nodes of its two plans do the same in its place. -/
theorem run_append_and_inline (p q : Plan) (inputs : List Value) :
    ((p ++ q).runnerAfter inputs).states =
        (p.runnerAfter inputs).states ++ (q.runnerAfter (p.outputs inputs)).states ∧
    (∀ x, (((p ++ q).runnerAfter inputs).push x).2 =
      ((q.runnerAfter (p.outputs inputs)).responses ((p.runnerAfter inputs).push x).2).flatten) ∧
    ∀ (place : Place) (purity : Purity),
      (Runner.start (place.fill [.branch .compose p q purity])).responses inputs =
          (Runner.start (place.fill (p ++ q))).responses inputs ∧
        ((place.fill [.branch .compose p q purity]).runnerAfter inputs).states =
          ((place.fill (p ++ q)).runnerAfter inputs).states := by
  have hjoins := (Runner.joins_start p q).pushAll inputs
  refine ⟨hjoins.states_eq, ?_, ?_⟩
  · intro x
    rw [Runner.flatten_responses]
    exact (hjoins.push x).2
  · intro place purity
    have hmatches := place.matches_fill (.compose p q purity)
    exact ⟨hmatches.responses_eq inputs, hmatches.states_eq inputs⟩

end Plan
end PipelineFusion
