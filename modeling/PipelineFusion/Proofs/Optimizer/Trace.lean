import PipelineFusion.Proofs.Optimizer.NormalForm
import PipelineFusion.Proofs.Optimizer.Operations

/-!
# Traces

The trace of a run lists the steps of a derivation of its result, each with the first rule that
finds a span where the step is taken.  Keeping a trace has no influence on the run.
-/

namespace PipelineFusion

/-- The first rule to find a span at the front of the window makes the replacement of the hit. -/
structure Optimizer.Picks (o : Optimizer) (window : Plan) (hit : Hit) : Prop
    extends o.classifier.Admits window hit where
  first : o.firstMatch? window = some hit.rule

namespace Optimizer

theorem Takes.picks {o : Optimizer} {window : Plan} {hit : Hit} (h : o.Takes window hit) :
    o.Picks window hit := by
  refine ⟨h.admits, ?_⟩
  obtain ⟨before, r, after, hrules, hattempt, hnone⟩ := List.findSome?_eq_some_iff.1 h
  obtain ⟨rfl, -⟩ := attempt?_eq_some_iff.1 hattempt
  rw [firstMatch?, List.find?_eq_some_iff_append]
  refine ⟨?_, before, after, hrules, ?_⟩
  · rw [← isSome_attempt?, hattempt]
    rfl
  · intro r hr
    rw [← isSome_attempt?, hnone r hr]
    rfl

end Optimizer

/-- The plans that a derivation goes through. -/
theorem Plan.Derives.exists_sequence {allowed : Plan → Hit → Prop} {depth : Nat} {p q : Plan}
    {as : List Applied} (h : Derives allowed depth p as q) :
    ∃ plans : Nat → Plan, plans 0 = p ∧ plans as.length = q ∧
      ∀ i (hi : i < as.length), Step allowed depth (plans i) as[i] (plans (i + 1)) := by
  induction h with
  | refl p => exact ⟨fun _ ↦ p, rfl, rfl, fun i hi ↦ absurd hi (Nat.not_lt_zero i)⟩
  | @step p q r a as hstep _ ih =>
      obtain ⟨plans, hstart, hend, hsteps⟩ := ih
      refine ⟨fun | 0 => p | i + 1 => plans i, rfl, hend, ?_⟩
      intro i hi
      cases i with
      | zero =>
          rw [← hstart] at hstep
          exact hstep
      | succ i => exact hsteps i (Nat.lt_of_succ_lt_succ hi)

/-! ## Runs without a trace -/

/-- The budget without its trace. -/
def Budget.untraced (b : Budget) : Budget := { b with tracing := false, trace := [] }

theorem Budget.isExhausted_untraced (b : Budget) : b.untraced.isExhausted = b.isExhausted :=
  rfl

namespace Optimizer

variable {o : Optimizer} {p q : Plan} {b b' : Budget}

/-- The optimizer that keeps a trace or not. -/
def withTracing (o : Optimizer) (tracing : Bool) : Optimizer := { o with tracing }

theorem Sweeps.untraced (h : o.Sweeps p b q b') (tracing : Bool) :
    (o.withTracing tracing).Sweeps p b.untraced q b'.untraced := by
  induction h with
  | nil b => exact .nil _
  | spent plan hspent => exact .spent plan hspent
  | hit hspent hlocal htakes _ ih => exact .hit hspent hlocal htakes ih
  | leaf stage purity hspent hnone _ ih => exact .leaf stage purity hspent hnone ih
  | branch mode purity hspent hnone _ _ _ ihl ihr ih =>
      exact .branch mode purity hspent hnone ihl ihr ih

variable {s s' : Session}

theorem pass_untraced (o : Optimizer) (tracing : Bool) (plan : Plan)
    (h : s'.budget = s.budget.untraced) :
    ((o.withTracing tracing).pass plan s').1 = (o.pass plan s).1 ∧
      ((o.withTracing tracing).pass plan s').2.budget = (o.pass plan s).2.budget.untraced := by
  have hpass := (o.withTracing tracing).sweeps_pass plan s'
  rw [h] at hpass
  exact ((o.sweeps_pass plan s).untraced tracing).unique hpass

theorem settle_untraced (o : Optimizer) (tracing : Bool) (plan : Plan) (done : Nat)
    (h : s'.budget = s.budget.untraced) :
    ((o.withTracing tracing).settle plan done s').1 = (o.settle plan done s).1 ∧
      ((o.withTracing tracing).settle plan done s').2.1 = (o.settle plan done s).2.1 ∧
      ((o.withTracing tracing).settle plan done s').2.2.budget =
        (o.settle plan done s).2.2.budget.untraced := by
  fun_induction settle o plan done s generalizing s' with
  | case1 current done s hspent =>
      rw [← Budget.isExhausted_untraced, ← h] at hspent
      rw [settle_of_isExhausted hspent]
      exact ⟨rfl, rfl, h⟩
  | case2 current done s hspent next s₁ hpass hsame =>
      obtain ⟨hnext, hbudget⟩ := pass_untraced o tracing current h
      rw [hpass] at hnext hbudget
      rw [Bool.not_eq_true, ← Budget.isExhausted_untraced, ← h] at hspent
      have hsame' : (((o.withTracing tracing).pass current s').1 == current) = true := by
        rwa [hnext]
      rw [settle_of_same hspent hsame']
      exact ⟨rfl, rfl, hbudget⟩
  | case3 current done s hspent next s₁ hpass hdiffers hsmaller ih =>
      obtain ⟨hnext, hbudget⟩ := pass_untraced o tracing current h
      rw [hpass] at hnext hbudget
      rw [Bool.not_eq_true, ← Budget.isExhausted_untraced, ← h] at hspent
      rw [settle_of_smaller hspent (by rwa [hnext]) (by rwa [hnext]), hnext]
      exact ih hbudget
  | case4 current done s hspent next s₁ hpass hdiffers hsmaller =>
      obtain ⟨hnext, hbudget⟩ := pass_untraced o tracing current h
      rw [hpass] at hnext hbudget
      rw [Bool.not_eq_true, ← Budget.isExhausted_untraced, ← h] at hspent
      rw [settle_of_not_smaller hspent (by rwa [hnext]) (by rwa [hnext])]
      exact ⟨hnext, rfl, hbudget⟩

theorem canOptimize_withTracing (o : Optimizer) (tracing : Bool) (plan : Plan) :
    (o.withTracing tracing).canOptimize plan = o.canOptimize plan := by
  induction plan using Plan.induction with
  | nil => rfl
  | leaf stage purity rest ih =>
      rw [canOptimize, canOptimize, ih]
      rfl
  | branch mode left right purity rest ihl ihr ih =>
      rw [canOptimize, canOptimize, canOptimizeInside, canOptimizeInside, ihl, ihr, ih]
      rfl

/-- An optimizer without a trace finds what it finds with one, in as many passes and steps. -/
theorem run_untraced (o : Optimizer) (plan : Plan) :
    (o.withTracing false).optimize plan = o.optimize plan ∧
      ((o.withTracing false).run plan).iterations = (o.run plan).iterations ∧
      ((o.withTracing false).run plan).rulesApplied = (o.run plan).rulesApplied ∧
      ((o.withTracing false).run plan).exhausted = (o.run plan).exhausted := by
  have hfresh : ((o.withTracing false).fresh plan).budget = (o.fresh plan).budget.untraced := rfl
  obtain ⟨hplan, hpasses, hbudget⟩ := settle_untraced o false plan 0 hfresh
  refine ⟨hplan, hpasses, ?_, ?_⟩
  · rw [rulesApplied_run, rulesApplied_run, hbudget]
    rfl
  · rw [exhausted_run, exhausted_run, hplan, hbudget, canOptimize_withTracing,
      Budget.isExhausted_untraced]

/-- A trace lists the steps that lead from the plan to the result, one by one, each by the first
rule that finds a span where it is taken; without it the run comes out the same. -/
theorem trace_derives_optimize (o : Optimizer) (plan : Plan) :
    (∃ plans : Nat → Plan, plans 0 = plan ∧
      plans ((o.withTracing true).run plan).trace.length = (o.withTracing true).optimize plan ∧
      ∀ i (hi : i < ((o.withTracing true).run plan).trace.length),
        Plan.Step (o.withTracing true).Picks 0 (plans i)
          ((o.withTracing true).run plan).trace[i] (plans (i + 1))) ∧
    ((o.withTracing true).run plan).rulesApplied =
      ((o.withTracing true).run plan).trace.length ∧
    (o.withTracing false).optimize plan = (o.withTracing true).optimize plan ∧
    ((o.withTracing false).run plan).iterations = ((o.withTracing true).run plan).iterations ∧
    ((o.withTracing false).run plan).rulesApplied =
      ((o.withTracing true).run plan).rulesApplied ∧
    ((o.withTracing false).run plan).exhausted = ((o.withTracing true).run plan).exhausted ∧
    ((o.withTracing false).run plan).trace = [] := by
  obtain ⟨as, hderives, happlied, htrace⟩ := (o.withTracing true).run_derives plan
  have htrace : ((o.withTracing true).run plan).trace = as := htrace
  obtain ⟨_, -, -, hempty⟩ := (o.withTracing false).run_derives plan
  obtain ⟨hplan, hpasses, hsteps, hspent⟩ := (o.withTracing true).run_untraced plan
  rw [htrace]
  refine ⟨?_, happlied, hplan, hpasses, hsteps, hspent, hempty⟩
  exact (hderives.mono fun _ _ ↦ Takes.picks).exists_sequence

end Optimizer
end PipelineFusion
