import PipelineFusion.Proofs.Optimizer.Settling

/-!
# Exhaustion

The cap on all steps of a run leaves room for more steps than the plan has nodes, and each step
takes a node away, or more than one if it is a segment's.  So the cap never ends a run but one
without any budget, which leaves the plan as it is.
-/

namespace PipelineFusion

/-- The hit is one of a merging rule. -/
def Hit.IsMerge (hit : Hit) : Prop := ∃ m, hit.rule = .merge m

namespace Plan

variable {c : Classifier} {depth : Nat} {p q : Plan} {a : Applied} {as : List Applied}

theorem total_of_merge_fuse {m : Merge} {span : Plan} {node : Node} (h : m.fuse span = .ok node) :
    span.total = 2 := by
  obtain ⟨s, p, t, q, u, rfl, -, -⟩ := Merge.fuse_eq_ok_iff.1 h
  rfl

theorem Step.total_add_one
    (h : Step (fun window hit ↦ c.Admits window hit ∧ hit.IsMerge) depth p a q) :
    q.total + 1 = p.total := by
  induction h with
  | @here depth window hit h =>
      obtain ⟨⟨hfound, hfused⟩, m, hm⟩ := h
      have hone := Rule.total_of_fuse hfused
      rw [hm] at hfused
      have htwo := total_of_merge_fuse hfused
      have hsplit := total_append (window.take hit.length) (window.drop hit.length)
      rw [List.take_append_drop, htwo] at hsplit
      rw [total_cons, hone, hsplit]
      omega
  | later node _ ih =>
      rw [total_cons, total_cons, ← ih]
      rfl
  | left mode right purity rest _ ih =>
      simp only [total_cons, Node.total]
      omega
  | right mode left purity rest _ ih =>
      simp only [total_cons, Node.total]
      omega

theorem Derives.length_add_total
    (h : Derives (fun window hit ↦ c.Admits window hit ∧ hit.IsMerge) depth p as q) :
    as.length + q.total = p.total := by
  induction h with
  | refl p => exact Nat.zero_add p.total
  | step hstep _ ih =>
      have hone := hstep.total_add_one
      rw [List.length_cons]
      omega

end Plan

namespace Optimizer

variable {o : Optimizer} {plan : Plan}

theorem Takes.rule_mem {window : Plan} {hit : Hit} (h : o.Takes window hit) :
    hit.rule ∈ o.rules := by
  obtain ⟨r, hr, hattempt⟩ := List.exists_of_findSome?_eq_some h
  rwa [(attempt?_eq_some_iff.1 hattempt).1]

theorem Takes.isMerge (hrules : Rule.segment ∉ o.rules) {window : Plan} {hit : Hit}
    (h : o.Takes window hit) : hit.IsMerge := by
  cases hr : hit.rule with
  | merge m => exact ⟨m, hr⟩
  | segment => exact absurd (hr ▸ h.rule_mem) hrules

/-- Without segments each step takes one node away. -/
theorem rulesApplied_add_total (hrules : Rule.segment ∉ o.rules) (plan : Plan) :
    (o.run plan).rulesApplied + (o.optimize plan).total = plan.total := by
  obtain ⟨as, hderives, happlied, -⟩ := o.run_derives plan
  rw [happlied]
  exact Plan.Derives.length_add_total
    (hderives.mono fun _ _ htakes ↦ ⟨htakes.admits, htakes.isMerge hrules⟩)

/-! ## Runs without any budget -/

theorem optimize_of_maxDepth_eq_zero (hdepth : o.maxDepth = 0) (plan : Plan) :
    o.optimize plan = plan ∧ (o.run plan).iterations = 0 ∧ (o.run plan).rulesApplied = 0 := by
  have hplan : o.optimize plan = (o.settle plan 0 (o.fresh plan)).1 := rfl
  have hspent := (isExhausted_fresh_iff o plan).2 hdepth
  rw [hplan, iterations_run, rulesApplied_run, settle_of_isExhausted hspent]
  exact ⟨rfl, rfl, rfl⟩

theorem exhausted_run_of_maxDepth_eq_zero (hdepth : o.maxDepth = 0) (plan : Plan) :
    (o.run plan).exhausted = o.canOptimize plan := by
  have hspent := (isExhausted_fresh_iff o plan).2 hdepth
  rw [exhausted_run, settle_of_isExhausted hspent, hspent, Bool.true_and]

/-! ## Runs with a budget -/

/-- The budget of the run is not exhausted at any moment. -/
theorem exists_settles_isExhausted_eq_false (hdepth : 1 ≤ o.maxDepth)
    (hself : (plan == plan) = true) (hcount : plan.total ≤ maxCount) :
    ∃ passes, o.Settles plan (o.fresh plan).budget passes (o.optimize plan) ∧
      ∀ n, ((o.fresh plan).budget.performAll (passes.flatten.take n)).isExhausted = false := by
  obtain ⟨passes, hsettles, -, hbudget⟩ := o.exists_settles (s := o.fresh plan) hself 0
  refine ⟨passes, hsettles, ?_⟩
  apply Budget.isExhausted_performAll_take
  rw [← hbudget]
  exact isExhausted_settle_eq_false hdepth hself hcount

theorem exhausted_run_eq_false (hdepth : 1 ≤ o.maxDepth) (hself : (plan == plan) = true)
    (hcount : plan.total ≤ maxCount) : (o.run plan).exhausted = false := by
  rw [exhausted_run, isExhausted_settle_eq_false hdepth hself hcount, Bool.false_and]

/-- A run takes no more steps than nodes go, and just as many if no rule folds segments.  Its cap is
not reached at any moment unless its positions have no budget.  Such a run leaves the plan as it
is, and is exhausted just when a rule could be applied. -/
theorem exhausted_run_iff (o : Optimizer) (plan : Plan) (hself : (plan == plan) = true)
    (hcount : plan.total ≤ maxCount) :
    (o.run plan).rulesApplied + (o.optimize plan).total ≤ plan.total ∧
    (Rule.segment ∉ o.rules →
      (o.run plan).rulesApplied + (o.optimize plan).total = plan.total) ∧
    (1 ≤ o.maxDepth → ∃ passes, o.Settles plan (o.fresh plan).budget passes (o.optimize plan) ∧
      ∀ n, ((o.fresh plan).budget.performAll (passes.flatten.take n)).isExhausted = false) ∧
    (o.maxDepth = 0 →
      o.optimize plan = plan ∧ (o.run plan).iterations = 0 ∧ (o.run plan).rulesApplied = 0) ∧
    ((o.run plan).exhausted = true ↔ o.maxDepth = 0 ∧ o.canOptimize plan = true) := by
  refine ⟨o.total_optimize_le plan, fun hrules ↦ rulesApplied_add_total hrules plan,
    fun hdepth ↦ exists_settles_isExhausted_eq_false hdepth hself hcount,
    fun hdepth ↦ optimize_of_maxDepth_eq_zero hdepth plan, ?_⟩
  rcases Nat.eq_zero_or_pos o.maxDepth with hdepth | hdepth
  · rw [exhausted_run_of_maxDepth_eq_zero hdepth]
    simp [hdepth]
  · rw [exhausted_run_eq_false hdepth hself hcount]
    simp [Nat.pos_iff_ne_zero.1 hdepth]

theorem exhausted_run_lagged :
    ((stepwise.run Plan.lagged).rulesApplied + (stepwise.optimize Plan.lagged).total =
        Plan.lagged.total ∧
      (∃ passes, stepwise.Settles Plan.lagged (stepwise.fresh Plan.lagged).budget passes
          (stepwise.optimize Plan.lagged) ∧
        ∀ n, ((stepwise.fresh Plan.lagged).budget.performAll
          (passes.flatten.take n)).isExhausted = false) ∧
      (stepwise.run Plan.lagged).exhausted = false) ∧
    (({ maxDepth := 0 } : Optimizer).run Plan.lagged).exhausted = true ∧
      (({ maxDepth := 0 } : Optimizer).run Plan.lagged).rulesApplied = 0 := by
  have hself : (Plan.lagged == Plan.lagged) = true := by decide +kernel
  have hcount : Plan.lagged.total ≤ maxCount := by decide +kernel
  obtain ⟨-, hmerges, hmoments, -, hexhausted⟩ :=
    exhausted_run_iff stepwise Plan.lagged hself hcount
  obtain ⟨-, -, -, hnothing, hexhausted'⟩ :=
    exhausted_run_iff { maxDepth := 0 } Plan.lagged hself hcount
  refine ⟨⟨hmerges (by decide), hmoments (by decide), ?_⟩, ?_, (hnothing rfl).2.2⟩
  · apply Bool.eq_false_iff.2
    intro hspent
    exact absurd (hexhausted.1 hspent).1 (by decide)
  · exact hexhausted'.2 ⟨rfl, by decide +kernel⟩

end Optimizer
end PipelineFusion
