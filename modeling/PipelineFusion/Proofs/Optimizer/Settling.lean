import PipelineFusion.Proofs.Optimizer.NormalForm
import PipelineFusion.Proofs.Optimizer.Operations

/-!
# Passes until nothing changes

The loop of a run, with all that it does to the budget.  It goes on for as long as a pass changes
the plan, and that a pass has to make the plan smaller is not built into it.  It ends for every plan
that equals its copy, since every pass but the last takes a step, and a plan has only so many nodes.
-/

namespace PipelineFusion
namespace Optimizer

/-- The loop of a run: passes, each with what it does to the budget, until the budget is exhausted
or a pass leaves the plan equal to what it was. -/
inductive Settles (o : Optimizer) : Plan → Budget → List (List Budget.Op) → Plan → Prop
  | spent (p : Plan) {b : Budget} (hspent : b.isExhausted = true) : Settles o p b [] p
  | same {p q : Plan} {b : Budget} {ops : List Budget.Op} (hspent : b.isExhausted = false)
      (h : o.Performs p b.resetLocal ops q) (hsame : (q == p) = true) :
      Settles o p b [.resetLocal :: ops] p
  | again {p q r : Plan} {b : Budget} {ops : List Budget.Op} {passes : List (List Budget.Op)}
      (hspent : b.isExhausted = false) (h : o.Performs p b.resetLocal ops q)
      (hdiffers : (q == p) = false) (hrest : Settles o q (b.resetLocal.performAll ops) passes r) :
      Settles o p b ((.resetLocal :: ops) :: passes) r

theorem Settles.unique {o : Optimizer} {p q q' : Plan} {b : Budget}
    {passes passes' : List (List Budget.Op)} (h : o.Settles p b passes q)
    (h' : o.Settles p b passes' q') : passes' = passes ∧ q' = q := by
  induction h generalizing passes' q' with
  | spent p hspent => cases h' <;> simp_all
  | same hspent hpass hsame =>
      cases h' with
      | spent _ hspent' => simp [hspent] at hspent'
      | same _ hpass' _ =>
          obtain ⟨rfl, -⟩ := hpass.unique hpass'
          exact ⟨rfl, rfl⟩
      | again _ hpass' hdiffers _ =>
          obtain ⟨-, rfl⟩ := hpass.unique hpass'
          rw [hsame] at hdiffers
          cases hdiffers
  | again hspent hpass hdiffers _ ih =>
      cases h' with
      | spent _ hspent' => simp [hspent] at hspent'
      | same _ hpass' hsame =>
          obtain ⟨-, rfl⟩ := hpass.unique hpass'
          rw [hsame] at hdiffers
          cases hdiffers
      | again _ hpass' _ hrest =>
          obtain ⟨rfl, rfl⟩ := hpass.unique hpass'
          obtain ⟨rfl, rfl⟩ := ih hrest
          exact ⟨rfl, rfl⟩

/-! ## Passes with and without steps -/

variable {o : Optimizer} {p q : Plan} {b : Budget} {ops : List Budget.Op}
  {passes : List (List Budget.Op)}

theorem Performs.beq_self (h : o.Performs p b ops q) (hself : (p == p) = true) :
    (q == q) = true := by
  obtain ⟨as, hderives, -⟩ := h.exists_derives
  exact (Takes.derives hderives).beq_self hself

theorem Performs.records_eq_zero (h : o.Performs p b ops q) (hle : p.total ≤ q.total) :
    Budget.records ops = 0 := by
  have hsteps := h.records_add_total_le
  omega

theorem Performs.records_pos_of_beq_eq_false (h : o.Performs p b ops q) (hself : (p == p) = true)
    (hdiffers : (q == p) = false) : 0 < Budget.records ops := by
  apply h.records_pos
  rintro rfl
  rw [hself] at hdiffers
  cases hdiffers

theorem Settles.ne_nil (h : o.Settles p b passes q) (hspent : b.isExhausted = false) :
    passes ≠ [] := by
  cases h with
  | spent _ hspent' => simp [hspent] at hspent'
  | same => exact List.cons_ne_nil _ _
  | again => exact List.cons_ne_nil _ _

/-- Passes that change the plan take steps. -/
theorem Settles.records_pos (h : o.Settles p b passes q) (hself : (p == p) = true) :
    ∀ ops ∈ passes.dropLast, 0 < Budget.records ops := by
  induction h with
  | spent p hspent => simp
  | same hspent hpass hsame => simp
  | @again p q r b ops passes hspent hpass hdiffers _ ih =>
      have hrest := ih (hpass.beq_self hself)
      cases passes with
      | nil => simp
      | cons next passes =>
          rw [List.dropLast_cons_cons]
          exact List.forall_mem_cons.2 ⟨hpass.records_pos_of_beq_eq_false hself hdiffers, hrest⟩

/-- With budget left at the end, it is a pass without steps that ended the loop. -/
theorem Settles.records_eq_zero (h : o.Settles p b passes q)
    (hend : (b.performAll passes.flatten).isExhausted = false) :
    ∀ ops ∈ passes.getLast?, Budget.records ops = 0 := by
  induction h with
  | spent p hspent => simp
  | @same p q b ops hspent hpass hsame =>
      have hidle := hpass.records_eq_zero (Plan.total_eq_of_beq hsame).ge
      intro last hlast
      obtain rfl := Option.some.inj hlast
      exact hidle
  | @again p q r b ops passes hspent hpass hdiffers hrest ih =>
      rw [List.flatten_cons, Budget.performAll_append] at hend
      -- After a pass with steps the loop is over only if they have used up the budget.
      cases hrest with
      | spent _ hspent' =>
          have hleft : (b.resetLocal.performAll ops).isExhausted = false := hend
          rw [hspent'] at hleft
          cases hleft
      | same hspent' hpass' hsame => exact ih hend
      | again hspent' hpass' hdiffers' hrest' => exact ih hend

theorem Settles.length_le (h : o.Settles p b passes q) (hself : (p == p) = true) :
    passes.length ≤ (passes.map Budget.records).sum + 1 := by
  induction h with
  | spent p hspent => exact Nat.zero_le _
  | same hspent hpass hsame => exact Nat.le_add_left 1 _
  | @again p q r b ops passes hspent hpass hdiffers _ ih =>
      have hpos : 0 < Budget.records (.resetLocal :: ops) :=
        hpass.records_pos_of_beq_eq_false hself hdiffers
      have hrest := ih (hpass.beq_self hself)
      rw [List.length_cons, List.map_cons, List.sum_cons]
      omega

/-! ## Runs -/

variable {plan : Plan} {s : Session}

theorem exists_performs_pass (o : Optimizer) (plan : Plan) (s : Session) :
    ∃ ops, o.Performs plan s.budget.resetLocal ops (o.pass plan s).1 ∧
      (o.pass plan s).2.budget = s.budget.resetLocal.performAll ops :=
  (o.sweeps_pass plan s).exists_performs

/-- The loop ends, and its passes are those that the run counts. -/
theorem exists_settles (o : Optimizer) (hself : (plan == plan) = true) (done : Nat) :
    ∃ passes, o.Settles plan s.budget passes (o.settle plan done s).1 ∧
      (o.settle plan done s).2.1 = done + passes.length ∧
      (o.settle plan done s).2.2.budget = s.budget.performAll passes.flatten := by
  fun_induction settle o plan done s with
  | case1 current done s hspent => exact ⟨[], .spent current hspent, rfl, rfl⟩
  | case2 current done s hspent next s' hpass hsame =>
      obtain ⟨ops, hperforms, hbudget⟩ := o.exists_performs_pass current s
      rw [hpass] at hperforms hbudget
      refine ⟨[.resetLocal :: ops], .same (Bool.eq_false_iff.2 hspent) hperforms hsame, rfl, ?_⟩
      rw [List.flatten_singleton]
      exact hbudget
  | case3 current done s hspent next s' hpass hdiffers hsmaller ih =>
      obtain ⟨ops, hperforms, hbudget⟩ := o.exists_performs_pass current s
      rw [hpass] at hperforms hbudget
      obtain ⟨passes, hsettles, hcount, hfinal⟩ := ih (hperforms.beq_self hself)
      rw [hbudget] at hsettles hfinal
      refine ⟨(.resetLocal :: ops) :: passes, ?_, ?_, ?_⟩
      · exact .again (Bool.eq_false_iff.2 hspent) hperforms (Bool.eq_false_iff.2 hdiffers) hsettles
      · rw [hcount, List.length_cons]
        omega
      · rw [hfinal, List.flatten_cons, Budget.performAll_append]
        rfl
  | case4 current done s hspent next s' hpass hdiffers hsmaller =>
      -- A pass that makes the plan no smaller takes no step, so it leaves the plan as it was.
      obtain ⟨ops, hperforms, -⟩ := o.exists_performs_pass current s
      rw [hpass] at hperforms
      have hidle := hperforms.records_eq_zero (Nat.not_lt.1 hsmaller)
      have hpos := hperforms.records_pos_of_beq_eq_false hself (Bool.eq_false_iff.2 hdiffers)
      omega

theorem isExhausted_fresh_iff (o : Optimizer) (plan : Plan) :
    (o.fresh plan).budget.isExhausted = true ↔ o.maxDepth = 0 := by
  have hcap : (o.fresh plan).budget.cap = min (o.maxDepth * max plan.total 1) maxCount := rfl
  have hsteps : (o.fresh plan).budget.steps = 0 := rfl
  have hword : maxCount ≠ 0 := by decide
  have hnodes : max plan.total 1 ≠ 0 := by omega
  rw [Budget.isExhausted, decide_eq_true_iff, hcap, hsteps, Nat.le_zero, Nat.min_eq_zero_iff,
    Nat.mul_eq_zero]
  simp [hword, hnodes]

/-- A run whose positions have a budget has budget left when it ends. -/
theorem isExhausted_settle_eq_false (hdepth : 1 ≤ o.maxDepth) (hself : (plan == plan) = true)
    (hcount : plan.total ≤ maxCount) :
    (o.settle plan 0 (o.fresh plan)).2.2.budget.isExhausted = false :=
  ((o.roomy_fresh hdepth hself hcount).of_settle 0).1.isExhausted_eq_false

/-- For a plan that equals its copy the loop ends, in one way, after no more passes than steps and
one more.  Each pass but the last takes steps, and the last one takes none.  The number of nodes is
taken to be a machine word for that, as it is for every plan that fits in memory. -/
theorem exists_settles_optimize (o : Optimizer) (plan : Plan) (hdepth : 1 ≤ o.maxDepth)
    (hself : (plan == plan) = true) :
    (∃ passes, o.Settles plan (o.fresh plan).budget passes (o.optimize plan) ∧
      (∀ passes' q, o.Settles plan (o.fresh plan).budget passes' q →
        passes' = passes ∧ q = o.optimize plan) ∧
      (o.run plan).iterations = passes.length ∧
      (o.run plan).rulesApplied = (passes.map Budget.records).sum ∧
      (∀ ops ∈ passes.dropLast, 0 < Budget.records ops) ∧
      (plan.total ≤ maxCount → ∃ ops ∈ passes.getLast?, Budget.records ops = 0)) ∧
    1 ≤ (o.run plan).iterations ∧ (o.run plan).iterations ≤ (o.run plan).rulesApplied + 1 := by
  obtain ⟨passes, hsettles, hpasses, hbudget⟩ :=
    o.exists_settles (s := o.fresh plan) hself 0
  have hiterations : (o.run plan).iterations = passes.length := by
    rw [iterations_run, hpasses, Nat.zero_add]
  have hsteps : (o.run plan).rulesApplied = (passes.map Budget.records).sum := by
    have hzero : (o.fresh plan).budget.steps = 0 := rfl
    rw [rulesApplied_run, hbudget, Budget.steps_performAll, Budget.records_flatten, hzero,
      Nat.zero_add]
  have hne : passes ≠ [] := by
    apply hsettles.ne_nil
    rw [Bool.eq_false_iff, Ne, isExhausted_fresh_iff]
    omega
  refine ⟨⟨passes, hsettles, ?_, hiterations, hsteps, hsettles.records_pos hself, ?_⟩, ?_, ?_⟩
  · intro passes' q h
    exact hsettles.unique h
  · intro hcount
    have hend := isExhausted_settle_eq_false hdepth hself hcount
    rw [hbudget] at hend
    have hlast := List.getLast?_eq_some_getLast hne
    exact ⟨passes.getLast hne, hlast, hsettles.records_eq_zero hend _ hlast⟩
  · rw [hiterations]
    exact List.length_pos_iff.2 hne
  · rw [hiterations, hsteps]
    exact hsettles.length_le hself

/-- Folds no segments, and takes one step for each position and pass. -/
def stepwise : Optimizer := { rules := Merge.all.map .merge, maxDepth := 1 }

theorem settles_lagged :
    (∃ passes, stepwise.Settles Plan.lagged (stepwise.fresh Plan.lagged).budget passes
      (stepwise.optimize Plan.lagged) ∧
      (stepwise.run Plan.lagged).iterations = passes.length ∧
      (∀ ops ∈ passes.dropLast, 0 < Budget.records ops) ∧
      ∃ ops ∈ passes.getLast?, Budget.records ops = 0) ∧
    (stepwise.run Plan.lagged).iterations ≤ (stepwise.run Plan.lagged).rulesApplied + 1 := by
  obtain ⟨⟨passes, hsettles, -, hpasses, -, hbusy, hidle⟩, -, hle⟩ :=
    exists_settles_optimize stepwise Plan.lagged (by decide) (by decide +kernel)
  exact ⟨⟨passes, hsettles, hpasses, hbusy, hidle (by decide +kernel)⟩, hle⟩

end Optimizer
end PipelineFusion
