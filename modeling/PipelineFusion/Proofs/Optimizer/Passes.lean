import Mathlib.Algebra.BigOperators.Group.Finset.Basic
import PipelineFusion.Proofs.Optimizer.NormalForm
import PipelineFusion.Proofs.Optimizer.Operations

/-!
# Runs as repeated passes

What a pass does to a plan does not depend on the budget of the run, as long as that has room for
all steps that can be taken.  So a run goes through the plans that repeated passes, each with a
budget of its own, lead to, and it ends with the first of them that takes no step.
-/

namespace PipelineFusion

/-! ## Rounds -/

/-- Rounds that come to rest: `count` of them up to the first without steps, which lead to `last`
in `total` steps.  Round `n` starts at `start n` and takes `steps n` steps. -/
structure ComesToRest {α : Type} (start : Nat → α) (steps : Nat → Nat) (count : Nat) (last : α)
    (total : Nat) : Prop where
  count_pos : 1 ≤ count
  count_le_iff : ∀ n, count ≤ n + 1 ↔ steps n = 0
  last_eq : ∀ n, count ≤ n + 1 → last = start n
  total_eq : ∀ n, count ≤ n + 1 → total = ∑ i ∈ Finset.range n, steps i

namespace ComesToRest

variable {α β γ : Type} {start : Nat → α} {steps : Nat → Nat} {count : Nat} {last : α}
  {total : Nat}

theorem of_idle (x : α) : ComesToRest (fun _ ↦ x) (fun _ ↦ 0) 1 x 0 where
  count_pos := Nat.le_refl 1
  count_le_iff := by
    intro n
    exact ⟨fun _ ↦ rfl, fun _ ↦ Nat.le_add_left 1 n⟩
  last_eq := by
    intro n _
    rfl
  total_eq := by
    intro n _
    simp

theorem succ (hbusy : steps 0 ≠ 0)
    (h : ComesToRest (fun n ↦ start (n + 1)) (fun n ↦ steps (n + 1)) count last total) :
    ComesToRest start steps (count + 1) last (steps 0 + total) where
  count_pos := Nat.le_add_left 1 count
  count_le_iff := by
    intro n
    have hpos := h.count_pos
    cases n with
    | zero =>
        refine iff_of_false ?_ hbusy
        omega
    | succ n => rw [← h.count_le_iff n, Nat.add_le_add_iff_right]
  last_eq := by
    intro n hn
    have hpos := h.count_pos
    obtain ⟨m, rfl⟩ := Nat.exists_eq_succ_of_ne_zero (show n ≠ 0 by omega)
    exact h.last_eq m (Nat.le_of_succ_le_succ hn)
  total_eq := by
    intro n hn
    have hpos := h.count_pos
    obtain ⟨m, rfl⟩ := Nat.exists_eq_succ_of_ne_zero (show n ≠ 0 by omega)
    rw [Finset.sum_range_succ', ← h.total_eq m (Nat.le_of_succ_le_succ hn), Nat.add_comm]

/-- Rounds that go on side by side are at rest once each of them is. -/
theorem join {start' : Nat → β} {steps' : Nat → Nat} {count' : Nat} {last' : β} {total' : Nat}
    (h : ComesToRest start steps count last total)
    (h' : ComesToRest start' steps' count' last' total') (f : α → β → γ) :
    ComesToRest (fun n ↦ f (start n) (start' n)) (fun n ↦ steps n + steps' n) (max count count')
      (f last last') (total + total') where
  count_pos := h.count_pos.trans (Nat.le_max_left count count')
  count_le_iff := by
    intro n
    rw [Nat.max_le, h.count_le_iff, h'.count_le_iff, Nat.add_eq_zero_iff]
  last_eq := by
    intro n hn
    obtain ⟨hcount, hcount'⟩ := Nat.max_le.1 hn
    rw [h.last_eq n hcount, h'.last_eq n hcount']
  total_eq := by
    intro n hn
    obtain ⟨hcount, hcount'⟩ := Nat.max_le.1 hn
    rw [h.total_eq n hcount, h'.total_eq n hcount', Finset.sum_add_distrib]

theorem unique {count' : Nat} {last' : α} {total' : Nat}
    (h : ComesToRest start steps count last total)
    (h' : ComesToRest start steps count' last' total') :
    count = count' ∧ last = last' ∧ total = total' := by
  have hle : ∀ n, count ≤ n + 1 ↔ count' ≤ n + 1 := fun n ↦
    (h.count_le_iff n).trans (h'.count_le_iff n).symm
  have hpos := h.count_pos
  have hpos' := h'.count_pos
  have hcount : count ≤ count - 1 + 1 := by omega
  have hcount' := (hle (count - 1)).1 hcount
  have hback := (hle (count' - 1)).2 (by omega)
  refine ⟨by omega, ?_, ?_⟩
  · rw [h.last_eq _ hcount, h'.last_eq _ hcount']
  · rw [h.total_eq _ hcount, h'.total_eq _ hcount']

end ComesToRest

/-! ## Passes with room -/

/-- Two budgets at the same point of a pass that both have room for `n` more steps. -/
structure Budget.Agrees (b c : Budget) (n : Nat) : Prop where
  perPosition_eq : c.perPosition = b.perPosition
  localSteps_eq : c.localSteps = b.localSteps
  room : b.steps + n ≤ b.cap
  room' : c.steps + n ≤ c.cap

namespace Budget.Agrees

variable {b c : Budget} {m n : Nat}

theorem mono (h : b.Agrees c n) (hle : m ≤ n) : b.Agrees c m where
  perPosition_eq := h.perPosition_eq
  localSteps_eq := h.localSteps_eq
  room := (Nat.add_le_add_left hle b.steps).trans h.room
  room' := (Nat.add_le_add_left hle c.steps).trans h.room'

theorem isExhausted_eq_false (h : b.Agrees c n) (hpos : 0 < n) : c.isExhausted = false := by
  have hroom := h.room'
  rw [isExhausted_eq_false_iff]
  omega

theorem isLocalExhausted_eq (h : b.Agrees c n) : c.isLocalExhausted = b.isLocalExhausted := by
  rw [Budget.isLocalExhausted, Budget.isLocalExhausted, h.perPosition_eq, h.localSteps_eq]

theorem record (h : b.Agrees c n) (hlt : m < n) (rule : String) (span : Plan) (node : Node) :
    (b.record rule span node).Agrees (c.record rule span node) m := by
  have hroom := h.room
  have hroom' := h.room'
  refine ⟨h.perPosition_eq, congrArg (· + 1) h.localSteps_eq, ?_, ?_⟩
  · simp only [Budget.record]
    omega
  · simp only [Budget.record]
    omega

theorem resetLocal (h : b.Agrees c n) : b.resetLocal.Agrees c.resetLocal n :=
  ⟨h.perPosition_eq, rfl, h.room, h.room'⟩

theorem enterChild (h : b.Agrees c n) : b.enterChild.Agrees c.enterChild n :=
  ⟨h.perPosition_eq, h.localSteps_eq, h.room, h.room'⟩

theorem leaveChild (h : b.Agrees c n) : b.leaveChild.Agrees c.leaveChild n :=
  ⟨h.perPosition_eq, h.localSteps_eq, h.room, h.room'⟩

end Budget.Agrees

namespace Optimizer

variable {o : Optimizer} {p q : Plan} {b b' c c' : Budget}

theorem Sweeps.steps_add_total_le (h : o.Sweeps p b q b') :
    b'.steps + q.total ≤ b.steps + p.total := by
  obtain ⟨as, hderives, hadvances⟩ := h.derives
  have hlength := (Takes.derives hderives).length_add_total_le
  rw [hadvances.steps_eq]
  omega

theorem Sweeps.agrees {n : Nat} (h : o.Sweeps p b q b') (h' : o.Sweeps p c q c')
    (hagrees : b.Agrees c (p.total + n)) : b'.resetLocal.Agrees c'.resetLocal n := by
  have hroom := hagrees.room
  have hroom' := hagrees.room'
  have hsteps := h.steps_add_total_le
  have hsteps' := h'.steps_add_total_le
  refine ⟨?_, rfl, ?_, ?_⟩
  · exact h'.perPosition_eq.trans (hagrees.perPosition_eq.trans h.perPosition_eq.symm)
  · change b'.steps + n ≤ b'.cap
    rw [h.cap_eq]
    omega
  · change c'.steps + n ≤ c'.cap
    rw [h'.cap_eq]
    omega

/-- With another budget that has room the same steps are taken. -/
theorem Sweeps.exists_of_agrees (h : o.Sweeps p b q b') (hagrees : b.Agrees c p.total) :
    ∃ c', o.Sweeps p c q c' ∧ c'.steps + b.steps = c.steps + b'.steps := by
  induction h generalizing c with
  | nil b => exact ⟨c, .nil c, rfl⟩
  | @spent plan b hspent =>
      have hroom := hagrees.room
      have hlength := plan.length_le_total
      rw [Budget.isExhausted, decide_eq_true_eq] at hspent
      obtain rfl : plan = [] := List.length_eq_zero_iff.1 (by omega)
      exact ⟨c, .nil c, rfl⟩
  | @hit window q b b' hit _ hunspent htakes _ ih =>
      have hlt := total_splice_lt htakes
      obtain ⟨c', hsweeps, hsteps⟩ := ih (hagrees.record hlt _ _ _)
      refine ⟨c', .hit (hagrees.isExhausted_eq_false (by omega)) ?_ htakes hsweeps, ?_⟩
      · rw [hagrees.isLocalExhausted_eq, hunspent]
      · simp only [Budget.record] at hsteps
        omega
  | @leaf rest rest' b b' stage purity _ hnone _ ih =>
      have hspent := hagrees.isExhausted_eq_false (by rw [Plan.total_cons, Node.total]; omega)
      rw [← hagrees.isLocalExhausted_eq] at hnone
      obtain ⟨c', hsweeps, hsteps⟩ :=
        ih (hagrees.resetLocal.mono (by rw [Plan.total_cons]; omega))
      exact ⟨c', .leaf stage purity hspent hnone hsweeps, hsteps⟩
  | @branch left left' right right' rest rest' b bl br b' mode purity _ hnone hleft hright _ ihl ihr
      ih =>
      have htotal : left.total + (right.total + rest.total) <
          Plan.total (.branch mode left right purity :: rest) := by
        rw [Plan.total_cons, Node.total]
        omega
      have hspent := hagrees.isExhausted_eq_false (Nat.lt_of_le_of_lt (Nat.zero_le _) htotal)
      rw [← hagrees.isLocalExhausted_eq] at hnone
      -- What is left of the room goes from the left child to the right one and then to the rest.
      have hfirst := hagrees.enterChild.resetLocal.mono htotal.le
      obtain ⟨cl, hleft', hl⟩ := ihl (hfirst.mono (Nat.le_add_right _ _))
      have hsecond := hleft.agrees hleft' hfirst
      obtain ⟨cr, hright', hr⟩ := ihr (hsecond.mono (Nat.le_add_right _ _))
      have hthird := (hright.agrees hright' hsecond).leaveChild
      obtain ⟨c', hrest', hs⟩ := ih hthird
      refine ⟨c', .branch mode purity hspent hnone hleft' hright' hrest', ?_⟩
      simp only [Budget.enterChild, Budget.leaveChild, Budget.resetLocal] at hl hr hs
      omega

/-! ## Single passes -/

/-- A session with room for as many steps as the plan has nodes, so for all that can be taken. -/
def ample (o : Optimizer) (plan : Plan) : Session :=
  { budget := .start o.maxDepth (some plan.total) false }

/-- What one pass makes of the plan. -/
def once (o : Optimizer) (plan : Plan) : Plan := (o.pass plan (o.ample plan)).1

/-- The number of steps of one pass over the plan. -/
def stepsOnce (o : Optimizer) (plan : Plan) : Nat := (o.pass plan (o.ample plan)).2.budget.steps

theorem once_derives (o : Optimizer) (plan : Plan) :
    ∃ as, Plan.Derives o.Takes 0 plan as (o.once plan) ∧ o.stepsOnce plan = as.length := by
  obtain ⟨as, hderives, hadvances⟩ := o.pass_derives plan (o.ample plan)
  exact ⟨as, hderives, hadvances.steps_eq.trans (Nat.zero_add as.length)⟩

theorem once_eq_self {plan : Plan} (h : o.stepsOnce plan = 0) : o.once plan = plan := by
  obtain ⟨as, hderives, hlength⟩ := o.once_derives plan
  obtain rfl : as = [] := List.length_eq_zero_iff.1 (hlength.symm.trans h)
  exact hderives.eq_of_nil

/-- A budget that a pass can start with, with room for `n` steps. -/
structure Starts (o : Optimizer) (b : Budget) (n : Nat) : Prop where
  perPosition_eq : b.perPosition = o.maxDepth
  localSteps_eq : b.localSteps = 0
  room : b.steps + n ≤ b.cap

theorem Starts.mono {m n : Nat} (h : o.Starts b n) (hle : m ≤ n) : o.Starts b m :=
  ⟨h.perPosition_eq, h.localSteps_eq, (Nat.add_le_add_left hle b.steps).trans h.room⟩

theorem starts_ample (o : Optimizer) (plan : Plan) :
    o.Starts (o.ample plan).budget.resetLocal plan.total :=
  ⟨rfl, rfl, (Nat.zero_add plan.total).le⟩

theorem Sweeps.eq_once (h : o.Sweeps p b q b') (hstarts : o.Starts b p.total) :
    q = o.once p ∧ b'.steps = b.steps + o.stepsOnce p := by
  have hagrees : b.Agrees (o.ample p).budget.resetLocal p.total :=
    ⟨hstarts.perPosition_eq.symm, hstarts.localSteps_eq.symm, hstarts.room,
      (o.starts_ample p).room⟩
  obtain ⟨c', hample, hsteps⟩ := h.exists_of_agrees hagrees
  obtain ⟨hplan, hbudget⟩ := (o.sweeps_pass p (o.ample p)).unique hample
  refine ⟨hplan, ?_⟩
  have hc : c'.steps = o.stepsOnce p := congrArg Budget.steps hbudget
  have hzero : (o.ample p).budget.resetLocal.steps = 0 := rfl
  omega

/-- A chain is swept as by a pass of its own, and what room there was besides is left. -/
theorem exists_sweeps_once {n : Nat} (hstarts : o.Starts b (p.total + n)) :
    ∃ b', o.Sweeps p b (o.once p) b' ∧ b'.steps = b.steps + o.stepsOnce p ∧
      o.Starts b'.resetLocal n := by
  have h := o.sweeps_sweep 0 p { budget := b }
  obtain ⟨hplan, hsteps⟩ := h.eq_once (hstarts.mono (Nat.le_add_right p.total n))
  rw [hplan] at h
  have hagrees : b.Agrees b (p.total + n) := ⟨rfl, rfl, hstarts.room, hstarts.room⟩
  have hposition := h.perPosition_eq.trans hstarts.perPosition_eq
  exact ⟨_, h, hsteps, hposition, rfl, (h.agrees h hagrees).room⟩

theorem pass_eq_once {plan : Plan} {s : Session} (hroomy : Roomy plan s.budget)
    (hposition : s.budget.perPosition = o.maxDepth) :
    (o.pass plan s).1 = o.once plan ∧
      (o.pass plan s).2.budget.steps = s.budget.steps + o.stepsOnce plan := by
  have hroom : s.budget.steps + plan.total ≤ s.budget.cap := by
    have hle := hroomy.steps_add_le
    omega
  exact (o.sweeps_pass plan s).eq_once ⟨hposition, rfl, hroom⟩

/-! ## Runs -/

/-- The loop of a run goes through the plans of repeated passes until one takes no step. -/
theorem settle_comesToRest {current : Plan} {s : Session} (hroomy : Roomy current s.budget)
    (hposition : s.budget.perPosition = o.maxDepth) (done : Nat) :
    ∃ count total, ComesToRest (fun n ↦ o.once^[n] current)
        (fun n ↦ o.stepsOnce (o.once^[n] current)) count (o.settle current done s).1 total ∧
      (o.settle current done s).2.1 = done + count ∧
      (o.settle current done s).2.2.budget.steps = s.budget.steps + total := by
  fun_induction settle o current done s with
  | case1 current done s hspent =>
      rw [hroomy.isExhausted_eq_false] at hspent
      cases hspent
  | case2 current done s hspent next s' hpass hsame =>
      obtain ⟨-, hsteps⟩ := pass_eq_once hroomy hposition
      have hself : ((o.pass current s).1 == current) = true := by rwa [hpass]
      have hadvances := (pass_eq_self hself).2.steps_eq
      have hidle : o.stepsOnce current = 0 := by
        rw [List.length_nil] at hadvances
        omega
      have hfixed : ∀ n, o.once^[n] current = current :=
        Function.iterate_fixed (once_eq_self hidle)
      refine ⟨1, 0, ?_, rfl, ?_⟩
      · simp only [hfixed, hidle]
        exact .of_idle current
      · rw [hpass] at hadvances
        exact hadvances
  | case3 current done s hspent next s' hpass hdiffers hsmaller ih =>
      obtain ⟨hnext, hsteps⟩ := pass_eq_once hroomy hposition
      have hroomy' := hroomy.of_pass (o := o)
      have hposition' := (o.sweeps_pass current s).perPosition_eq
      rw [hpass] at hnext hsteps hroomy' hposition'
      have hnext : next = o.once current := hnext
      obtain ⟨count, total, hrest, hcount, htotal⟩ := ih hroomy' (hposition'.trans hposition)
      have hbusy : o.stepsOnce current ≠ 0 := by
        intro hidle
        rw [hnext, once_eq_self hidle] at hsmaller
        exact Nat.lt_irrefl _ hsmaller
      rw [hnext] at hrest hcount htotal ⊢
      refine ⟨count + 1, o.stepsOnce current + total, .succ hbusy hrest, ?_, ?_⟩
      · rw [hcount]
        omega
      · rw [htotal, hsteps]
        omega
  | case4 current done s hspent next s' hpass hdiffers hsmaller =>
      have hidle := hroomy.total_pass_lt (o := o)
      rw [hpass] at hidle
      rcases hidle with hlt | ⟨rfl, -, -⟩
      · exact absurd hlt hsmaller
      · exact absurd hroomy.beq_self hdiffers

/-- A run with room goes through the plans of repeated passes until one takes no step. -/
theorem comesToRest {plan : Plan} (hroomy : Roomy plan (o.fresh plan).budget) :
    ComesToRest (fun n ↦ o.once^[n] plan) (fun n ↦ o.stepsOnce (o.once^[n] plan))
      (o.run plan).iterations (o.optimize plan) (o.run plan).rulesApplied := by
  obtain ⟨count, total, hrest, hcount, htotal⟩ := settle_comesToRest hroomy rfl 0
  rw [iterations_run, rulesApplied_run, hcount, htotal]
  have hsteps : (o.fresh plan).budget.steps = 0 := rfl
  rw [hsteps, Nat.zero_add, Nat.zero_add]
  exact hrest

end Optimizer
end PipelineFusion
