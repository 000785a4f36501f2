import PipelineFusion.Proofs.Optimizer.Derivation
import PipelineFusion.Proofs.Rule.Meaning

/-!
# Normal forms

A plan is normal when no rule of the optimizer can be applied in it, that is when no step leaves it.
A pass that takes no step has asked every rule at every position, so it has gone over a normal plan.
A run whose positions have a budget ends with such a pass, since the budget of the whole run has
room for more steps than a plan has nodes.
-/

namespace PipelineFusion

/-! ## Plans that equal themselves -/

namespace Plan

variable {c : Classifier} {depth : Nat} {p q : Plan} {a : Applied} {as : List Applied}

theorem initial_beq_self_of_fuse {r : Rule} {span : Plan} {node : Node}
    (h : r.fuse span = .ok node) (hspan : ∀ v ∈ span.initial, (v == v) = true) :
    ∀ v ∈ node.initial, (v == v) = true := by
  rcases Rule.initial_of_fuse h with hsame | ⟨i, j, hij, hpair⟩
  · rwa [hsame]
  · rw [hij] at hspan
    intro v hv
    rw [hpair, List.mem_singleton] at hv
    have hi : (i == i) = true := hspan i (by simp)
    have hj : (j == j) = true := hspan j (by simp)
    have hv' : (v == v) = ((i == i) && ((j == j) && true)) := by rw [hv]; rfl
    rw [hv', hi, hj]
    rfl

theorem Step.beq_self (h : Step c.Admits depth p a q) (hp : (p == p) = true) :
    (q == q) = true := by
  rw [beq_self_iff] at hp ⊢
  induction h with
  | @here depth window hit h =>
      rw [← List.take_append_drop hit.length window, initial_append] at hp
      have hnode := initial_beq_self_of_fuse h.fused fun v hv ↦ hp v (List.mem_append_left _ hv)
      intro v hv
      rcases List.mem_append.1 (initial_cons _ _ ▸ hv) with hv | hv
      · exact hnode v hv
      · exact hp v (List.mem_append_right _ hv)
  | later node _ ih =>
      simp only [initial_cons, List.forall_mem_append] at hp ⊢
      exact ⟨hp.1, ih hp.2⟩
  | left mode right purity rest _ ih =>
      simp only [initial_cons, Node.initial, List.forall_mem_append] at hp ⊢
      exact ⟨⟨ih hp.1.1, hp.1.2⟩, hp.2⟩
  | right mode left purity rest _ ih =>
      simp only [initial_cons, Node.initial, List.forall_mem_append] at hp ⊢
      exact ⟨⟨hp.1.1, ih hp.1.2⟩, hp.2⟩

theorem Derives.beq_self (h : Derives c.Admits depth p as q) (hp : (p == p) = true) :
    (q == q) = true := by
  induction h with
  | refl p => exact hp
  | step hstep _ ih => exact ih (hstep.beq_self hp)

end Plan

/-! ## Plans that no step leaves -/

namespace Optimizer

variable {o : Optimizer} {depth : Nat} {p q : Plan} {a : Applied} {as : List Applied}

theorem canOptimize_cons (o : Optimizer) (node : Node) (rest : Plan) :
    o.canOptimize (node :: rest) =
      ((o.hit? (node :: rest)).isSome || o.canOptimizeInside node || o.canOptimize rest) := by
  rw [canOptimize, isSome_firstMatch?]

theorem canOptimize_of_step (h : Plan.Step o.Takes depth p a q) : o.canOptimize p = true := by
  induction h with
  | @here depth window hit h =>
      cases window with
      | nil => exact absurd rfl h.ne_nil
      | cons node rest =>
          have hhit : o.hit? (node :: rest) = some hit := h
          rw [canOptimize_cons, hhit]
          rfl
  | later node _ ih => rw [canOptimize_cons, ih, Bool.or_true]
  | left mode right purity rest _ ih => simp [canOptimize_cons, canOptimizeInside, ih]
  | right mode left purity rest _ ih => simp [canOptimize_cons, canOptimizeInside, ih]

theorem eq_nil_of_derives (h : Plan.Derives o.Takes depth p as q) (hp : o.canOptimize p = false) :
    as = [] := by
  cases h with
  | refl p => rfl
  | step hstep _ =>
      rw [canOptimize_of_step hstep] at hp
      cases hp

/-! ## Passes without steps -/

theorem Sweeps.steps_le {b b' : Budget} (h : o.Sweeps p b q b') : b.steps ≤ b'.steps := by
  obtain ⟨as, -, hadvances⟩ := h.derives
  rw [hadvances.steps_eq]
  exact Nat.le_add_right _ _

theorem Sweeps.cap_eq {b b' : Budget} (h : o.Sweeps p b q b') : b'.cap = b.cap := by
  obtain ⟨as, -, hadvances⟩ := h.derives
  exact hadvances.cap_eq

theorem Sweeps.perPosition_eq {b b' : Budget} (h : o.Sweeps p b q b') :
    b'.perPosition = b.perPosition := by
  obtain ⟨as, -, hadvances⟩ := h.derives
  exact hadvances.perPosition_eq

/-- A pass that neither takes a step nor runs out of them has asked all rules everywhere. -/
theorem Sweeps.canOptimize_eq_false {b b' : Budget} (h : o.Sweeps p b q b')
    (hposition : 0 < b.perPosition) (hlocal : b.localSteps = 0) (hcap : b.steps < b.cap)
    (hidle : b'.steps = b.steps) : o.canOptimize p = false := by
  induction h with
  | nil b => rfl
  | spent plan hspent =>
      simp only [Budget.isExhausted, decide_eq_true_eq] at hspent
      omega
  | hit _ _ _ h _ =>
      have hle := h.steps_le
      simp only [Budget.record] at hle
      omega
  | @leaf rest rest' b b' stage purity _ hnone _ ih =>
      have hhit : o.hit? (.leaf stage purity :: rest) = none := by
        simpa [Budget.isLocalExhausted, hlocal, Nat.pos_iff_ne_zero.1 hposition] using hnone
      have hrest := ih hposition rfl hcap hidle
      rw [canOptimize_cons, hhit, hrest]
      rfl
  | @branch left left' right right' rest rest' b bl br b' mode purity _ hnone hleft hright hrest
      ihl ihr ih =>
      have hhit : o.hit? (.branch mode left right purity :: rest) = none := by
        simpa [Budget.isLocalExhausted, hlocal, Nat.pos_iff_ne_zero.1 hposition] using hnone
      have hl : b.steps ≤ bl.steps := hleft.steps_le
      have hr : bl.steps ≤ br.steps := hright.steps_le
      have hb : br.steps ≤ b'.steps := hrest.steps_le
      have hcapl : bl.cap = b.cap := hleft.cap_eq
      have hcapr : br.cap = bl.cap := hright.cap_eq
      have hposl : bl.perPosition = b.perPosition := hleft.perPosition_eq
      have hposr : br.perPosition = bl.perPosition := hright.perPosition_eq
      have hleft' := ihl hposition rfl hcap (show bl.steps = b.steps by omega)
      have hright' := ihr (show 0 < bl.perPosition by omega) rfl
        (show bl.steps < bl.cap by omega) (show br.steps = bl.steps by omega)
      have hrest' := ih (show 0 < br.perPosition by omega) rfl
        (show br.steps < br.cap by omega) (show b'.steps = br.steps by omega)
      simp [canOptimize_cons, canOptimizeInside, hhit, hleft', hright', hrest']

/-! ## Runs -/

/-- What the loop of a run keeps: the plan equals itself, its positions have a budget, and the run
has room for more steps than can be taken. -/
structure Roomy (current : Plan) (b : Budget) : Prop where
  beq_self : (current == current) = true
  perPosition_pos : 0 < b.perPosition
  steps_add_le : b.steps + max current.total 1 ≤ b.cap

variable {plan : Plan} {s : Session}

theorem Roomy.steps_lt {b : Budget} (h : Roomy p b) : b.steps < b.cap := by
  have hle := h.steps_add_le
  omega

theorem Roomy.isExhausted_eq_false {b : Budget} (h : Roomy p b) : b.isExhausted = false :=
  Budget.isExhausted_eq_false_iff.2 h.steps_lt

theorem room_pass (hroom : s.budget.steps + max plan.total 1 ≤ s.budget.cap) :
    (o.pass plan s).2.budget.steps + max (o.pass plan s).1.total 1 ≤
      (o.pass plan s).2.budget.cap := by
  obtain ⟨as, hderives, hadvances⟩ := o.pass_derives plan s
  have hlength := (Takes.derives hderives).length_add_max_total_le
  rw [hadvances.steps_eq, hadvances.cap_eq]
  omega

theorem Roomy.of_pass (h : Roomy plan s.budget) :
    Roomy (o.pass plan s).1 (o.pass plan s).2.budget := by
  obtain ⟨as, hderives, hadvances⟩ := o.pass_derives plan s
  refine ⟨(Takes.derives hderives).beq_self h.beq_self, ?_, room_pass h.steps_add_le⟩
  rw [hadvances.perPosition_eq]
  exact h.perPosition_pos

theorem Roomy.total_pass_lt (h : Roomy plan s.budget) :
    (o.pass plan s).1.total < plan.total ∨
      (o.pass plan s).1 = plan ∧ s.budget.Advances [] (o.pass plan s).2.budget ∧
        o.canOptimize plan = false := by
  obtain ⟨as, hderives, hadvances⟩ := o.pass_derives plan s
  have hlength := (Takes.derives hderives).length_add_total_le
  cases as with
  | nil =>
      refine Or.inr ⟨hderives.eq_of_nil, hadvances, ?_⟩
      exact (o.sweeps_pass plan s).canOptimize_eq_false h.perPosition_pos rfl h.steps_lt
        hadvances.steps_eq
  | cons a as =>
      rw [List.length_cons] at hlength
      exact Or.inl (by omega)

theorem Roomy.of_settle (h : Roomy plan s.budget) (done : Nat) :
    Roomy (o.settle plan done s).1 (o.settle plan done s).2.2.budget ∧
      o.canOptimize (o.settle plan done s).1 = false := by
  fun_induction settle o plan done s with
  | case1 current done s hspent =>
      rw [h.isExhausted_eq_false] at hspent
      cases hspent
  | case2 current done s hspent next s' hpass hsame =>
      have hnext := h.of_pass (o := o)
      have hidle := h.total_pass_lt (o := o)
      rw [hpass] at hnext hidle
      rcases hidle with hlt | ⟨rfl, -, hnormal⟩
      · rw [Plan.total_eq_of_beq hsame] at hlt
        omega
      · exact ⟨hnext, hnormal⟩
  | case3 current done s hspent next s' hpass hdiffers hsmaller ih =>
      have hnext := h.of_pass (o := o)
      rw [hpass] at hnext
      exact ih hnext
  | case4 current done s hspent next s' hpass hdiffers hsmaller =>
      have hidle := h.total_pass_lt (o := o)
      rw [hpass] at hidle
      -- Only a plan that differs from itself could have come back unequal and no smaller.
      rcases hidle with hlt | ⟨rfl, -, -⟩
      · exact absurd hlt hsmaller
      · exact absurd h.beq_self hdiffers

theorem Roomy.settle_of_normal (h : Roomy plan s.budget) (done : Nat)
    (hnormal : o.canOptimize plan = false) : (o.settle plan done s).2.1 = done + 1 := by
  fun_induction settle o plan done s with
  | case1 current done s hspent =>
      rw [h.isExhausted_eq_false] at hspent
      cases hspent
  | case2 current done s hspent next s' hpass hsame => rfl
  | case3 current done s hspent next s' hpass hdiffers hsmaller ih =>
      obtain ⟨as, hderives, -⟩ := o.pass_derives current s
      rw [hpass, eq_nil_of_derives hderives hnormal] at hderives
      have hnext : next = current := hderives.eq_of_nil
      rw [hnext] at hsmaller
      exact absurd hsmaller (Nat.lt_irrefl _)
  | case4 current done s hspent next s' hpass hdiffers hsmaller => rfl

theorem room_fresh (o : Optimizer) {plan : Plan} (hdepth : 1 ≤ o.maxDepth)
    (hcount : plan.total ≤ maxCount) :
    (o.fresh plan).budget.steps + max plan.total 1 ≤ (o.fresh plan).budget.cap := by
  have hcap : (o.fresh plan).budget.cap = min (o.maxDepth * max plan.total 1) maxCount := rfl
  have hsteps : (o.fresh plan).budget.steps = 0 := rfl
  have hmul : 1 * max plan.total 1 ≤ o.maxDepth * max plan.total 1 :=
    Nat.mul_le_mul_right _ hdepth
  have hone : 1 ≤ maxCount := by decide
  rw [hcap, hsteps]
  omega

theorem roomy_fresh (o : Optimizer) {plan : Plan} (hdepth : 1 ≤ o.maxDepth)
    (hself : (plan == plan) = true) (hcount : plan.total ≤ maxCount) :
    Roomy plan (o.fresh plan).budget :=
  ⟨hself, hdepth, o.room_fresh hdepth hcount⟩

theorem total_optimize_le (o : Optimizer) (plan : Plan) :
    (o.run plan).rulesApplied + (o.optimize plan).total ≤ plan.total := by
  obtain ⟨as, hderives, happlied, -⟩ := o.run_derives plan
  rw [happlied]
  exact (Takes.derives hderives).length_add_total_le

theorem optimize_of_normal (hnormal : o.canOptimize plan = false) :
    o.optimize plan = plan ∧ (o.run plan).rulesApplied = 0 := by
  obtain ⟨as, hderives, happlied, -⟩ := o.run_derives plan
  obtain rfl := eq_nil_of_derives hderives hnormal
  exact ⟨hderives.eq_of_nil, happlied⟩

theorem beq_self_optimize (o : Optimizer) (hself : (plan == plan) = true) :
    (o.optimize plan == o.optimize plan) = true := by
  obtain ⟨as, hderives, -, -⟩ := o.run_derives plan
  exact (Takes.derives hderives).beq_self hself

theorem optimize_eq_self (h : (o.run plan).rulesApplied = 0) : o.optimize plan = plan := by
  obtain ⟨as, hderives, happlied, -⟩ := o.run_derives plan
  obtain rfl : as = [] := List.length_eq_zero_iff.1 (happlied.symm.trans h)
  exact hderives.eq_of_nil

theorem canOptimize_optimize (hdepth : 1 ≤ o.maxDepth) (hself : (plan == plan) = true)
    (hcount : plan.total ≤ maxCount) : o.canOptimize (o.optimize plan) = false :=
  ((o.roomy_fresh hdepth hself hcount).of_settle 0).2

/-- A plan that equals its copy is optimized to a normal form.  So a second run has nothing to do,
and the first one has just when a rule can be applied.  The number of nodes is taken to be a machine
word, as it is for every plan that fits in memory. -/
theorem optimize_reaches_normal_form (o : Optimizer) (plan : Plan) (hdepth : 1 ≤ o.maxDepth)
    (hself : (plan == plan) = true) (hcount : plan.total ≤ maxCount) :
    o.canOptimize (o.optimize plan) = false ∧
    ((o.optimize (o.optimize plan) == o.optimize plan) = true ∧
      (o.run (o.optimize plan)).rulesApplied = 0 ∧ (o.run (o.optimize plan)).iterations = 1) ∧
    (o.canOptimize plan = true ↔ 0 < (o.run plan).rulesApplied) ∧
    (0 < (o.run plan).rulesApplied ↔ (o.optimize plan != plan) = true) := by
  have hnormal := canOptimize_optimize hdepth hself hcount
  have hself' := o.beq_self_optimize hself
  have htotal := o.total_optimize_le plan
  refine ⟨hnormal, ⟨?_, (optimize_of_normal hnormal).2, ?_⟩, ?_, ?_⟩
  · rw [(optimize_of_normal hnormal).1]
    exact hself'
  · have hroomy := o.roomy_fresh hdepth hself' (by omega)
    rw [iterations_run]
    exact hroomy.settle_of_normal 0 hnormal
  · constructor
    · intro hcan
      by_contra hzero
      have hplan : o.optimize plan = plan := optimize_eq_self (by omega)
      rw [hplan, hcan] at hnormal
      cases hnormal
    · intro hpos
      by_contra hcan
      have hidle := (optimize_of_normal (Bool.eq_false_iff.2 hcan)).2
      omega
  · constructor
    · intro hpos
      by_contra hsame
      rw [bne, Bool.not_eq_true', Bool.not_eq_false] at hsame
      have heq := Plan.total_eq_of_beq hsame
      omega
    · intro hdiffers
      by_contra hzero
      have hplan : o.optimize plan = plan := optimize_eq_self (by omega)
      rw [hplan, bne, hself] at hdiffers
      cases hdiffers

end Optimizer

/-- Drops null values, wraps the others, and gives each of them after the one before it. -/
def Plan.lagged : Plan :=
  [.leaf (.filter ⟨.written 0, { label := "present" }, fun x ↦ !x.isNull⟩) .pure,
    .leaf (.map ⟨.written 1, { label := "wrap" }, fun x ↦ .list [x]⟩) .pure,
    .branch .parallel
      [.leaf (.scan .null ⟨.written 2, { label := "delay" }, fun s x ↦ (x, s)⟩) .stateful,
        .leaf (.map ⟨.written 3, { label := "first" }, fun x ↦ x.intoPair.1⟩) .pure] [] .pure]

theorem Optimizer.optimize_lagged :
    ({} : Optimizer).canOptimize Plan.lagged = true ∧
      ({} : Optimizer).canOptimize (({} : Optimizer).optimize Plan.lagged) = false ∧
      0 < (({} : Optimizer).run Plan.lagged).rulesApplied := by
  have hcan : ({} : Optimizer).canOptimize Plan.lagged = true := by decide +kernel
  have h := optimize_reaches_normal_form {} Plan.lagged (by decide) (by decide +kernel)
    (by decide +kernel)
  exact ⟨hcan, h.1, h.2.2.1.1 hcan⟩

end PipelineFusion
