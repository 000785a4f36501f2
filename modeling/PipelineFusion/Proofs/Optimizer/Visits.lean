import PipelineFusion.Proofs.Optimizer.Settling

/-!
# Visits

A pass visits the positions of a chain, and those of the child plans of its branches, one after the
other.  A visit goes on for as long as a rule fires and the budget of the position lasts.  How many
steps it takes is thus determined by the chain from the position on, whatever the pass, or the run,
has done elsewhere.
-/

namespace PipelineFusion

/-- A visit of a position: the chain from there on as it is found and as it is left, and the number
of steps in between. -/
structure Visit where
  found : Plan
  steps : Nat
  left : Plan

/-- The result of a pass, with the visits that it has ended. -/
structure Tour where
  plan : Plan
  session : Session
  visits : List Visit

namespace Optimizer

/-! ## Steps at one position -/

/-- The given number of steps in a row, all of them at the front of the chain. -/
inductive Lingers (o : Optimizer) (found : Plan) : Nat → Plan → Prop
  | refl : Lingers o found 0 found
  | step {k : Nat} {window : Plan} {hit : Hit} (h : Lingers o found k window)
      (htakes : o.Takes window hit) :
      Lingers o found (k + 1) (hit.replacement :: window.drop hit.length)

/-- A visit takes the steps that there are at its position, and ends early only if there are no
more. -/
structure Keeps (o : Optimizer) (v : Visit) : Prop where
  lingers : o.Lingers v.found v.steps v.left
  steps_le : v.steps ≤ o.maxDepth
  hit?_eq_none : v.steps < o.maxDepth → o.hit? v.left = none

variable {o : Optimizer} {found p q : Plan} {k l : Nat} {v v' : Visit}

theorem Lingers.unique (h : o.Lingers found k p) (h' : o.Lingers found k q) : p = q := by
  induction h generalizing q with
  | refl =>
      cases h'
      rfl
  | step _ htakes ih =>
      cases h' with
      | step h' htakes' =>
          obtain rfl := ih h'
          obtain rfl := Option.some.inj (htakes.symm.trans htakes')
          rfl

/-- Where one can linger for longer, a rule still fires. -/
theorem Lingers.hit?_ne_none (h : o.Lingers found k p) (h' : o.Lingers found l q) (hlt : k < l) :
    o.hit? p ≠ none := by
  induction h' with
  | refl => exact absurd hlt (Nat.not_lt_zero k)
  | @step l window hit h' htakes ih =>
      rcases Nat.lt_succ_iff_lt_or_eq.1 hlt with hlt | rfl
      · exact ih hlt
      · obtain rfl := h.unique h'
        rw [htakes]
        exact Option.some_ne_none hit

theorem Keeps.steps_le_of_found (h : o.Keeps v) (h' : o.Keeps v') (hfound : v'.found = v.found) :
    v.steps ≤ v'.steps := by
  by_contra hmore
  have hlt := Nat.lt_of_not_le hmore
  have hlingers := h'.lingers
  rw [hfound] at hlingers
  exact hlingers.hit?_ne_none h.lingers hlt (h'.hit?_eq_none (hlt.trans_le h.steps_le))

/-- The chain that is found decides how many steps are taken, and so which chain is left. -/
theorem Keeps.unique (h : o.Keeps v) (h' : o.Keeps v') (hfound : v'.found = v.found) :
    v'.steps = v.steps ∧ v'.left = v.left := by
  have hsteps : v'.steps = v.steps :=
    Nat.le_antisymm (h'.steps_le_of_found h hfound.symm) (h.steps_le_of_found h' hfound)
  have hlingers := h'.lingers
  rw [hfound, hsteps] at hlingers
  exact ⟨hsteps, hlingers.unique h.lingers⟩

theorem Keeps.matchSpan_eq_none (h : o.Keeps v) (hlt : v.steps < o.maxDepth) {r : Rule}
    (hr : r ∈ o.rules) : r.matchSpan o.classifier v.left = none := by
  have hattempt := List.findSome?_eq_none_iff.1 (h.hit?_eq_none hlt) r hr
  have hfires := isSome_attempt? o.classifier v.left r
  rw [hattempt, Rule.fires] at hfires
  exact Option.not_isSome_iff_eq_none.1 (Bool.eq_false_iff.1 hfires.symm)

/-! ## A pass with its visits -/

section

variable {position : Nat} {s : Session} {rest : Plan} (hspent : s.budget.isExhausted = false)

include hspent

theorem sweep_of_next? {node : Node} {hit : Hit}
    (hnext : o.next? (o.consider position (node :: rest) s).budget (node :: rest) = some hit) :
    o.sweep position (node :: rest) s =
      o.sweep position (hit.replacement :: (node :: rest).drop hit.length)
        ((o.consider position (node :: rest) s).apply position (node :: rest) hit) := by
  rw [sweep, if_neg (Bool.not_eq_true _ ▸ hspent)]
  dsimp only
  split
  · next hit' hnext' =>
      obtain rfl := Option.some.inj (hnext.symm.trans hnext')
      rfl
  · next hnone =>
      rw [hnext] at hnone
      cases hnone

theorem sweep_leaf {stage : Stage} {purity : Purity}
    (hnext : o.next? (o.consider position (.leaf stage purity :: rest) s).budget
      (.leaf stage purity :: rest) = none) :
    o.sweep position (.leaf stage purity :: rest) s =
      let s := o.consider position (.leaf stage purity :: rest) s
      let (rest, s) := o.sweep (position + 1) rest s.resetLocal
      (.leaf stage purity :: rest, s) := by
  rw [sweep, if_neg (Bool.not_eq_true _ ▸ hspent)]
  dsimp only
  split
  · next hit hsome =>
      rw [hnext] at hsome
      cases hsome
  · rfl

theorem sweep_branch {mode : Mode} {left right : Plan} {purity : Purity}
    (hnext : o.next? (o.consider position (.branch mode left right purity :: rest) s).budget
      (.branch mode left right purity :: rest) = none) :
    o.sweep position (.branch mode left right purity :: rest) s =
      let s := o.consider position (.branch mode left right purity :: rest) s
      let (left', s) := o.sweep 0 left s.enterChild.resetLocal
      let (right', s) := o.sweep 0 right s.resetLocal
      let (rest, s) := o.sweep (position + 1) rest s.leaveChild.resetLocal
      ((Node.branch mode left right purity).rebuild left' right' :: rest, s) := by
  rw [sweep, if_neg (Bool.not_eq_true _ ▸ hspent)]
  dsimp only
  split
  · next hit hsome =>
      rw [hnext] at hsome
      cases hsome
  · rfl

end

/-- The pass from `position` on, with its visits.  The one at hand has found the chain `found` and
has taken `steps` steps. -/
def tour (o : Optimizer) (found : Plan) (steps position : Nat) (plan : Plan) (s : Session) : Tour :=
  match plan with
  | [] => ⟨[], s, []⟩
  | node :: rest =>
    if s.budget.isExhausted then ⟨node :: rest, s, []⟩
    else
      let s := o.consider position (node :: rest) s
      match _hn : o.next? s.budget (node :: rest) with
      | some h =>
        tour o found (steps + 1) position (h.replacement :: (node :: rest).drop h.length)
          (s.apply position (node :: rest) h)
      | none =>
        let visit : Visit := ⟨found, steps, node :: rest⟩
        match node with
        | .leaf stage purity =>
          let ⟨rest, s, vs⟩ := tour o rest 0 (position + 1) rest s.resetLocal
          ⟨.leaf stage purity :: rest, s, visit :: vs⟩
        | .branch mode left right purity =>
          let ⟨left', s, ls⟩ := tour o left 0 0 left s.enterChild.resetLocal
          let ⟨right', s, rs⟩ := tour o right 0 0 right s.resetLocal
          let ⟨rest, s, vs⟩ := tour o rest 0 (position + 1) rest s.leaveChild.resetLocal
          ⟨(Node.branch mode left right purity).rebuild left' right' :: rest, s,
            visit :: (ls ++ rs ++ vs)⟩
termination_by plan.total
decreasing_by
  · exact total_splice_lt (hit?_of_next? _hn)
  all_goals
    simp only [Plan.total_cons, Node.total]
    omega

/-- Keeping account of the visits does not disturb the pass. -/
theorem sweep_eq_tour (o : Optimizer) (found : Plan) (steps position : Nat) (plan : Plan)
    (s : Session) :
    o.sweep position plan s =
      ((o.tour found steps position plan s).plan,
        (o.tour found steps position plan s).session) := by
  fun_induction tour o found steps position plan s with
  | case1 found steps position s => rw [sweep]
  | case2 found steps position s node rest hspent => rw [sweep, if_pos hspent]
  | case3 found steps position s node rest hspent s' hit hnext ih =>
      rw [sweep_of_next? (Bool.eq_false_iff.2 hspent) hnext, ih]
  | case4 found steps position s rest hspent stage purity rest' s'' vs s' visit hnext hrest ih =>
      rw [sweep_leaf (Bool.eq_false_iff.2 hspent) hnext]
      dsimp only
      rw [ih, hrest]
  | case5 found steps position s rest hspent mode left right purity left' s₁ ls right' s₂ rs hright
      rest' s₃ vs hrest s' visit hnext hleft ihl ihr ih =>
      rw [sweep_branch (Bool.eq_false_iff.2 hspent) hnext]
      dsimp only
      rw [ihl, hleft]
      dsimp only
      rw [ihr, hright]
      dsimp only
      rw [ih, hrest]

theorem sweeps_tour (o : Optimizer) (found : Plan) (steps position : Nat) (plan : Plan)
    (s : Session) :
    o.Sweeps plan s.budget (o.tour found steps position plan s).plan
      (o.tour found steps position plan s).session.budget := by
  have h := o.sweeps_sweep position plan s
  rwa [sweep_eq_tour o found steps] at h

/-- What holds in the middle of a visit. -/
structure Visiting (o : Optimizer) (found : Plan) (steps : Nat) (window : Plan) (b : Budget) :
    Prop where
  lingers : o.Lingers found steps window
  perPosition_eq : b.perPosition = o.maxDepth
  localSteps_eq : b.localSteps = steps
  steps_le : steps ≤ o.maxDepth

theorem Visiting.start {b : Budget} (found : Plan) (hposition : b.perPosition = o.maxDepth) :
    o.Visiting found 0 found b.resetLocal :=
  ⟨.refl, hposition, rfl, Nat.zero_le o.maxDepth⟩

theorem Visiting.isLocalExhausted_eq_false_iff {b : Budget} {window : Plan}
    (h : o.Visiting found k window b) : b.isLocalExhausted = false ↔ k < o.maxDepth := by
  rw [Budget.isLocalExhausted, h.perPosition_eq, h.localSteps_eq, decide_eq_false_iff_not,
    Nat.not_le]

theorem Visiting.record {b : Budget} {window : Plan} {hit : Hit} (h : o.Visiting found k window b)
    (hnext : o.next? b window = some hit) (rule : String) (span : Plan) (node : Node) :
    o.Visiting found (k + 1) (hit.replacement :: window.drop hit.length)
      (b.record rule span node) := by
  obtain ⟨hlocal, htakes⟩ := next?_eq_some hnext
  have hlt := h.isLocalExhausted_eq_false_iff.1 hlocal
  exact ⟨.step h.lingers htakes, h.perPosition_eq, congrArg (· + 1) h.localSteps_eq, hlt⟩

theorem Visiting.keeps {b : Budget} {window : Plan} (h : o.Visiting found k window b)
    (hnext : o.next? b window = none) : o.Keeps ⟨found, k, window⟩ := by
  refine ⟨h.lingers, h.steps_le, ?_⟩
  intro hlt
  have hlocal := h.isLocalExhausted_eq_false_iff.2 hlt
  apply (next?_eq_none hnext).resolve_left
  exact Bool.eq_false_iff.1 hlocal

/-- Every visit of a pass takes the steps at its position that the budget allows. -/
theorem keeps_of_mem_tour {steps position : Nat} {plan : Plan} {s : Session}
    (h : o.Visiting found steps plan s.budget) :
    ∀ v ∈ (o.tour found steps position plan s).visits, o.Keeps v := by
  fun_induction tour o found steps position plan s with
  | case1 found steps position s => simp
  | case2 found steps position s node rest hspent => simp
  | case3 found steps position s node rest hspent s' hit hnext ih =>
      rw [← budget_consider o position (node :: rest) s] at h
      exact ih (h.record hnext _ _ _)
  | case4 found steps position s rest hspent stage purity rest' s'' vs s' visit hnext hrest ih =>
      rw [← budget_consider o position (.leaf stage purity :: rest) s] at h
      have hposition : s'.budget.perPosition = o.maxDepth := h.perPosition_eq
      have hvisits := ih (.start rest hposition)
      rw [hrest] at hvisits
      exact List.forall_mem_cons.2 ⟨h.keeps hnext, hvisits⟩
  | case5 found steps position s rest hspent mode left right purity left' s₁ ls right' s₂ rs hright
      rest' s₃ vs hrest s' visit hnext hleft ihl ihr ih =>
      rw [← budget_consider o position (.branch mode left right purity :: rest) s] at h
      have hposition : s'.budget.perPosition = o.maxDepth := h.perPosition_eq
      have hl := (o.sweeps_tour left 0 0 left s'.enterChild.resetLocal).perPosition_eq
      have hr := (o.sweeps_tour right 0 0 right s₁.resetLocal).perPosition_eq
      have hls := ihl (.start left hposition)
      rw [hleft] at hl hls
      have hposition₁ : s₁.budget.perPosition = o.maxDepth := hl.trans hposition
      have hrs := ihr (.start right hposition₁)
      rw [hright] at hr hrs
      have hposition₂ : s₂.budget.perPosition = o.maxDepth := hr.trans hposition₁
      have hvs := ih (.start rest hposition₂)
      rw [hrest] at hvs
      simp only [List.forall_mem_cons, List.forall_mem_append]
      exact ⟨h.keeps hnext, ⟨hls, hrs⟩, hvs⟩

/-! ## Accounts -/

theorem Sweeps.isExhausted_eq_false {b b' : Budget} (h : o.Sweeps p b q b')
    (hlasts : b'.isExhausted = false) : b.isExhausted = false := by
  rw [Budget.isExhausted_eq_false_iff, h.cap_eq] at hlasts
  exact Budget.isExhausted_eq_false_iff.2 (h.steps_le.trans_lt hlasts)

/-- If the budget of the run lasts, every node of the result has had its visit, and all steps are
those of the visits. -/
theorem account_tour {steps position : Nat} {plan : Plan} {s : Session}
    (hnil : plan = [] → steps = 0)
    (hlasts : (o.tour found steps position plan s).session.budget.isExhausted = false) :
    (o.tour found steps position plan s).visits.length =
        (o.tour found steps position plan s).plan.total ∧
      s.budget.steps + ((o.tour found steps position plan s).visits.map Visit.steps).sum =
        (o.tour found steps position plan s).session.budget.steps + steps := by
  fun_induction tour o found steps position plan s with
  | case1 found steps position s => simp [hnil rfl]
  | case2 found steps position s node rest hspent => simp [hspent] at hlasts
  | case3 found steps position s node rest hspent s' hit hnext ih =>
      obtain ⟨hlength, hsum⟩ := ih (fun hnil ↦ absurd hnil (List.cons_ne_nil _ _)) hlasts
      have hs : s'.budget.steps = s.budget.steps :=
        congrArg Budget.steps (budget_consider o position _ s)
      have hsteps : (s'.apply position (node :: rest) hit).budget.steps = s'.budget.steps + 1 := rfl
      exact ⟨hlength, by omega⟩
  | case4 found steps position s rest hspent stage purity rest' s'' vs s' visit hnext hrest ih =>
      have hs : s'.budget.steps = s.budget.steps :=
        congrArg Budget.steps (budget_consider o position _ s)
      rw [hrest] at ih
      obtain ⟨hlength, hsum⟩ := ih (fun _ ↦ rfl) hlasts
      simp only [Session.resetLocal, Budget.resetLocal] at hlength hsum
      simp only [List.length_cons, List.map_cons, List.sum_cons, Plan.total_cons, Node.total, visit]
      exact ⟨by omega, by omega⟩
  | case5 found steps position s rest hspent mode left right purity left' s₁ ls right' s₂ rs hright
      rest' s₃ vs hrest s' visit hnext hleft ihl ihr ih =>
      have hs : s'.budget.steps = s.budget.steps :=
        congrArg Budget.steps (budget_consider o position _ s)
      have hsweepsLeft := o.sweeps_tour left 0 0 left s'.enterChild.resetLocal
      have hsweepsRight := o.sweeps_tour right 0 0 right s₁.resetLocal
      have hsweepsRest := o.sweeps_tour rest 0 (position + 1) rest s₂.leaveChild.resetLocal
      rw [hleft] at ihl hsweepsLeft
      rw [hright] at ihr hsweepsRight
      rw [hrest] at ih hsweepsRest
      -- A budget that lasts to the end of the pass has lasted in both children.
      have hlasts₂ : s₂.budget.isExhausted = false := hsweepsRest.isExhausted_eq_false hlasts
      have hlasts₁ : s₁.budget.isExhausted = false := hsweepsRight.isExhausted_eq_false hlasts₂
      obtain ⟨hl, hlsum⟩ := ihl (fun _ ↦ rfl) hlasts₁
      obtain ⟨hr, hrsum⟩ := ihr (fun _ ↦ rfl) hlasts₂
      obtain ⟨hlength, hsum⟩ := ih (fun _ ↦ rfl) hlasts
      simp only [Session.enterChild, Session.leaveChild, Session.resetLocal, Budget.enterChild,
        Budget.leaveChild, Budget.resetLocal] at hl hlsum hr hrsum hlength hsum
      rw [hsweepsLeft.rebuild_eq hsweepsRight]
      simp only [List.length_cons, List.length_append, List.map_cons, List.map_append,
        List.sum_cons, List.sum_append, Plan.total_cons, Node.total, visit]
      exact ⟨by omega, by omega⟩

/-! ## Runs -/

/-- A run after the given number of passes. -/
def after (o : Optimizer) (plan : Plan) : Nat → Plan × Session
  | 0 => (plan, o.fresh plan)
  | n + 1 => o.pass (o.after plan n).1 (o.after plan n).2

/-- The pass that comes after the given number of others, with its visits. -/
def passAfter (o : Optimizer) (plan : Plan) (n : Nat) : Tour :=
  o.tour (o.after plan n).1 0 0 (o.after plan n).1 (o.after plan n).2.resetLocal

variable {plan : Plan} {s : Session}

theorem after_succ (o : Optimizer) (plan : Plan) (n : Nat) :
    o.after plan (n + 1) = ((o.passAfter plan n).plan, (o.passAfter plan n).session) :=
  o.sweep_eq_tour _ 0 0 _ _

theorem settle_eq_after (o : Optimizer) (plan : Plan) (done : Nat) {current : Plan}
    (hafter : o.after plan done = (current, s)) :
    (o.after plan (o.settle current done s).2.1).1 = (o.settle current done s).1 ∧
      (o.after plan (o.settle current done s).2.1).2.budget =
        (o.settle current done s).2.2.budget := by
  have hnext : o.after plan (done + 1) = o.pass current s := by rw [after, hafter]
  fun_induction settle o current done s with
  | case1 current done s hspent =>
      rw [hafter]
      exact ⟨rfl, rfl⟩
  | case2 current done s hspent next s' hpass hsame =>
      have hself : ((o.pass current s).1 == current) = true := by rwa [hpass]
      have hplan := (pass_eq_self hself).1
      rw [hpass] at hnext hplan
      dsimp only
      rw [hnext]
      exact ⟨hplan, rfl⟩
  | case3 current done s hspent next s' hpass hdiffers hsmaller ih =>
      rw [hpass] at hnext
      apply ih hnext
      rw [after, hnext]
  | case4 current done s hspent next s' hpass hdiffers hsmaller =>
      rw [hpass] at hnext
      dsimp only
      rw [hnext]
      exact ⟨rfl, rfl⟩

theorem optimize_eq_after (o : Optimizer) (plan : Plan) :
    o.optimize plan = (o.after plan (o.run plan).iterations).1 ∧
      (o.run plan).rulesApplied = (o.after plan (o.run plan).iterations).2.budget.steps := by
  obtain ⟨hplan, hbudget⟩ := o.settle_eq_after plan 0 rfl
  rw [rulesApplied_run, iterations_run, hplan, hbudget]
  exact ⟨rfl, rfl⟩

theorem perPosition_after (o : Optimizer) (plan : Plan) (n : Nat) :
    (o.after plan n).2.budget.perPosition = o.maxDepth := by
  induction n with
  | zero => rfl
  | succ n ih => exact (o.sweeps_pass _ _).perPosition_eq.trans ih

theorem isExhausted_after (hdepth : 1 ≤ o.maxDepth) (hcount : plan.total ≤ maxCount) (n : Nat) :
    (o.after plan n).2.budget.isExhausted = false := by
  have hroom : (o.after plan n).2.budget.steps + max (o.after plan n).1.total 1 ≤
      (o.after plan n).2.budget.cap := by
    induction n with
    | zero => exact o.room_fresh hdepth hcount
    | succ n ih => exact room_pass ih
  rw [Budget.isExhausted_eq_false_iff]
  omega

theorem keeps_of_mem_passAfter {n : Nat} (hv : v ∈ (o.passAfter plan n).visits) : o.Keeps v :=
  keeps_of_mem_tour (.start _ (o.perPosition_after plan n)) v hv

/-- A run consists of passes, and a pass visits positions.  At each of them it takes steps until it
has spent the budget of the position or no rule finds a span any more.  So how many they are and
what they lead to depends on nothing but the chain that is found there; two visits that find the
same, in whatever passes of whatever runs, go the same way.  As long as positions have a budget, no
pass breaks off: each node of its result has had a visit, and no steps are taken but those of the
visits.  The number of nodes is taken to be a machine word for that, as it is for every plan that
fits in memory. -/
theorem visits_keep_budget (o : Optimizer) (plan : Plan) :
    (o.optimize plan = (o.after plan (o.run plan).iterations).1 ∧
      (o.run plan).rulesApplied = (o.after plan (o.run plan).iterations).2.budget.steps ∧
      ∀ n, o.after plan (n + 1) = ((o.passAfter plan n).plan, (o.passAfter plan n).session)) ∧
    (∀ n, ∀ v ∈ (o.passAfter plan n).visits,
      o.Lingers v.found v.steps v.left ∧ v.steps ≤ o.maxDepth ∧
      (v.steps < o.maxDepth → ∀ r ∈ o.rules, r.matchSpan o.classifier v.left = none) ∧
      ∀ plan' n', ∀ v' ∈ (o.passAfter plan' n').visits, v'.found = v.found →
        v'.steps = v.steps ∧ v'.left = v.left) ∧
    (1 ≤ o.maxDepth → plan.total ≤ maxCount → ∀ n,
      (o.passAfter plan n).visits.length = (o.passAfter plan n).plan.total ∧
      (o.after plan n).2.budget.steps + ((o.passAfter plan n).visits.map Visit.steps).sum =
        (o.passAfter plan n).session.budget.steps) := by
  obtain ⟨hplan, hsteps⟩ := o.optimize_eq_after plan
  refine ⟨⟨hplan, hsteps, o.after_succ plan⟩, ?_, ?_⟩
  · intro n v hv
    have hkeeps := keeps_of_mem_passAfter hv
    refine ⟨hkeeps.lingers, hkeeps.steps_le, fun hlt r hr ↦ hkeeps.matchSpan_eq_none hlt hr, ?_⟩
    intro plan' n' v' hv' hfound
    exact hkeeps.unique (keeps_of_mem_passAfter hv') hfound
  · intro hdepth hcount n
    have hlasts := isExhausted_after hdepth hcount (n + 1)
    rw [after_succ] at hlasts
    exact account_tour (fun _ ↦ rfl) hlasts

theorem visits_lagged :
    (∀ v ∈ (stepwise.passAfter Plan.lagged 0).visits, v.steps ≤ 1) ∧
      (stepwise.passAfter Plan.lagged 0).visits.length =
        (stepwise.passAfter Plan.lagged 0).plan.total ∧
      0 < ((stepwise.passAfter Plan.lagged 0).visits.map Visit.steps).sum := by
  obtain ⟨⟨-, -, hpasses⟩, hvisits, haccount⟩ := visits_keep_budget stepwise Plan.lagged
  obtain ⟨hlength, hsum⟩ := haccount (by decide) (by decide +kernel) 0
  refine ⟨fun v hv ↦ (hvisits 0 v hv).2.1, hlength, ?_⟩
  by_contra hidle
  have hsteps : (stepwise.after Plan.lagged 0).2.budget.steps = 0 := rfl
  have hpass : stepwise.pass Plan.lagged (stepwise.fresh Plan.lagged) =
      ((stepwise.passAfter Plan.lagged 0).plan, (stepwise.passAfter Plan.lagged 0).session) :=
    hpasses 0
  have hsame : (stepwise.passAfter Plan.lagged 0).session.budget.steps =
      (stepwise.fresh Plan.lagged).budget.resetLocal.steps := by
    change _ = 0
    omega
  -- A pass without steps would have found no rule anywhere.
  have hsweeps := stepwise.sweeps_pass Plan.lagged (stepwise.fresh Plan.lagged)
  rw [hpass] at hsweeps
  have hnormal := hsweeps.canOptimize_eq_false (by decide) rfl (by decide +kernel) hsame
  exact absurd hnormal (by decide +kernel)

end Optimizer
end PipelineFusion
