import Mathlib.Logic.Relation
import PipelineFusion.Optimizer.Fixpoint
import PipelineFusion.Proofs.Plan.Equality
import PipelineFusion.Proofs.Rule.Span

/-!
# Derivations

A step replaces a span by one node, at some position of a chain at some depth.  A run of the
optimizer is a derivation, a sequence of steps, and its trace is the list of their labels.  What a
step preserves is thereby preserved by a run, whatever the order of rules, positions and passes.
-/

namespace PipelineFusion

/-- The rule of the hit finds its span at the front of the window and makes the replacement. -/
structure Classifier.Admits (c : Classifier) (window : Plan) (hit : Hit) : Prop where
  found : hit.rule.matchSpan c window = some hit.length
  fused : hit.rule.fuse (window.take hit.length) = .ok hit.replacement

/-- The first rule to find a span at the front of the window makes the hit. -/
def Optimizer.Takes (o : Optimizer) (window : Plan) (hit : Hit) : Prop :=
  o.hit? window = some hit

namespace Plan

/-- One allowed hit in a chain that lies `depth` branches deep, with its entry in the trace. -/
inductive Step (allowed : Plan → Hit → Prop) : Nat → Plan → Applied → Plan → Prop
  | here {depth : Nat} {window : Plan} {hit : Hit} (h : allowed window hit) :
      Step allowed depth window
        ⟨hit.rule.name, depth, explain (window.take hit.length), hit.replacement.label⟩
        (hit.replacement :: window.drop hit.length)
  | later {depth : Nat} {p q : Plan} {a : Applied} (node : Node) (h : Step allowed depth p a q) :
      Step allowed depth (node :: p) a (node :: q)
  | left {depth : Nat} {p q : Plan} {a : Applied} (mode : Mode) (right : Plan) (purity : Purity)
      (rest : Plan) (h : Step allowed (depth + 1) p a q) :
      Step allowed depth (.branch mode p right purity :: rest) a
        (.branch mode q right purity :: rest)
  | right {depth : Nat} {p q : Plan} {a : Applied} (mode : Mode) (left : Plan) (purity : Purity)
      (rest : Plan) (h : Step allowed (depth + 1) p a q) :
      Step allowed depth (.branch mode left p purity :: rest) a
        (.branch mode left q purity :: rest)

/-- Some steps in a row, with their entries in the trace. -/
inductive Derives (allowed : Plan → Hit → Prop) (depth : Nat) : Plan → List Applied → Plan → Prop
  | refl (p : Plan) : Derives allowed depth p [] p
  | step {p q r : Plan} {a : Applied} {as : List Applied} (h : Step allowed depth p a q)
      (hrest : Derives allowed depth q as r) : Derives allowed depth p (a :: as) r

/-- Some rule, admitted by the classifier, is applied somewhere in the plan. -/
def Reduces (c : Classifier) (p q : Plan) : Prop := ∃ a, Step c.Admits 0 p a q

namespace Derives

variable {allowed : Plan → Hit → Prop} {depth : Nat} {p q r : Plan} {as bs : List Applied}

theorem trans (h : Derives allowed depth p as q) (h' : Derives allowed depth q bs r) :
    Derives allowed depth p (as ++ bs) r := by
  induction h with
  | refl p => exact h'
  | step hstep _ ih => exact .step hstep (ih h')

theorem eq_of_nil (h : Derives allowed depth p [] q) : q = p := by
  cases h
  rfl

theorem later (node : Node) (h : Derives allowed depth p as q) :
    Derives allowed depth (node :: p) as (node :: q) := by
  induction h with
  | refl p => exact .refl _
  | step hstep _ ih => exact .step (hstep.later node) ih

theorem left (mode : Mode) (right : Plan) (purity : Purity) (rest : Plan)
    (h : Derives allowed (depth + 1) p as q) :
    Derives allowed depth (.branch mode p right purity :: rest) as
      (.branch mode q right purity :: rest) := by
  induction h with
  | refl p => exact .refl _
  | step hstep _ ih => exact .step (hstep.left mode right purity rest) ih

theorem right (mode : Mode) (left : Plan) (purity : Purity) (rest : Plan)
    (h : Derives allowed (depth + 1) p as q) :
    Derives allowed depth (.branch mode left p purity :: rest) as
      (.branch mode left q purity :: rest) := by
  induction h with
  | refl p => exact .refl _
  | step hstep _ ih => exact .step (hstep.right mode left purity rest) ih

end Derives

theorem Step.mono {allowed allowed' : Plan → Hit → Prop}
    (hmono : ∀ window hit, allowed window hit → allowed' window hit) {depth : Nat} {p q : Plan}
    {a : Applied} (h : Step allowed depth p a q) : Step allowed' depth p a q := by
  induction h with
  | here h => exact .here (hmono _ _ h)
  | later node _ ih => exact .later node ih
  | left mode right purity rest _ ih => exact .left mode right purity rest ih
  | right mode left purity rest _ ih => exact .right mode left purity rest ih

theorem Derives.mono {allowed allowed' : Plan → Hit → Prop}
    (hmono : ∀ window hit, allowed window hit → allowed' window hit) {depth : Nat} {p q : Plan}
    {as : List Applied} (h : Derives allowed depth p as q) : Derives allowed' depth p as q := by
  induction h with
  | refl p => exact .refl p
  | step hstep _ ih => exact .step (hstep.mono hmono) ih

end Plan

/-! ## Steps of an optimizer -/

namespace Optimizer

theorem attempt?_eq_some_iff {c : Classifier} {window : Plan} {r : Rule} {hit : Hit} :
    attempt? c window r = some hit ↔ hit.rule = r ∧ c.Admits window hit := by
  constructor
  · intro h
    unfold attempt? at h
    split at h
    · cases h
    · next n hn =>
        split at h
        · next node hnode =>
            cases h
            exact ⟨rfl, hn, hnode⟩
        · cases h
  · rintro ⟨rfl, hfound, hfused⟩
    simp [attempt?, hfound, hfused]

theorem Takes.admits {o : Optimizer} {window : Plan} {hit : Hit} (h : o.Takes window hit) :
    o.classifier.Admits window hit := by
  obtain ⟨r, -, hattempt⟩ := List.exists_of_findSome?_eq_some h
  exact (attempt?_eq_some_iff.1 hattempt).2

theorem Takes.derives {o : Optimizer} {depth : Nat} {p q : Plan} {as : List Applied}
    (h : Plan.Derives o.Takes depth p as q) : Plan.Derives o.classifier.Admits depth p as q :=
  h.mono fun _ _ ↦ Takes.admits

/-- Every rule that finds a span can replace it, so looking for a match is looking for a hit. -/
theorem isSome_attempt? (c : Classifier) (window : Plan) (r : Rule) :
    (attempt? c window r).isSome = r.fires c window := by
  unfold attempt? Rule.fires
  cases hn : r.matchSpan c window with
  | none => rfl
  | some n =>
      obtain ⟨node, hnode⟩ := Rule.exists_fuse_of_matchSpan hn
      simp [hnode]

/-- For the same reason no rule is passed over as one that refuses its span. -/
theorem refusals_eq_nil (o : Optimizer) (window : Plan) : o.refusals window = [] := by
  rw [refusals, List.filterMap_eq_nil_iff]
  intro r _
  unfold refusal?
  cases hn : r.matchSpan o.classifier window with
  | none => rfl
  | some n =>
      obtain ⟨node, hnode⟩ := Rule.exists_fuse_of_matchSpan hn
      simp [hnode]

theorem isSome_firstMatch? (o : Optimizer) (window : Plan) :
    (o.firstMatch? window).isSome = (o.hit? window).isSome := by
  rw [firstMatch?, hit?, List.isSome_find?, List.isSome_findSome?]
  simp only [isSome_attempt?]

end Optimizer

/-! ## Steps make plans smaller -/

namespace Plan

variable {c : Classifier} {depth : Nat} {p q : Plan} {a : Applied} {as : List Applied}

theorem Step.total_lt (h : Step c.Admits depth p a q) : q.total < p.total := by
  induction h with
  | @here depth window hit h =>
      obtain ⟨htwo, hle⟩ := Rule.matchSpan_le h.found
      have htake := length_le_total (window.take hit.length)
      have hsplit := total_append (window.take hit.length) (window.drop hit.length)
      rw [List.take_append_drop] at hsplit
      rw [List.length_take, Nat.min_eq_left hle] at htake
      rw [total_cons, Rule.total_of_fuse h.fused, hsplit]
      omega
  | later node _ ih => simpa using ih
  | left mode right purity rest _ ih => simpa [Node.total] using ih
  | right mode left purity rest _ ih => simpa [Node.total] using ih

theorem Step.ne_nil {allowed : Plan → Hit → Prop} (h : Step allowed depth p a q) : q ≠ [] := by
  cases h <;> exact List.cons_ne_nil _ _

theorem Derives.length_add_total_le (h : Derives c.Admits depth p as q) :
    as.length + q.total ≤ p.total := by
  induction h with
  | refl p => simp
  | step hstep _ ih =>
      have hlt := hstep.total_lt
      rw [List.length_cons]
      omega

theorem Derives.length_add_max_total_le (h : Derives c.Admits depth p as q) :
    as.length + max q.total 1 ≤ max p.total 1 := by
  induction h with
  | refl p => simp
  | @step p q r a as hstep _ ih =>
      -- A step puts a node in place, so it never leads to the empty plan.
      have hlt := hstep.total_lt
      have hpos : 0 < q.total :=
        Nat.lt_of_lt_of_le (List.length_pos_iff.2 hstep.ne_nil) q.length_le_total
      rw [List.length_cons]
      omega

/-- A plan that a derivation leaves equal to what it was has not been touched. -/
theorem Derives.eq_of_beq (h : Derives c.Admits depth p as q) (hsame : (q == p) = true) :
    as = [] ∧ q = p := by
  have hlength := h.length_add_total_le
  rw [total_eq_of_beq hsame] at hlength
  obtain rfl : as = [] := List.length_eq_zero_iff.1 (by omega)
  exact ⟨rfl, h.eq_of_nil⟩

/-- A branch that is kept because its child plans came out equal to what they were is the same as
one that is rebuilt. -/
theorem Derives.rebuild_eq {left left' right right' : Plan} {depth' : Nat} {bs : List Applied}
    (hleft : Derives c.Admits depth left as left')
    (hright : Derives c.Admits depth' right bs right') (mode : Mode) (purity : Purity) :
    (Node.branch mode left right purity).rebuild left' right' =
      .branch mode left' right' purity := by
  have hkeep : (Node.branch mode left right purity).rebuild left' right' =
      if left' != left || right' != right then .branch mode left' right' purity
      else .branch mode left right purity := rfl
  rw [hkeep]
  split
  · rfl
  · next hequal =>
      obtain ⟨hl, hr⟩ : (left' == left) = true ∧ (right' == right) = true := by
        simpa [bne] using hequal
      rw [(hleft.eq_of_beq hl).2, (hright.eq_of_beq hr).2]

theorem Derives.reduces (h : Derives c.Admits 0 p as q) :
    Relation.ReflTransGen (Reduces c) p q := by
  induction h with
  | refl p => exact .refl
  | step hstep _ ih => exact .head ⟨_, hstep⟩ ih

end Plan

/-! ## Budgets along a run -/

/-- The later budget of a run that has taken the given steps in the meantime. -/
structure Budget.Advances (b : Budget) (as : List Applied) (b' : Budget) : Prop where
  perPosition_eq : b'.perPosition = b.perPosition
  cap_eq : b'.cap = b.cap
  tracing_eq : b'.tracing = b.tracing
  depth_eq : b'.depth = b.depth
  steps_eq : b'.steps = b.steps + as.length
  trace_eq : b'.trace = if b.tracing then b.trace ++ as else b.trace

namespace Budget.Advances

variable {b b' b'' : Budget} {as bs : List Applied}

theorem refl (b : Budget) : b.Advances [] b :=
  ⟨rfl, rfl, rfl, rfl, rfl, by simp⟩

theorem trans (h : b.Advances as b') (h' : b'.Advances bs b'') : b.Advances (as ++ bs) b'' where
  perPosition_eq := h'.perPosition_eq.trans h.perPosition_eq
  cap_eq := h'.cap_eq.trans h.cap_eq
  tracing_eq := h'.tracing_eq.trans h.tracing_eq
  depth_eq := h'.depth_eq.trans h.depth_eq
  steps_eq := by rw [h'.steps_eq, h.steps_eq, List.length_append, Nat.add_assoc]
  trace_eq := by
    rw [h'.trace_eq, h.tracing_eq, h.trace_eq]
    split <;> simp

theorem of_record (name : String) (span : Plan) (node : Node)
    (h : (b.record name span node).Advances as b') :
    b.Advances (⟨name, b.depth, span.explain, node.label⟩ :: as) b' where
  perPosition_eq := h.perPosition_eq
  cap_eq := h.cap_eq
  tracing_eq := h.tracing_eq
  depth_eq := h.depth_eq
  steps_eq := by
    have hrecord : (b.record name span node).steps = b.steps + 1 := rfl
    rw [h.steps_eq, hrecord, List.length_cons]
    omega
  trace_eq := by
    rw [h.trace_eq, record]
    cases b.tracing <;> simp

theorem of_resetLocal (h : b.resetLocal.Advances as b') : b.Advances as b' :=
  ⟨h.1, h.2, h.3, h.4, h.5, h.6⟩

theorem of_children {left right : Budget} {cs : List Applied}
    (hleft : b.enterChild.resetLocal.Advances as left)
    (hright : left.resetLocal.Advances bs right)
    (hrest : right.leaveChild.resetLocal.Advances cs b') : b.Advances (as ++ bs ++ cs) b' := by
  have hinner := hleft.trans hright.of_resetLocal
  have hdepth : right.depth - 1 = b.depth := by
    rw [hinner.depth_eq]
    rfl
  have houter : b.Advances (as ++ bs) right.leaveChild.resetLocal :=
    ⟨hinner.1, hinner.2, hinner.3, hdepth, hinner.5, hinner.6⟩
  exact houter.trans hrest

end Budget.Advances

/-! ## Passes -/

namespace Optimizer

/-- What a pass over a chain makes of the chain and of the budget. -/
inductive Sweeps (o : Optimizer) : Plan → Budget → Plan → Budget → Prop
  | nil (b : Budget) : Sweeps o [] b [] b
  | spent (plan : Plan) {b : Budget} (hspent : b.isExhausted = true) : Sweeps o plan b plan b
  | hit {window q : Plan} {b b' : Budget} {hit : Hit} (hspent : b.isExhausted = false)
      (hlocal : b.isLocalExhausted = false) (htakes : o.Takes window hit)
      (h : Sweeps o (hit.replacement :: window.drop hit.length)
        (b.record hit.rule.name (window.take hit.length) hit.replacement) q b') :
      Sweeps o window b q b'
  | leaf {rest rest' : Plan} {b b' : Budget} (stage : Stage) (purity : Purity)
      (hspent : b.isExhausted = false)
      (hnone : b.isLocalExhausted = true ∨ o.hit? (.leaf stage purity :: rest) = none)
      (h : Sweeps o rest b.resetLocal rest' b') :
      Sweeps o (.leaf stage purity :: rest) b (.leaf stage purity :: rest') b'
  | branch {left left' right right' rest rest' : Plan} {b bl br b' : Budget} (mode : Mode)
      (purity : Purity) (hspent : b.isExhausted = false)
      (hnone : b.isLocalExhausted = true ∨
        o.hit? (.branch mode left right purity :: rest) = none)
      (hleft : Sweeps o left b.enterChild.resetLocal left' bl)
      (hright : Sweeps o right bl.resetLocal right' br)
      (hrest : Sweeps o rest br.leaveChild.resetLocal rest' b') :
      Sweeps o (.branch mode left right purity :: rest) b
        ((Node.branch mode left right purity).rebuild left' right' :: rest') b'

theorem next?_eq_some {o : Optimizer} {b : Budget} {window : Plan} {hit : Hit}
    (h : o.next? b window = some hit) : b.isLocalExhausted = false ∧ o.Takes window hit := by
  unfold next? at h
  split at h
  · cases h
  · next hlocal => exact ⟨by simpa using hlocal, h⟩

theorem next?_eq_none {o : Optimizer} {b : Budget} {window : Plan}
    (h : o.next? b window = none) : b.isLocalExhausted = true ∨ o.hit? window = none := by
  unfold next? at h
  split at h
  · next hlocal => exact Or.inl hlocal
  · exact Or.inr h

theorem sweeps_sweep (o : Optimizer) (position : Nat) (plan : Plan) (s : Session) :
    o.Sweeps plan s.budget (o.sweep position plan s).1 (o.sweep position plan s).2.budget := by
  fun_induction sweep o position plan s with
  | case1 position s => exact .nil _
  | case2 position s node rest hspent => exact .spent _ hspent
  | case3 position s node rest hspent s' hit hnext ih =>
      -- What is logged about a position is nothing to the budget.
      have hbudget : s'.budget = s.budget := budget_consider o position _ s
      rw [hbudget] at hnext
      obtain ⟨hlocal, htakes⟩ := next?_eq_some hnext
      have happly : (s'.apply position (node :: rest) hit).budget =
          s.budget.record hit.rule.name ((node :: rest).take hit.length) hit.replacement := by
        rw [← hbudget]
        rfl
      rw [happly] at ih
      exact .hit (by simpa using hspent) hlocal htakes ih
  | case4 position s rest hspent stage purity rest' s'' s' hnext hrest ih =>
      have hbudget : s'.budget = s.budget := budget_consider o position _ s
      have hreset : s'.resetLocal.budget = s.budget.resetLocal := congrArg Budget.resetLocal hbudget
      rw [hbudget] at hnext
      rw [hreset, hrest] at ih
      exact .leaf stage purity (by simpa using hspent) (next?_eq_none hnext) ih
  | case5 position s rest hspent mode left right purity left' s₁ right' s₂ hright rest' s₃ hrest s'
      hnext hleft ihl ihr ih =>
      have hbudget : s'.budget = s.budget := budget_consider o position _ s
      have hreset : s'.enterChild.resetLocal.budget = s.budget.enterChild.resetLocal :=
        congrArg (fun b ↦ b.enterChild.resetLocal) hbudget
      rw [hbudget] at hnext
      rw [hreset, hleft] at ihl
      rw [hright] at ihr
      rw [hrest] at ih
      exact .branch mode purity (by simpa using hspent) (next?_eq_none hnext) ihl ihr ih

theorem sweeps_pass (o : Optimizer) (plan : Plan) (s : Session) :
    o.Sweeps plan s.budget.resetLocal (o.pass plan s).1 (o.pass plan s).2.budget :=
  o.sweeps_sweep 0 plan s.resetLocal

theorem Sweeps.derives {o : Optimizer} {p q : Plan} {b b' : Budget} (h : o.Sweeps p b q b') :
    ∃ as, Plan.Derives o.Takes b.depth p as q ∧ b.Advances as b' := by
  induction h with
  | nil b => exact ⟨[], .refl _, .refl b⟩
  | spent plan => exact ⟨[], .refl _, .refl _⟩
  | hit _ _ htakes _ ih =>
      obtain ⟨as, hderives, hadvances⟩ := ih
      exact ⟨_, .step (.here htakes) hderives, .of_record _ _ _ hadvances⟩
  | leaf stage purity _ _ _ ih =>
      obtain ⟨as, hderives, hadvances⟩ := ih
      exact ⟨as, hderives.later _, hadvances.of_resetLocal⟩
  | @branch left left' right right' rest rest' b bl br b' mode purity _ _ _ _ _ ihl ihr ih =>
      obtain ⟨as, hleft, hl⟩ := ihl
      obtain ⟨bs, hright, hr⟩ := ihr
      obtain ⟨cs, hrest, hb⟩ := ih
      have hdepth : bl.depth = b.depth + 1 := hl.depth_eq
      have hback : br.depth - 1 = b.depth := by
        rw [hr.depth_eq]
        exact congrArg (· - 1) hdepth
      have hright' : Plan.Derives o.Takes (b.depth + 1) right bs right' := hdepth ▸ hright
      have hrest' : Plan.Derives o.Takes b.depth rest cs rest' := hback ▸ hrest
      rw [(Takes.derives hleft).rebuild_eq (Takes.derives hright') mode purity]
      refine ⟨as ++ bs ++ cs, ?_, hl.of_children hr hb⟩
      exact ((hleft.left mode right purity rest).trans (hright'.right mode left' purity rest)).trans
        (hrest'.later _)

section

variable {o : Optimizer} {p q : Plan} {b b' : Budget}

/-- A pass that leaves the child plans of a branch equal to what they were has taken no step in them,
so it makes no difference that the branch is kept. -/
theorem Sweeps.rebuild_eq {left left' right right' : Plan} {bl bl' br br' : Budget}
    (hleft : o.Sweeps left bl left' bl') (hright : o.Sweeps right br right' br') (mode : Mode)
    (purity : Purity) :
    (Node.branch mode left right purity).rebuild left' right' =
      .branch mode left' right' purity := by
  obtain ⟨as, hl, -⟩ := hleft.derives
  obtain ⟨bs, hr, -⟩ := hright.derives
  exact (Takes.derives hl).rebuild_eq (Takes.derives hr) mode purity

theorem Takes.ne_nil {hit : Hit} (h : o.Takes p hit) : p ≠ [] := by
  rintro rfl
  rw [Takes, hit?_nil] at h
  cases h

/-- A position is not left as long as it has a budget and a rule fires there. -/
theorem Takes.stays {hit : Hit} (h : o.Takes p hit) (hlocal : b.isLocalExhausted = false) :
    ¬ (b.isLocalExhausted = true ∨ o.hit? p = none) := by
  rintro (hlocal' | hnone)
  · rw [hlocal] at hlocal'
    cases hlocal'
  · rw [h] at hnone
    cases hnone

theorem Sweeps.eq_of_isExhausted (h : o.Sweeps p b q b') (hspent : b.isExhausted = true) :
    q = p ∧ b' = b := by
  cases h <;> simp_all

end

end Optimizer

/-! ## Runs -/

namespace Optimizer

theorem pass_derives (o : Optimizer) (plan : Plan) (s : Session) :
    ∃ as, Plan.Derives o.Takes s.budget.depth plan as (o.pass plan s).1 ∧
      s.budget.Advances as (o.pass plan s).2.budget := by
  obtain ⟨as, hderives, hadvances⟩ := (o.sweeps_pass plan s).derives
  exact ⟨as, hderives, hadvances.of_resetLocal⟩

theorem pass_eq_self {o : Optimizer} {plan : Plan} {s : Session}
    (h : ((o.pass plan s).1 == plan) = true) :
    (o.pass plan s).1 = plan ∧ s.budget.Advances [] (o.pass plan s).2.budget := by
  obtain ⟨as, hderives, hadvances⟩ := o.pass_derives plan s
  obtain ⟨rfl, hsame⟩ := (Takes.derives hderives).eq_of_beq h
  exact ⟨hsame, hadvances⟩

theorem settle_derives (o : Optimizer) (current : Plan) (done : Nat) (s : Session) :
    ∃ as, Plan.Derives o.Takes s.budget.depth current as (o.settle current done s).1 ∧
      s.budget.Advances as (o.settle current done s).2.2.budget := by
  fun_induction settle o current done s with
  | case1 current done s hspent => exact ⟨[], .refl _, .refl _⟩
  | case2 current done s hspent next s' hpass hsame =>
      have hself : ((o.pass current s).1 == current) = true := by rwa [hpass]
      have hadvances := (pass_eq_self hself).2
      rw [hpass] at hadvances
      exact ⟨[], .refl _, hadvances⟩
  | case3 current done s hspent next s' hpass hdiffers hsmaller ih =>
      obtain ⟨as, hderives, hadvances⟩ := o.pass_derives current s
      rw [hpass] at hderives hadvances
      obtain ⟨bs, hderives', hadvances'⟩ := ih
      rw [hadvances.depth_eq] at hderives'
      exact ⟨as ++ bs, hderives.trans hderives', hadvances.trans hadvances'⟩
  | case4 current done s hspent next s' hpass hdiffers hsmaller =>
      obtain ⟨as, hderives, hadvances⟩ := o.pass_derives current s
      rw [hpass] at hderives hadvances
      exact ⟨as, hderives, hadvances⟩

def fresh (o : Optimizer) (plan : Plan) : Session :=
  { budget := .start o.maxDepth (some (o.cap plan)) o.tracing }

theorem iterations_run (o : Optimizer) (plan : Plan) :
    (o.run plan).iterations = (o.settle plan 0 (o.fresh plan)).2.1 :=
  rfl

theorem rulesApplied_run (o : Optimizer) (plan : Plan) :
    (o.run plan).rulesApplied = (o.settle plan 0 (o.fresh plan)).2.2.budget.steps := by
  simp only [run, fresh]
  split <;> rfl

theorem trace_run (o : Optimizer) (plan : Plan) :
    (o.run plan).trace = (o.settle plan 0 (o.fresh plan)).2.2.budget.trace := by
  simp only [run, fresh]
  split <;> rfl

theorem exhausted_run (o : Optimizer) (plan : Plan) :
    (o.run plan).exhausted =
      ((o.settle plan 0 (o.fresh plan)).2.2.budget.isExhausted &&
        o.canOptimize (o.settle plan 0 (o.fresh plan)).1) := by
  simp only [run, fresh]

/-- A run derives its result, counts the steps and, if asked to, keeps their trace. -/
theorem run_derives (o : Optimizer) (plan : Plan) :
    ∃ as, Plan.Derives o.Takes 0 plan as (o.optimize plan) ∧
      (o.run plan).rulesApplied = as.length ∧
      (o.run plan).trace = if o.tracing then as else [] := by
  obtain ⟨as, hderives, hadvances⟩ := o.settle_derives plan 0 (o.fresh plan)
  refine ⟨as, hderives, ?_, ?_⟩
  · rw [rulesApplied_run, hadvances.steps_eq]
    exact Nat.zero_add as.length
  · rw [trace_run, hadvances.trace_eq]
    rfl

theorem reduces_optimize (o : Optimizer) (plan : Plan) :
    Relation.ReflTransGen (Plan.Reduces o.classifier) plan (o.optimize plan) := by
  obtain ⟨as, hderives, -, -⟩ := o.run_derives plan
  exact (Takes.derives hderives).reduces

end Optimizer
end PipelineFusion
