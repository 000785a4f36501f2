import PipelineFusion.Boundary.Independence
import PipelineFusion.Proofs.Optimizer.NormalForm

/-!
# Independent neighbours and segments

Two neighbours are independent just where a segment can be folded that begins with them.  So a plan
with independent neighbours can be optimized, and once that is done there are none left.
-/

namespace PipelineFusion

namespace Classifier

variable {c : Classifier} {p : Plan} {i k n : Nat}

theorem isStateless_eq (kind : Kind) : kind.isStateless = Segment.slot.accepts kind := by
  cases kind <;> rfl

theorem independent_eq (c : Classifier) (a b : Node) :
    c.independent a b = (Segment.fusable c a && Segment.fusable c b) := by
  rw [independent, isStateless_eq, isStateless_eq, Segment.fusable, Segment.fusable]
  cases Segment.slot.accepts a.kind <;> cases Segment.slot.accepts b.kind <;>
    cases c.isFullyFusable a <;> rfl

theorem segment_fires_pair (c : Classifier) (a b : Node) (rest : Plan) :
    Rule.segment.fires c (a :: b :: rest) = c.independent a b := by
  rw [Bool.eq_iff_iff, Rule.segment_fires_iff, independent_eq, Bool.and_eq_true]
  constructor
  · rintro ⟨a', b', rest', heq, ha, hb⟩
    cases heq
    exact ⟨ha, hb⟩
  · rintro ⟨ha, hb⟩
    exact ⟨a, b, rest, rfl, ha, hb⟩

theorem segment_fires_of_length_lt_two (c : Classifier) (h : p.length < 2) :
    Rule.segment.fires c p = false := by
  by_contra hfires
  obtain ⟨a, b, rest, rfl, -, -⟩ := Rule.segment_fires_iff.1 (Bool.of_not_eq_false hfires)
  rw [List.length_cons, List.length_cons] at h
  omega

theorem independentFrom_cons (c : Classifier) (i : Nat) (node : Node) (rest : Plan) :
    c.independentFrom i (node :: rest) =
      if Rule.segment.fires c (node :: rest) then i :: c.independentFrom (i + 1) rest
      else c.independentFrom (i + 1) rest := by
  cases rest with
  | nil =>
      have hshort : Rule.segment.fires c [node] = false :=
        c.segment_fires_of_length_lt_two (by simp)
      rw [hshort]
      rfl
  | cons b rest => rw [independentFrom, segment_fires_pair]

theorem le_of_mem_independentFrom (h : n ∈ c.independentFrom i p) : i ≤ n := by
  induction p generalizing i with
  | nil => cases h
  | cons node rest ih =>
      rw [independentFrom_cons] at h
      split at h
      · rcases List.mem_cons.1 h with rfl | h
        · exact Nat.le_refl _
        · exact Nat.le_of_succ_le (ih h)
      · exact Nat.le_of_succ_le (ih h)

/-- A pairwise test along the chain finds the windows that the segment rule fires at. -/
theorem mem_independentFrom_iff :
    i + k ∈ c.independentFrom i p ↔ Rule.segment.fires c (p.drop k) = true := by
  induction p generalizing i k with
  | nil => simp [independentFrom, c.segment_fires_of_length_lt_two]
  | cons node rest ih =>
      have hpast : i ∉ c.independentFrom (i + 1) rest := by
        intro hmem
        exact absurd (le_of_mem_independentFrom hmem) (Nat.not_succ_le_self i)
      rw [independentFrom_cons]
      cases k with
      | zero =>
          split
          · next hfires => simp [hfires]
          · next hfires => simp [hfires, hpast]
      | succ k =>
          have hindex : i + (k + 1) = i + 1 + k := by omega
          have hlater : i + 1 + k ≠ i := by omega
          rw [hindex, List.drop_succ_cons, ← ih (i := i + 1)]
          split
          · simp [hlater]
          · rfl

end Classifier

namespace Optimizer

variable {o : Optimizer} {p : Plan} {r : Rule}

theorem canOptimize_of_fires (hr : r ∈ o.rules) {k : Nat}
    (h : r.fires o.classifier (p.drop k) = true) : o.canOptimize p = true := by
  induction p generalizing k with
  | nil =>
      obtain ⟨n, hn⟩ := Option.isSome_iff_exists.1 h
      have hle := Rule.matchSpan_le hn
      simp at hle
      omega
  | cons node rest ih =>
      cases k with
      | zero =>
          have hfirst : (o.firstMatch? (node :: rest)).isSome = true :=
            List.find?_isSome.2 ⟨r, hr, h⟩
          rw [canOptimize, hfirst]
          rfl
      | succ k => rw [canOptimize_cons, ih h, Bool.or_true]

theorem canOptimize_of_independentFrom (hsegment : .segment ∈ o.rules)
    (h : o.classifier.independentFrom 0 p ≠ []) : o.canOptimize p = true := by
  obtain ⟨i, hi⟩ := List.exists_mem_of_ne_nil _ h
  rw [← Nat.zero_add i, Classifier.mem_independentFrom_iff] at hi
  exact canOptimize_of_fires hsegment hi

end Optimizer

namespace Plan

/-- The positions of independent neighbours are those where the segment rule fires.  Where there are
any the plan can be optimized, and an optimized plan has none.  The number of nodes is taken to be a
machine word, as it is for every plan that fits in memory. -/
theorem independentPairs_agree_with_segments (plan : Plan) :
    (∀ i, i ∈ plan.independentPairs ↔ Rule.segment.fires .builtin (plan.drop i) = true) ∧
    (plan.independentPairs ≠ [] → plan.canOptimize = true) ∧
    ((plan == plan) = true → plan.total ≤ maxCount → ∀ maxDepth, 1 ≤ maxDepth →
      (plan.optimize maxDepth).independentPairs = []) := by
  have hsegment : .segment ∈ Rule.all := by decide
  refine ⟨?_, ?_, ?_⟩
  · intro i
    have hmem := Classifier.mem_independentFrom_iff (c := .builtin) (i := 0) (k := i) (p := plan)
    rwa [Nat.zero_add] at hmem
  · intro hpairs
    exact Optimizer.canOptimize_of_independentFrom (o := {}) hsegment hpairs
  · intro hself hcount maxDepth hdepth
    by_contra hpairs
    have hcan := Optimizer.canOptimize_of_independentFrom (o := { maxDepth }) hsegment hpairs
    have hnormal := Optimizer.canOptimize_optimize (o := { maxDepth }) hdepth hself hcount
    rw [Plan.optimize] at hcan
    rw [hcan] at hnormal
    cases hnormal

theorem independentPairs_lagged :
    lagged.independentPairs ≠ [] ∧ lagged.canOptimize = true ∧
      (lagged.optimize 1).independentPairs = [] := by
  obtain ⟨hmem, hcan, hnone⟩ := independentPairs_agree_with_segments lagged
  have hpairs : lagged.independentPairs ≠ [] :=
    List.ne_nil_of_mem ((hmem 0).2 (by decide +kernel))
  exact ⟨hpairs, hcan hpairs,
    hnone (by decide +kernel) (by decide +kernel) 1 (Nat.le_refl 1)⟩

end Plan
end PipelineFusion
