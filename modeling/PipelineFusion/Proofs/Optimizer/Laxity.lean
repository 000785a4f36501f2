import PipelineFusion.Proofs.Optimizer.Optimality
import PipelineFusion.Proofs.Rule.Laxity

/-!
# Optimizers with laxer classifiers

With a laxer classifier an optimizer finds something to do wherever it does with a stricter one, and
in the end it leaves no more nodes.
-/

namespace PipelineFusion
namespace Optimizer

variable {o o' : Optimizer} {plan : Plan}

theorem isSome_firstMatch?_of_le (hle : o.classifier ≤ o'.classifier) (hrules : o.rules = o'.rules)
    {window : Plan} (h : (o'.firstMatch? window).isSome = true) :
    (o.firstMatch? window).isSome = true := by
  rw [firstMatch?, List.isSome_find?, List.any_eq_true] at h ⊢
  obtain ⟨r, hr, hfires⟩ := h
  exact ⟨r, hrules ▸ hr, Rule.fires_of_le hle hfires⟩

theorem canOptimize_of_le (hle : o.classifier ≤ o'.classifier) (hrules : o.rules = o'.rules)
    (h : o'.canOptimize plan = true) : o.canOptimize plan = true := by
  induction plan using Plan.induction with
  | nil => exact h
  | leaf stage purity rest ih =>
      simp only [canOptimize, canOptimizeInside, Bool.or_eq_true, Bool.false_eq_true, or_false]
        at h ⊢
      exact h.imp (isSome_firstMatch?_of_le hle hrules) ih
  | branch mode left right purity rest ihl ihr ih =>
      simp only [canOptimize, canOptimizeInside, Bool.or_eq_true] at h ⊢
      exact h.imp (Or.imp (isSome_firstMatch?_of_le hle hrules) (Or.imp ihl ihr)) ih

theorem Complete.total_optimize (h : o.Complete) (hdepth : 1 ≤ o.maxDepth)
    (hself : (plan == plan) = true) (hcount : plan.total ≤ maxCount) :
    (o.optimize plan).total = Shape.remainder (plan.shapes o.classifier) := by
  rw [← Plan.totals_outline, h.outline_optimize hdepth hself hcount, Shape.remainder]

/-- A stricter classifier never lets more be fused: with the same rules it finds nothing to do where
a laxer one does not, and a complete optimizer is left with no fewer nodes.  Declared purities alone
are the laxest evidence, and more patterns make for a stricter inspection.  The number of nodes is
taken to be a machine word, as it is for every plan that fits in memory. -/
theorem total_optimize_le_of_le :
    (∀ c, Classifier.declared ≤ c) ∧
    (∀ i j : Inspector, i.patterns ⊆ j.patterns → (⟨some i⟩ : Classifier) ≤ ⟨some j⟩) ∧
    ∀ (o o' : Optimizer) (plan : Plan), o.classifier ≤ o'.classifier → o.rules = o'.rules →
      (o'.canOptimize plan = true → o.canOptimize plan = true) ∧
      (o.Complete → 1 ≤ o.maxDepth → 1 ≤ o'.maxDepth → (plan == plan) = true →
        plan.total ≤ maxCount → (o.optimize plan).total ≤ (o'.optimize plan).total) := by
  refine ⟨Classifier.declared_le, fun i j ↦ Classifier.inspect_le, ?_⟩
  intro o o' plan hle hrules
  refine ⟨canOptimize_of_le hle hrules, ?_⟩
  intro hcomplete hdepth hdepth' hself hcount
  have hcomplete' : o'.Complete := by
    obtain ⟨hsegment, hscanMap, hscanScan, hflatMapMap⟩ := hcomplete
    rw [hrules] at hsegment hscanMap hscanScan hflatMapMap
    exact ⟨hsegment, hscanMap, hscanScan, hflatMapMap⟩
  rw [hcomplete.total_optimize hdepth hself hcount, hcomplete'.total_optimize hdepth' hself hcount]
  exact Plan.remainder_shapes_le hle plan

/-- Prints what it passes on, but is declared pure. -/
def covert : Node :=
  .leaf (.map ⟨.written 5, { label := "trace", calls := ["std::io::println"] }, fun x ↦ x⟩) .pure

/-- Takes each call with a qualifier for an external effect as well. -/
def wary : Inspector := { patterns := [.one (.single ':')] }

theorem total_optimize_lagged_covert_lagged :
    ({ classifier := .declared } : Optimizer).canOptimize
      (Plan.lagged ++ covert :: Plan.lagged) = true ∧
    (({ classifier := .declared } : Optimizer).optimize
        (Plan.lagged ++ covert :: Plan.lagged)).total ≤
      (({} : Optimizer).optimize (Plan.lagged ++ covert :: Plan.lagged)).total ∧
    (({} : Optimizer).optimize (Plan.lagged ++ covert :: Plan.lagged)).total ≤
      (({ classifier := ⟨some wary⟩ } : Optimizer).optimize
        (Plan.lagged ++ covert :: Plan.lagged)).total := by
  obtain ⟨hdeclared, hpatterns, h⟩ := total_optimize_le_of_le
  have hself : (Plan.lagged ++ covert :: Plan.lagged == Plan.lagged ++ covert :: Plan.lagged) =
      true := by decide +kernel
  have hcount : (Plan.lagged ++ covert :: Plan.lagged).total ≤ maxCount := by decide +kernel
  obtain ⟨hcan, htotal⟩ := h { classifier := .declared } {} (Plan.lagged ++ covert :: Plan.lagged)
    (hdeclared .builtin) rfl
  obtain ⟨-, htotal'⟩ := h {} { classifier := ⟨some wary⟩ }
    (Plan.lagged ++ covert :: Plan.lagged) (hpatterns {} wary (List.nil_subset _)) rfl
  refine ⟨hcan (by decide +kernel), ?_, ?_⟩
  · exact htotal ⟨by decide, by decide, by decide, by decide⟩ (by decide) (by decide) hself hcount
  · exact htotal' ⟨by decide, by decide, by decide, by decide⟩ (by decide) (by decide) hself hcount

end Optimizer
end PipelineFusion
