import PipelineFusion.Proofs.Optimizer.NormalForm
import PipelineFusion.Proofs.Rule.Shape

/-!
# Optimality

Steps change the shapes of a plan, but not what becomes of them when they are fused as far as
possible.  With four of the rules a normal form has no neighbours left to fuse.  Its outline is then
known from the plan alone, and no other order of steps, with any rules, ends in fewer nodes.
-/

namespace PipelineFusion

/-! ## Shapes along a derivation -/

namespace Plan

variable {c : Classifier} {depth : Nat} {p q : Plan} {a : Applied}

theorem Step.gather_shapes_eq (h : Step c.Admits depth p a q) (front : List Shape) :
    Shape.gather (front ++ p.shapes c) = Shape.gather (front ++ q.shapes c) := by
  -- What is gathered depends on all that stands before, so the front is kept general.
  induction h generalizing front with
  | @here depth window hit h =>
      obtain ⟨first, others, hspan, hfused⟩ := Rule.foldlM_absorb_of_fuse h.found h.fused
      have hwindow := shapes_append c (window.take hit.length) (window.drop hit.length)
      rw [List.take_append_drop, hspan] at hwindow
      rw [hwindow, ← List.append_assoc, Shape.gather_fuse hfused, shapes]
  | later node _ ih =>
      rw [shapes, shapes, List.append_cons, ih, ← List.append_cons]
  | @left depth p q a mode right purity rest _ ih =>
      have hleft : Shape.condense (p.shapes c) = Shape.condense (q.shapes c) :=
        congrArg (List.map Shape.outline) (ih [])
      rw [shapes, shapes, Node.shape, Node.shape, hleft]
  | @right depth p q a mode left purity rest _ ih =>
      have hright : Shape.condense (p.shapes c) = Shape.condense (q.shapes c) :=
        congrArg (List.map Shape.outline) (ih [])
      rw [shapes, shapes, Node.shape, Node.shape, hright]

theorem condense_eq_of_reduces (h : Relation.ReflTransGen (Reduces c) p q) :
    Shape.condense (p.shapes c) = Shape.condense (q.shapes c) := by
  induction h with
  | refl => rfl
  | tail _ hstep ih =>
      obtain ⟨a, hstep⟩ := hstep
      exact ih.trans (congrArg (List.map Shape.outline) (hstep.gather_shapes_eq []))

theorem totals_shapes_le (c : Classifier) (p : Plan) :
    Outline.totals ((p.shapes c).map Shape.outline) ≤ p.total := by
  induction p using Plan.induction with
  | nil => exact Nat.le_refl _
  | leaf stage purity rest ih =>
      have hone : ((Node.leaf stage purity).shape c).outline.total = 1 := by
        rw [Node.shape, Shape.outline_ofKind]
        rfl
      rw [shapes, List.map_cons, Outline.totals, hone, total_cons, Node.total]
      omega
  | branch mode left right purity rest ihl ihr ih =>
      have hleft := Shape.totals_condense_le (left.shapes c)
      have hright := Shape.totals_condense_le (right.shapes c)
      rw [shapes, List.map_cons, Outline.totals, Node.shape, Shape.outline, Outline.total,
        total_cons, Node.total]
      omega

theorem totals_condense_shapes_le (c : Classifier) (p : Plan) :
    Outline.totals (Shape.condense (p.shapes c)) ≤ p.total :=
  (Shape.totals_condense_le (p.shapes c)).trans (totals_shapes_le c p)

end Plan

/-! ## Shapes of a normal form -/

namespace Optimizer

/-- The rules without which neighbours that can be fused may be left; the others are special cases
of the segment rule. -/
structure Complete (o : Optimizer) : Prop where
  segment_mem : .segment ∈ o.rules
  scanMap_mem : .merge .scanMap ∈ o.rules
  scanScan_mem : .merge .scanScan ∈ o.rules
  flatMapMap_mem : .merge .flatMapMap ∈ o.rules

variable {o : Optimizer} {a b : Node} {p : Plan}

theorem Complete.exists_fires (h : o.Complete) {u : Shape}
    (hab : (a.shape o.classifier).absorb (b.shape o.classifier) = some u) (rest : Plan) :
    ∃ r ∈ o.rules, r.fires o.classifier (a :: b :: rest) = true := by
  rcases Shape.absorb_cases hab with ⟨ha, hb⟩ | ⟨ha, hb⟩ | ⟨ha, hb⟩ | ⟨ha, hb⟩
  · exact ⟨_, h.segment_mem, Rule.segment_fires_iff.2
      ⟨a, b, rest, rfl, Node.fusable_of_shape ha, Node.fusable_of_shape hb⟩⟩
  · obtain ⟨hakind, haclass⟩ := Node.shape_eq_scan_iff.1 ha
    obtain ⟨hbkind, hbclass⟩ := Node.shape_eq_map_iff.1 hb
    refine ⟨_, h.scanMap_mem, Rule.merge_fires_iff.2
      ⟨a, b, rest, rfl, Merge.admits_iff.2 ⟨hakind, hbkind, haclass, ?_⟩⟩⟩
    rw [hbclass]
    exact ⟨by decide, rfl⟩
  · obtain ⟨hakind, haclass⟩ := Node.shape_eq_scan_iff.1 ha
    obtain ⟨hbkind, hbclass⟩ := Node.shape_eq_scan_iff.1 hb
    exact ⟨_, h.scanScan_mem, Rule.merge_fires_iff.2
      ⟨a, b, rest, rfl, Merge.admits_iff.2 ⟨hakind, hbkind, haclass, hbclass, trivial⟩⟩⟩
  · obtain ⟨hakind, haclass⟩ := Node.shape_eq_flatMap_iff.1 ha
    obtain ⟨hbkind, hbclass⟩ := Node.shape_eq_map_iff.1 hb
    refine ⟨_, h.flatMapMap_mem, Rule.merge_fires_iff.2
      ⟨a, b, rest, rfl, Merge.admits_iff.2 ⟨hakind, hbkind, ?_⟩⟩⟩
    rw [haclass, hbclass]
    exact ⟨by decide, by decide, rfl, rfl⟩

theorem Complete.isChain_shapes (h : o.Complete) (hnormal : o.canOptimize p = false) :
    (p.shapes o.classifier).IsChain fun a b ↦ a.absorb b = none := by
  induction p with
  | nil => exact .nil
  | cons a p ih =>
      simp only [canOptimize, Bool.or_eq_false_iff] at hnormal
      cases p with
      | nil => exact .singleton _
      | cons b rest =>
          refine List.isChain_cons_cons.2 ⟨?_, ih hnormal.2⟩
          by_contra hab
          obtain ⟨u, hu⟩ := Option.ne_none_iff_exists'.1 hab
          obtain ⟨r, hr, hfires⟩ := h.exists_fires hu rest
          have hfirst := hnormal.1.1
          rw [firstMatch?, List.isSome_find?, List.any_eq_false] at hfirst
          exact hfirst r hr hfires

theorem Complete.condense_shapes (h : o.Complete) (hnormal : o.canOptimize p = false) :
    Shape.condense (p.shapes o.classifier) = (p.shapes o.classifier).map Shape.outline := by
  rw [Shape.condense, Shape.gather_eq_self (h.isChain_shapes hnormal)]

theorem Complete.outline_eq (h : o.Complete) (hnormal : o.canOptimize p = false) :
    p.outline = Shape.condense (p.shapes o.classifier) := by
  rw [h.condense_shapes hnormal]
  induction p using Plan.induction with
  | nil => rfl
  | leaf stage purity rest ih =>
      have hrest := ih (by simp_all [canOptimize])
      rw [Plan.outline, Plan.shapes, List.map_cons, hrest, Node.shape, Shape.outline_ofKind]
      rfl
  | branch mode left right purity rest ihl ihr ih =>
      simp only [canOptimize, canOptimizeInside, Bool.or_eq_false_iff] at hnormal
      have hleft := ihl hnormal.1.2.1
      have hright := ihr hnormal.1.2.2
      rw [Plan.outline, Plan.shapes, List.map_cons, ih hnormal.2, Node.outline, Node.shape, hleft,
        hright, h.condense_shapes hnormal.1.2.1, h.condense_shapes hnormal.1.2.2]
      rfl

theorem Complete.outline_optimize (h : o.Complete) (hdepth : 1 ≤ o.maxDepth)
    (hself : (p == p) = true) (hcount : p.total ≤ maxCount) :
    (o.optimize p).outline = Shape.condense (p.shapes o.classifier) := by
  have hnormal := canOptimize_optimize hdepth hself hcount
  rw [Plan.condense_eq_of_reduces (o.reduces_optimize p)]
  exact h.outline_eq hnormal

/-- Complete optimizers with one classifier fuse a plan equally far, chain by chain, and no sequence
of admitted rule applications ends in a plan with fewer nodes. -/
theorem outline_optimize_eq_and_total_le (o o' : Optimizer) (plan : Plan)
    (hclassifier : o'.classifier = o.classifier) (hcomplete : o.Complete)
    (hcomplete' : o'.Complete) (hdepth : 1 ≤ o.maxDepth) (hdepth' : 1 ≤ o'.maxDepth)
    (hself : (plan == plan) = true) (hcount : plan.total ≤ maxCount) :
    (o.optimize plan).outline = (o'.optimize plan).outline ∧
      (o.optimize plan).length = (o'.optimize plan).length ∧
      (o.optimize plan).total = (o'.optimize plan).total ∧
      ∀ q, Relation.ReflTransGen (Plan.Reduces o.classifier) plan q →
        (o.optimize plan).total ≤ q.total := by
  have houtline := hcomplete.outline_optimize hdepth hself hcount
  have houtline' := hcomplete'.outline_optimize hdepth' hself hcount
  have heq : (o.optimize plan).outline = (o'.optimize plan).outline := by
    rw [houtline, houtline', hclassifier]
  refine ⟨heq, ?_, ?_, ?_⟩
  · rw [← Plan.length_outline, heq, Plan.length_outline]
  · rw [← Plan.totals_outline, heq, Plan.totals_outline]
  · intro q hq
    rw [← Plan.totals_outline, houtline, Plan.condense_eq_of_reduces hq]
    exact q.totals_condense_shapes_le o.classifier

/-- Nothing but the rules of a complete optimizer, one step at a time. -/
def sparing : Optimizer :=
  { rules := [.segment, .merge .flatMapMap, .merge .scanScan, .merge .scanMap], maxDepth := 1 }

theorem total_optimize_lagged :
    (({} : Optimizer).optimize Plan.lagged).total = (sparing.optimize Plan.lagged).total ∧
      ∀ q, Relation.ReflTransGen (Plan.Reduces .builtin) Plan.lagged q →
        (({} : Optimizer).optimize Plan.lagged).total ≤ q.total := by
  have h := outline_optimize_eq_and_total_le {} sparing Plan.lagged rfl
    ⟨by decide, by decide, by decide, by decide⟩ ⟨by decide, by decide, by decide, by decide⟩
    (by decide) (by decide) (by decide +kernel) (by decide +kernel)
  exact ⟨h.2.2.1, h.2.2.2⟩

end Optimizer
end PipelineFusion
