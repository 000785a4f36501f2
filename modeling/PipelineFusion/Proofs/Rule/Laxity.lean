import PipelineFusion.Proofs.Boundary.Strictness
import PipelineFusion.Proofs.Rule.Shape

/-!
# Rules under laxer classifiers

A rule that fires under a classifier fires under every laxer one.  The spans may differ, though, and
so do the nodes that come of them.  What can be compared is how many nodes are left of a chain once
it is fused as far as possible, since that does not depend on the order of steps: a shape that stays
where another could be fused leaves more of them.
-/

namespace PipelineFusion

/-! ## Rules that fire -/

theorem Merge.Permits.of_le {m : Merge} {x x' y y' : Boundary} (hx : x ≤ x') (hy : y ≤ y')
    (h : m.Permits x' y') : m.Permits x y := by
  obtain ⟨hfirst, hsecond, h⟩ := h
  refine ⟨Boundary.lt_of_le_of_lt hx hfirst, Boundary.lt_of_le_of_lt hy hsecond, ?_⟩
  cases m with
  | scanScan => trivial
  | scanMap => exact Boundary.eq_fullyFusable_of_le hy h
  | _ => exact ⟨Boundary.eq_fullyFusable_of_le hx h.1, Boundary.eq_fullyFusable_of_le hy h.2⟩

theorem Segment.fusable_of_le {c d : Classifier} (hle : c ≤ d) {node : Node}
    (h : fusable d node = true) : fusable c node = true := by
  rw [Node.fusable_iff] at h ⊢
  exact ⟨h.1, Boundary.eq_fullyFusable_of_le (hle node) h.2⟩

theorem Rule.fires_of_le {r : Rule} {c d : Classifier} (hle : c ≤ d) {window : Plan}
    (h : r.fires d window = true) : r.fires c window = true := by
  cases r with
  | merge m =>
      obtain ⟨a, b, rest, rfl, hadmits⟩ := merge_fires_iff.1 h
      obtain ⟨ha, hb, hpermits⟩ := Merge.admits_iff.1 hadmits
      exact merge_fires_iff.2 ⟨a, b, rest, rfl,
        Merge.admits_iff.2 ⟨ha, hb, hpermits.of_le (hle a) (hle b)⟩⟩
  | segment =>
      obtain ⟨a, b, rest, rfl, ha, hb⟩ := segment_fires_iff.1 h
      exact segment_fires_iff.2 ⟨a, b, rest, rfl, Segment.fusable_of_le hle ha,
        Segment.fusable_of_le hle hb⟩

/-! ## What is left of a chain -/

theorem Outline.totals_append (os os' : List Outline) :
    totals (os ++ os') = totals os + totals os' := by
  induction os with
  | nil => rw [List.nil_append, totals, Nat.zero_add]
  | cons o os ih => rw [List.cons_append, totals, totals, ih, Nat.add_assoc]

namespace Shape

/-- The number of nodes that are left of a chain of shapes, fused as far as possible. -/
def remainder (shapes : List Shape) : Nat := Outline.totals (condense shapes)

theorem gather_append_gatherFrom (a : Shape) (rest front back : List Shape) :
    gather (front ++ gatherFrom a rest ++ back) = gather (front ++ (a :: rest) ++ back) := by
  -- What is settled moves to `front`; what is absorbed may as well be so in the whole chain.
  induction rest generalizing a front with
  | nil => rfl
  | cons b rest ih =>
      cases hab : a.absorb b with
      | some u =>
          have hstep := gather_replace hab front (rest ++ back)
          rw [gatherFrom_of_some hab, ih]
          simpa using hstep.symm
      | none =>
          have hrest := ih b (front ++ [a])
          rw [gatherFrom_of_none hab]
          simpa using hrest

/-- A part of a chain may be fused on its own first. -/
theorem gather_append_gather (shapes front back : List Shape) :
    gather (front ++ gather shapes ++ back) = gather (front ++ shapes ++ back) := by
  cases shapes with
  | nil => rfl
  | cons a rest => exact gather_append_gatherFrom a rest front back

theorem remainder_append_le (front back : List Shape) :
    remainder (front ++ back) ≤ remainder front + remainder back := by
  have hfront := gather_append_gather front [] back
  have hback := gather_append_gather back (gather front) []
  simp only [List.nil_append, List.append_nil] at hfront hback
  have hle := totals_condense_le (gather front ++ gather back)
  rw [List.map_append, Outline.totals_append, condense, hback, hfront] at hle
  exact hle

theorem gatherFrom_fixed (o : Outline) (back : List Shape) :
    gatherFrom (.fixed o) back = .fixed o :: gather back := by
  cases back with
  | nil => rfl
  | cons b back =>
      have hnone : absorb (.fixed o) b = none := by cases b <;> rfl
      exact gatherFrom_of_none hnone back

/-- A shape that stays parts a chain in two. -/
theorem gather_append_fixed (o : Outline) (front back : List Shape) :
    gather (front ++ .fixed o :: back) = gather front ++ .fixed o :: gather back := by
  cases front with
  | nil => exact gatherFrom_fixed o back
  | cons a front =>
      rw [List.cons_append, gather, gather]
      induction front generalizing a with
      | nil =>
          have hnone : a.absorb (.fixed o) = none := by cases a <;> rfl
          rw [List.nil_append, gatherFrom_of_none hnone, gatherFrom_fixed]
          rfl
      | cons b front ih =>
          rw [List.cons_append, gatherFrom, gatherFrom]
          cases a.absorb b <;> simp only [ih, List.cons_append]

theorem remainder_append_fixed (o : Outline) (front back : List Shape) :
    remainder (front ++ .fixed o :: back) = remainder front + (o.total + remainder back) := by
  rw [remainder, condense, gather_append_fixed, List.map_append, Outline.totals_append,
    List.map_cons, Outline.totals]
  rfl

/-- The second shape is the first, or one that stays and stands for no fewer nodes. -/
inductive Stiffens : Shape → Shape → Prop
  | refl (s : Shape) : Stiffens s s
  | fixed {s : Shape} {o : Outline} (h : s.outline.total ≤ o.total) : Stiffens s (.fixed o)

theorem remainder_le_of_stiffens {shapes shapes' : List Shape}
    (h : List.Forall₂ Stiffens shapes shapes') (front : List Shape) :
    remainder (front ++ shapes) ≤ remainder (front ++ shapes') := by
  -- A shape that is the same in both moves to `front`.  One that stays cuts the second chain, and
  -- a cut never makes less of the first.
  induction h generalizing front with
  | nil => exact Nat.le_refl _
  | @cons s s' shapes shapes' hs _ ih =>
      cases hs with
      | refl =>
          have hrest := ih (front ++ [s])
          simpa using hrest
      | fixed hle =>
          have hparts := remainder_append_le front (s :: shapes)
          have hback := remainder_append_le [s] shapes
          have hone : remainder [s] = s.outline.total := Nat.add_zero _
          have hrest := ih []
          rw [remainder_append_fixed]
          rw [List.singleton_append] at hback
          simp only [List.nil_append] at hrest
          omega

theorem ofKind_of_le {x y : Boundary} (h : x ≤ y) (kind : Kind) :
    ofKind kind y = ofKind kind x ∨ ofKind kind y = .fixed .stage := by
  cases x <;> cases y <;> first | exact Or.inl rfl | exact absurd h (by decide) | skip
  all_goals cases kind <;> simp [ofKind]

end Shape

theorem Plan.stiffens_shapes {c d : Classifier} (hle : c ≤ d) (p : Plan) :
    List.Forall₂ Shape.Stiffens (p.shapes c) (p.shapes d) := by
  induction p using Plan.induction with
  | nil => exact .nil
  | leaf stage purity rest ih =>
      refine .cons ?_ ih
      rw [Node.shape, Node.shape]
      rcases Shape.ofKind_of_le (hle (.leaf stage purity)) stage.kind with hsame | hstays
      · rw [hsame]
        exact .refl _
      · rw [hstays]
        refine .fixed ?_
        rw [Shape.outline_ofKind]
  | branch mode left right purity rest ihl ihr ih =>
      have hleft := Shape.remainder_le_of_stiffens ihl []
      have hright := Shape.remainder_le_of_stiffens ihr []
      rw [List.nil_append, List.nil_append] at hleft hright
      refine .cons (.fixed ?_) ih
      change 1 + Shape.remainder (left.shapes c) + Shape.remainder (right.shapes c) ≤
        1 + Shape.remainder (left.shapes d) + Shape.remainder (right.shapes d)
      omega

/-- Under a laxer classifier no more nodes are left of a plan. -/
theorem Plan.remainder_shapes_le {c d : Classifier} (hle : c ≤ d) (p : Plan) :
    Shape.remainder (p.shapes c) ≤ Shape.remainder (p.shapes d) :=
  Shape.remainder_le_of_stiffens (stiffens_shapes hle p) []

end PipelineFusion
