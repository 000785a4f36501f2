import PipelineFusion.Optimizer.Basic
import PipelineFusion.Proofs.Rule.Shape

/-!
# Walls

A wall is a node that fusion leaves alone: a branch, an external effect, or a leaf that is stateful
without being a scan.  No span contains one, so a rule sees of a window only what stands before the
first wall.
-/

namespace PipelineFusion

/-- A branch, an external effect, or a stateful leaf other than a scan. -/
def Classifier.IsWall (c : Classifier) : Node → Prop
  | .leaf stage purity =>
    c.classify (.leaf stage purity) = .opaqueEffect ∨
      c.classify (.leaf stage purity) = .staged ∧ stage.kind ≠ .scan
  | .branch _ _ _ _ => True

namespace Shape

theorem ne_fixed_of_absorb {a b u : Shape} (h : a.absorb b = some u) (o : Outline) :
    a ≠ .fixed o ∧ b ≠ .fixed o ∧ u ≠ .fixed o := by
  cases a <;> cases b <;> cases h <;> simp

theorem ne_fixed_of_foldlM_absorb {first v : Shape} {others : List Shape}
    (h : others.foldlM absorb first = some v) (hothers : others ≠ []) (o : Outline) :
    (∀ s ∈ first :: others, s ≠ .fixed o) ∧ v ≠ .fixed o := by
  induction others generalizing first with
  | nil => exact absurd rfl hothers
  | cons b others ih =>
      rw [List.foldlM_cons] at h
      obtain ⟨u, hu, h⟩ := Option.bind_eq_some_iff.1 h
      obtain ⟨hfirst, hb, hne⟩ := ne_fixed_of_absorb hu o
      have hrest : (∀ s ∈ others, s ≠ .fixed o) ∧ v ≠ .fixed o := by
        cases others with
        | nil =>
            cases h
            exact ⟨by simp, hne⟩
        | cons d others =>
            obtain ⟨hall, hv⟩ := ih h (List.cons_ne_nil d others)
            exact ⟨fun s hs ↦ hall s (List.mem_cons_of_mem u hs), hv⟩
      refine ⟨?_, hrest.2⟩
      intro s hs
      rcases List.mem_cons.1 hs with rfl | hs
      · exact hfirst
      · rcases List.mem_cons.1 hs with rfl | hs
        · exact hb
        · exact hrest.1 s hs

end Shape

namespace Classifier

variable {c : Classifier} {node : Node}

/-- Walls are the nodes whose shape stays. -/
theorem isWall_iff : c.IsWall node ↔ ∃ o, node.shape c = .fixed o := by
  cases node with
  | branch mode left right purity => exact ⟨fun _ ↦ ⟨_, rfl⟩, fun _ ↦ trivial⟩
  | leaf stage purity =>
      have hkind : stage.kind ≠ .compose ∧ stage.kind ≠ .parallel := by
        cases stage <;> simp [Stage.kind]
      rw [IsWall, Node.shape]
      cases hk : stage.kind <;> cases c.classify (.leaf stage purity) <;>
        simp_all [Shape.ofKind]

/-- A node that is no wall is a leaf, fully fusable or else a scan. -/
theorem not_isWall_iff :
    ¬ c.IsWall node ↔ ∃ stage purity, node = .leaf stage purity ∧
      (c.classify node = .fullyFusable ∨ c.classify node = .staged ∧ node.kind = .scan) := by
  cases node with
  | branch mode left right purity => simp [IsWall]
  | leaf stage purity =>
      have hkind : (Node.leaf stage purity).kind = stage.kind := rfl
      rw [IsWall, hkind]
      cases c.classify (.leaf stage purity) <;> simp

end Classifier

/-! ## Spans and windows -/

/-- Neither a span that a rule takes nor the node put in its place is or holds a wall. -/
theorem Rule.not_isWall_of_fuse {r : Rule} {c : Classifier} {window : Plan} {n : Nat}
    {node : Node} (hspan : r.matchSpan c window = some n)
    (h : r.fuse (window.take n) = .ok node) :
    (∀ a ∈ window.take n, ¬ c.IsWall a) ∧ ¬ c.IsWall node := by
  obtain ⟨first, others, hshapes, hfused⟩ := foldlM_absorb_of_fuse hspan h
  have hothers : others ≠ [] := by
    obtain ⟨htwo, hle⟩ := matchSpan_le hspan
    have hlength := congrArg List.length hshapes
    rw [Plan.shapes_eq_map, List.length_map, List.length_take, List.length_cons] at hlength
    rintro rfl
    rw [List.length_nil] at hlength
    omega
  refine ⟨?_, ?_⟩
  · intro a ha hwall
    obtain ⟨o, ho⟩ := Classifier.isWall_iff.1 hwall
    have hmem : a.shape c ∈ first :: others := by
      rw [← hshapes, Plan.shapes_eq_map]
      exact List.mem_map_of_mem ha
    exact (Shape.ne_fixed_of_foldlM_absorb hfused hothers o).1 _ hmem ho
  · intro hwall
    obtain ⟨o, ho⟩ := Classifier.isWall_iff.1 hwall
    exact (Shape.ne_fixed_of_foldlM_absorb hfused hothers o).2 ho

theorem Rule.not_isWall_of_matchSpan {r : Rule} {c : Classifier} {window : Plan} {n : Nat}
    (h : r.matchSpan c window = some n) : ∀ a ∈ window.take n, ¬ c.IsWall a := by
  obtain ⟨node, hnode⟩ := exists_fuse_of_matchSpan h
  exact (not_isWall_of_fuse h hnode).1

section Windows

variable {c : Classifier} {wall : Node} (hwall : c.IsWall wall) (front back : Plan)
include hwall

/-- The span of a rule ends before the first wall. -/
theorem Rule.le_length_of_matchSpan {r : Rule} {n : Nat}
    (h : r.matchSpan c (front ++ wall :: back) = some n) : n ≤ front.length := by
  by_contra hlong
  refine not_isWall_of_matchSpan h wall ?_ hwall
  have hn : n = front.length + (n - front.length - 1 + 1) := by omega
  rw [hn, List.take_length_add_append, List.take_succ_cons]
  simp

theorem Segment.takeWhile_fusable_append :
    (front ++ wall :: back).takeWhile (fusable c) = front.takeWhile (fusable c) := by
  have hfusable : fusable c wall = false := by
    by_contra h
    have hshape := Node.shape_of_fusable (Bool.of_not_eq_false h)
    obtain ⟨o, ho⟩ := Classifier.isWall_iff.1 hwall
    rw [ho] at hshape
    cases hk : decide (wall.kind = .map) <;> rw [hk] at hshape <;> cases hshape
  exact takeWhile_append_cons_of_neg hfusable front back

/-- What stands behind a wall does not matter to a rule. -/
theorem Rule.matchSpan_append_wall (r : Rule) :
    r.matchSpan c (front ++ wall :: back) = r.matchSpan c front := by
  ext n
  cases r with
  | segment =>
      rw [segment_matchSpan_eq_some_iff, segment_matchSpan_eq_some_iff,
        Segment.takeWhile_fusable_append hwall]
  | merge m =>
      constructor
      · intro h
        have hle := le_length_of_matchSpan hwall front back h
        obtain ⟨rfl, a, b, rest, hwindow, hadmits⟩ := merge_matchSpan_eq_some_iff.1 h
        rw [merge_matchSpan_eq_some_iff]
        rcases front with _ | ⟨a', _ | ⟨b', front⟩⟩
        · simp at hle
        · simp at hle
        · cases hwindow
          exact ⟨rfl, _, _, front, rfl, hadmits⟩
      · intro h
        obtain ⟨rfl, a, b, rest, rfl, hadmits⟩ := merge_matchSpan_eq_some_iff.1 h
        exact merge_matchSpan_eq_some_iff.2 ⟨rfl, a, b, rest ++ wall :: back, rfl, hadmits⟩

end Windows

namespace Optimizer

variable {o : Optimizer} {wall : Node}

theorem hit?_append_wall (hwall : o.classifier.IsWall wall) (front back : Plan) :
    o.hit? (front ++ wall :: back) = o.hit? front := by
  rw [hit?, hit?]
  congr 1
  funext r
  rw [attempt?, attempt?, Rule.matchSpan_append_wall hwall]
  cases hn : r.matchSpan o.classifier front with
  | none => rfl
  | some n =>
      have hle := (Rule.matchSpan_le hn).2
      have htake : (front ++ wall :: back).take n = front.take n :=
        List.take_append_of_le_length hle
      simp only [htake]

/-- No rule takes a span that begins with a wall. -/
theorem hit?_wall (hwall : o.classifier.IsWall wall) (back : Plan) :
    o.hit? (wall :: back) = none := by
  rw [← o.hit?_nil, ← hit?_append_wall hwall [] back, List.nil_append]

end Optimizer
end PipelineFusion
