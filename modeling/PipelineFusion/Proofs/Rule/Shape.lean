import PipelineFusion.Proofs.Plan.Outline
import PipelineFusion.Proofs.Rule.Evidence

/-!
# Shapes

The shape of a node is what matters for how far a chain can be fused.  Fully fusable maps go into
whatever stateless stage or scan stands before them, other stateless stages only into one another,
scans only into scans.  A node of any other kind, or of too strict a boundary, stays as it is.
-/

namespace PipelineFusion

inductive Shape where
  | map
  | partialMap
  | scan
  | flatMap
  | fixed (outline : Outline)

namespace Shape

def outline : Shape → Outline
  | .fixed o => o
  | _ => .stage

/-- What becomes of a node and its successor when they can be fused. -/
def absorb : Shape → Shape → Option Shape
  | .map, .map => some .map
  | .map, .partialMap | .partialMap, .map | .partialMap, .partialMap => some .partialMap
  | .scan, .map | .scan, .scan => some .scan
  | .flatMap, .map => some .flatMap
  | _, _ => none

/-- It does not matter in which order three neighbours are fused. -/
theorem absorb_absorb {a b c u v : Shape} (hab : a.absorb b = some u) (hbc : b.absorb c = some v) :
    (∃ w, u.absorb c = some w ∧ a.absorb v = some w) ∨
      u.absorb c = none ∧ a.absorb v = none ∧ u = a ∧ v = c := by
  cases a <;> cases b <;> cases hab <;> cases c <;> cases hbc <;> simp [absorb]

theorem absorb_eq_none {a b c v : Shape} (hab : a.absorb b = none) (hbc : b.absorb c = some v) :
    a.absorb v = none := by
  cases a <;> cases b <;> cases hab <;> cases c <;> cases hbc <;> rfl

theorem absorb_cases {a b u : Shape} (h : a.absorb b = some u) :
    ((a = .map ∨ a = .partialMap) ∧ (b = .map ∨ b = .partialMap)) ∨ (a = .scan ∧ b = .map) ∨
      (a = .scan ∧ b = .scan) ∨ (a = .flatMap ∧ b = .map) := by
  cases a <;> cases b <;> cases h <;> simp

theorem total_of_absorb {a b u : Shape} (h : a.absorb b = some u) : u.outline.total = 1 := by
  cases a <;> cases b <;> cases h <;> rfl

/-! ## Gathering a chain -/

/-- Fuses a chain of shapes from left to right, as far as possible. -/
def gatherFrom : Shape → List Shape → List Shape
  | a, [] => [a]
  | a, b :: rest =>
    match a.absorb b with
    | some u => gatherFrom u rest
    | none => a :: gatherFrom b rest

def gather : List Shape → List Shape
  | [] => []
  | a :: rest => gatherFrom a rest

theorem gatherFrom_of_some {a b u : Shape} (h : a.absorb b = some u) (rest : List Shape) :
    gatherFrom a (b :: rest) = gatherFrom u rest := by
  rw [gatherFrom, h]

theorem gatherFrom_of_none {a b : Shape} (h : a.absorb b = none) (rest : List Shape) :
    gatherFrom a (b :: rest) = a :: gatherFrom b rest := by
  rw [gatherFrom, h]

theorem gatherFrom_replace {b c v : Shape} (h : b.absorb c = some v) (a : Shape)
    (front back : List Shape) :
    gatherFrom a (front ++ b :: c :: back) = gatherFrom a (front ++ v :: back) := by
  induction front generalizing a with
  | nil =>
      rw [List.nil_append, List.nil_append]
      cases hab : a.absorb b with
      | some u =>
          -- The last shape then absorbs all of the three, or stops at the same one on both sides.
          rw [gatherFrom_of_some hab]
          rcases absorb_absorb hab h with ⟨w, huc, hav⟩ | ⟨huc, hav, rfl, rfl⟩
          · rw [gatherFrom_of_some huc, gatherFrom_of_some hav]
          · rfl
      | none =>
          rw [gatherFrom_of_none hab, gatherFrom_of_some h,
            gatherFrom_of_none (absorb_eq_none hab h)]
  | cons d front ih =>
      rw [List.cons_append, List.cons_append, gatherFrom, gatherFrom]
      cases a.absorb d <;> simp only [ih]

theorem gather_replace {b c v : Shape} (h : b.absorb c = some v) (front back : List Shape) :
    gather (front ++ b :: c :: back) = gather (front ++ v :: back) := by
  cases front with
  | nil => exact gatherFrom_of_some h back
  | cons a front => exact gatherFrom_replace h a front back

/-- A span that can be fused into one shape may be replaced by it. -/
theorem gather_fuse {first v : Shape} {others : List Shape}
    (h : others.foldlM absorb first = some v) (front back : List Shape) :
    gather (front ++ (first :: others) ++ back) = gather (front ++ v :: back) := by
  induction others generalizing first with
  | nil =>
      cases h
      rw [List.append_assoc, List.singleton_append]
  | cons c others ih =>
      rw [List.foldlM_cons] at h
      obtain ⟨w, hw, h⟩ := Option.bind_eq_some_iff.1 h
      have hstep := gather_replace hw front (others ++ back)
      rw [List.append_assoc, List.cons_append, List.cons_append, hstep, ← ih h, List.append_assoc,
        List.cons_append]

theorem gather_eq_self {shapes : List Shape}
    (h : shapes.IsChain fun a b ↦ a.absorb b = none) : gather shapes = shapes := by
  induction shapes with
  | nil => rfl
  | cons a rest ih =>
      cases rest with
      | nil => rfl
      | cons b rest =>
          rw [List.isChain_cons_cons] at h
          have hrest := ih h.2
          rw [gather, gatherFrom_of_none h.1]
          exact congrArg (a :: ·) hrest

/-- The outline of a chain of shapes, once it has been fused as far as possible. -/
def condense (shapes : List Shape) : List Outline := (gather shapes).map outline

theorem totals_gatherFrom_le (a : Shape) (rest : List Shape) :
    Outline.totals ((gatherFrom a rest).map outline) ≤
      a.outline.total + Outline.totals (rest.map outline) := by
  induction rest generalizing a with
  | nil => exact Nat.le_refl _
  | cons b rest ih =>
      rw [List.map_cons, Outline.totals]
      cases hab : a.absorb b with
      | some u =>
          have hu := ih u
          have hone := total_of_absorb hab
          have hpos := a.outline.total_pos
          rw [gatherFrom_of_some hab]
          omega
      | none =>
          have hb := ih b
          rw [gatherFrom_of_none hab, List.map_cons, Outline.totals]
          omega

theorem totals_condense_le (shapes : List Shape) :
    Outline.totals (condense shapes) ≤ Outline.totals (shapes.map outline) := by
  cases shapes with
  | nil => exact Nat.le_refl _
  | cons a rest => exact totals_gatherFrom_le a rest

end Shape

/-! ## Shapes of nodes -/

/-- The shape of a stage in a segment, by whether it is a map. -/
def Segment.shapeOf (map : Bool) : Shape := if map then .map else .partialMap

def Shape.ofKind : Kind → Boundary → Shape
  | .map, .fullyFusable => .map
  | .filter, .fullyFusable | .filterMap, .fullyFusable => .partialMap
  | .scan, .fullyFusable | .scan, .staged => .scan
  | .flatMap, .fullyFusable => .flatMap
  | _, _ => .fixed .stage

theorem Shape.outline_ofKind (kind : Kind) (boundary : Boundary) :
    (ofKind kind boundary).outline = .stage := by
  cases kind <;> cases boundary <;> rfl

mutual

/-- A branch stays where it is, with its child plans fused as far as possible. -/
def Node.shape (c : Classifier) : Node → Shape
  | .leaf stage purity => .ofKind stage.kind (c.classify (.leaf stage purity))
  | .branch mode left right _ =>
    .fixed (.branch mode (Shape.condense (Plan.shapes c left))
      (Shape.condense (Plan.shapes c right)))

def Plan.shapes (c : Classifier) : Plan → List Shape
  | [] => []
  | node :: rest => node.shape c :: Plan.shapes c rest

end

theorem Plan.shapes_eq_map (c : Classifier) (p : Plan) : p.shapes c = p.map (Node.shape c) := by
  induction p with
  | nil => rfl
  | cons node p ih => rw [shapes, ih, List.map_cons]

theorem Plan.shapes_append (c : Classifier) (p q : Plan) :
    (p ++ q).shapes c = p.shapes c ++ q.shapes c := by
  simp only [shapes_eq_map, List.map_append]

namespace Node

variable {c : Classifier} {node : Node}

/-- All but the shape that stays is a matter of the kind and the boundary. -/
theorem shape_eq_iff {s : Shape} (hs : ∀ o, s ≠ .fixed o) :
    node.shape c = s ↔ Shape.ofKind node.kind (c.classify node) = s := by
  cases node with
  | leaf stage purity => rw [shape, kind]
  | branch mode left right purity =>
      have hkind : ∀ b, Shape.ofKind mode.kind b = .fixed .stage := by
        intro b
        cases mode <;> rfl
      rw [shape, kind, hkind]
      constructor
      · intro h
        exact absurd h.symm (hs _)
      · intro h
        exact absurd h.symm (hs _)

theorem shape_eq_map_iff :
    node.shape c = .map ↔ node.kind = .map ∧ c.classify node = .fullyFusable := by
  rw [shape_eq_iff (by simp)]
  cases node.kind <;> cases c.classify node <;> simp [Shape.ofKind]

theorem shape_eq_partialMap_iff :
    node.shape c = .partialMap ↔
      (node.kind = .filter ∨ node.kind = .filterMap) ∧ c.classify node = .fullyFusable := by
  rw [shape_eq_iff (by simp)]
  cases node.kind <;> cases c.classify node <;> simp [Shape.ofKind]

theorem shape_eq_flatMap_iff :
    node.shape c = .flatMap ↔ node.kind = .flatMap ∧ c.classify node = .fullyFusable := by
  rw [shape_eq_iff (by simp)]
  cases node.kind <;> cases c.classify node <;> simp [Shape.ofKind]

theorem shape_eq_scan_iff :
    node.shape c = .scan ↔ node.kind = .scan ∧ c.classify node < .opaqueEffect := by
  rw [shape_eq_iff (by simp), Boundary.lt_opaqueEffect_iff]
  cases node.kind <;> cases c.classify node <;> simp [Shape.ofKind]

theorem fusable_iff :
    Segment.fusable c node = true ↔
      (node.kind = .map ∨ node.kind = .filter ∨ node.kind = .filterMap) ∧
        c.classify node = .fullyFusable := by
  simp [Segment.fusable, Segment.slot, Slot.accepts, Classifier.isFullyFusable]

theorem shape_of_fusable (h : Segment.fusable c node = true) :
    node.shape c = Segment.shapeOf (node.kind = .map) := by
  obtain ⟨hkind, hclass⟩ := fusable_iff.1 h
  rcases hkind with hkind | hkind
  · rw [shape_eq_map_iff.2 ⟨hkind, hclass⟩, hkind]
    rfl
  · rw [shape_eq_partialMap_iff.2 ⟨hkind, hclass⟩]
    rcases hkind with hkind | hkind
    · rw [hkind]
      rfl
    · rw [hkind]
      rfl

theorem fusable_of_shape (h : node.shape c = .map ∨ node.shape c = .partialMap) :
    Segment.fusable c node = true := by
  rw [shape_eq_map_iff, shape_eq_partialMap_iff, ← or_and_right] at h
  exact fusable_iff.2 h

end Node

/-! ## What rules do to shapes -/

namespace Merge

def result : Merge → Kind
  | .mapMap => .map
  | .filterFilter => .filter
  | .mapFilter | .filterMap | .filterMapChain => .filterMap
  | .scanMap | .scanScan => .scan
  | .flatMapMap => .flatMap

theorem kinds_of_stage? {m : Merge} {s t u : Stage} (h : m.stage? s t = some u) :
    s.kind = m.first ∧ t.kind = m.second ∧ u.kind = m.result := by
  unfold stage? at h
  split at h
  case h_9 => cases h
  all_goals
    cases h
    exact ⟨rfl, rfl, rfl⟩

theorem absorb_ofKind {m : Merge} {x y : Boundary} (h : m.Permits x y) :
    (Shape.ofKind m.first x).absorb (.ofKind m.second y) = some (.ofKind m.result (max x y)) := by
  obtain ⟨hx, hy, h⟩ := h
  rw [Boundary.lt_opaqueEffect_iff] at hx hy
  cases m with
  | scanScan =>
      cases x <;> cases y <;> first | rfl | exact absurd rfl hx | exact absurd rfl hy
  | scanMap =>
      obtain rfl : y = .fullyFusable := h
      cases x <;> first | rfl | exact absurd rfl hx
  | _ =>
      obtain ⟨rfl, rfl⟩ := h
      rfl

theorem absorb_shape {m : Merge} {c : Classifier} {s t u : Stage} {p q : Purity}
    (h : m.admits c (.leaf s p) (.leaf t q) = true) (hu : m.stage? s t = some u) :
    ((Node.leaf s p).shape c).absorb ((Node.leaf t q).shape c) =
      some ((Node.leaf u (p.join q)).shape c) := by
  obtain ⟨hs, ht, hkind⟩ := kinds_of_stage? hu
  have hpermits := (admits_iff.1 h).2.2
  rw [Node.shape, Node.shape, Node.shape, classify_of_stage? hu, hs, ht, hkind]
  exact absorb_ofKind hpermits

end Merge

namespace Segment

variable {c : Classifier}

theorem absorb_shapeOf (x y : Bool) : (shapeOf x).absorb (shapeOf y) = some (shapeOf (x && y)) := by
  cases x <;> cases y <;> rfl

theorem foldlM_absorb_shapeOf (x : Bool) (ys : List Bool) :
    (ys.map shapeOf).foldlM Shape.absorb (shapeOf x) = some (shapeOf (x && ys.all id)) := by
  induction ys generalizing x with
  | nil => simp
  | cons y ys ih =>
      rw [List.map_cons, List.foldlM_cons, absorb_shapeOf, Option.bind_eq_bind, Option.bind_some,
        ih, List.all_cons, id, Bool.and_assoc]

theorem kind_of_folds {first : Node} {others : Plan} {s : Stage} (h : Folds (first :: others) s) :
    slot.accepts s.kind = true ∧
      decide (s.kind = .map) = (first :: others).all fun node ↦ node.kind = .map := by
  cases h with
  | maps fs h =>
      have hall := forall_mem_of_forall₂ (P := fun node : Node ↦ node.kind = .map)
        (fun node f hf ↦ exists_map?_iff.1 ⟨f, hf⟩) h
      refine ⟨rfl, ?_⟩
      symm
      apply List.all_eq_true.2
      intro node hnode
      exact decide_eq_true (hall node hnode)
  | filters ps h =>
      obtain ⟨p, ps, hfirst, -, -⟩ := List.forall₂_cons_left_iff.1 h
      have hkind : first.kind = .filter := exists_filter?_iff.1 ⟨p, hfirst⟩
      refine ⟨rfl, (List.all_eq_false.2 ⟨first, List.mem_cons_self, ?_⟩).symm⟩
      simp [hkind]
  | mixed fs h hmap hfilter =>
      obtain ⟨node, hnode, hkind⟩ := hmap
      refine ⟨rfl, (List.all_eq_false.2 ⟨node, hnode, ?_⟩).symm⟩
      simp [hkind]

theorem fusable_of_fuse {span : Plan} {node : Node} (hspan : ∀ a ∈ span, fusable c a = true)
    (h : Rule.segment.fuse span = .ok node) : fusable c node = true := by
  have hclassify := Rule.classify_of_fuse h c
  have hstrictest : Boundary.strictest (span.map c.classify) = .fullyFusable := by
    rw [Boundary.strictest_eq_fullyFusable_iff]
    intro b hb
    obtain ⟨a, ha, rfl⟩ := List.mem_map.1 hb
    have hfusable := hspan a ha
    simp only [fusable, Classifier.isFullyFusable, Bool.and_eq_true, decide_eq_true_eq] at hfusable
    exact hfusable.2
  rw [hstrictest] at hclassify
  obtain ⟨hlength, s, hs, rfl⟩ := fuse_eq_ok_iff.1 h
  cases span with
  | nil => exact absurd hlength (by simp)
  | cons first others =>
      have haccepts := (kind_of_folds (folds_of_stage hs)).1
      rw [fusable, Classifier.isFullyFusable, hclassify, Node.kind, haccepts]
      rfl

theorem absorb_shapes {first node : Node} {others : Plan}
    (hspan : ∀ a ∈ first :: others, fusable c a = true)
    (h : Rule.segment.fuse (first :: others) = .ok node) :
    (Plan.shapes c others).foldlM Shape.absorb (first.shape c) = some (node.shape c) := by
  have hothers : Plan.shapes c others =
      (others.map fun a ↦ decide (a.kind = .map)).map shapeOf := by
    rw [Plan.shapes_eq_map, List.map_map]
    exact List.map_congr_left fun a ha ↦
      Node.shape_of_fusable (hspan a (List.mem_cons_of_mem first ha))
  have hnode := Node.shape_of_fusable (fusable_of_fuse hspan h)
  obtain ⟨-, s, hs, rfl⟩ := fuse_eq_ok_iff.1 h
  have hkind := (kind_of_folds (folds_of_stage hs)).2
  rw [hothers, hnode, Node.shape_of_fusable (hspan first List.mem_cons_self),
    foldlM_absorb_shapeOf, Node.kind, hkind, List.all_cons, List.all_map]
  rfl

end Segment

/-- A span that a rule takes is fused, shape by shape, into the shape of the node put there. -/
theorem Rule.foldlM_absorb_of_fuse {r : Rule} {c : Classifier} {window : Plan} {n : Nat}
    {node : Node} (hspan : r.matchSpan c window = some n) (h : r.fuse (window.take n) = .ok node) :
    ∃ first others, Plan.shapes c (window.take n) = first :: others ∧
      others.foldlM Shape.absorb first = some (node.shape c) := by
  cases r with
  | merge m =>
      obtain ⟨rfl, a, b, rest, rfl, hadmits⟩ := merge_matchSpan_eq_some_iff.1 hspan
      have hfuse : m.fuse [a, b] = .ok node := h
      obtain ⟨s, p, t, q, u, hab, hu, rfl⟩ := Merge.fuse_eq_ok_iff.1 hfuse
      cases hab
      refine ⟨_, _, rfl, ?_⟩
      simp [Merge.absorb_shape hadmits hu, Plan.shapes]
  | segment =>
      have hfusable := fusable_of_segment_matchSpan hspan
      obtain ⟨htwo, hle⟩ := matchSpan_le hspan
      cases hwindow : window.take n with
      | nil =>
          have hlength := congrArg List.length hwindow
          rw [List.length_take, List.length_nil] at hlength
          omega
      | cons first others =>
          rw [hwindow] at h hfusable
          exact ⟨_, _, rfl, Segment.absorb_shapes hfusable h⟩

end PipelineFusion
