import Mathlib.Algebra.BigOperators.Group.List.Basic
import PipelineFusion.Proofs.Rule.Wall

/-!
# Groups

A group is a run of leaves that one leaf stands for.  The leaf is as impure as the group, makes all
of its calls in their order, and is of a kind that the kinds of the group determine.  Every rule
puts the leaf of a group in the place of the group, and groups of groups are groups again.
-/

namespace PipelineFusion

theorem exists_of_mem_flatten {A B : Type} {R : List A → B → Prop} {xss : List (List A)}
    {ys : List B} (h : List.Forall₂ R xss ys) {x : A} (hx : x ∈ xss.flatten) :
    ∃ xs, ∃ y ∈ ys, R xs y ∧ x ∈ xs := by
  induction h with
  | nil => simp at hx
  | @cons xs y xss ys hxs _ ih =>
      rw [List.flatten_cons, List.mem_append] at hx
      rcases hx with hx | hx
      · exact ⟨xs, y, List.mem_cons_self, hxs, hx⟩
      · obtain ⟨zs, z, hz, hzs, hx⟩ := ih hx
        exact ⟨zs, z, List.mem_cons_of_mem y hz, hzs, hx⟩

namespace Purity

@[simp] theorem pure_join (p : Purity) : Purity.pure.join p = p := by
  cases p <;> rfl

theorem join_assoc (p q r : Purity) : (p.join q).join r = p.join (q.join r) := by
  cases p <;> cases q <;> cases r <;> rfl

theorem foldl_join (p : Purity) (ps : List Purity) :
    ps.foldl join p = p.join (ps.foldl join .pure) := by
  induction ps generalizing p with
  | nil => cases p <;> rfl
  | cons q ps ih => rw [List.foldl_cons, List.foldl_cons, ih, ih (Purity.pure.join q), pure_join,
      join_assoc]

theorem foldl_join_flatten (pss : List (List Purity)) :
    pss.flatten.foldl join .pure = (pss.map (·.foldl join .pure)).foldl join .pure := by
  induction pss with
  | nil => rfl
  | cons ps pss ih =>
      rw [List.flatten_cons, List.foldl_append, foldl_join, ih, List.map_cons, List.foldl_cons,
        pure_join, ← foldl_join]

end Purity

/-! ## Kinds -/

namespace Kind

/-- What a run of stateless stages becomes: a map if it holds nothing but maps, a filter if nothing
but filters, and otherwise a partial map. -/
def ofSegment (kinds : List Kind) : Kind :=
  if ∀ k ∈ kinds, k = .map then .map
  else if ∀ k ∈ kinds, k = .filter then .filter
  else .filterMap

/-- The kinds of a group, with the kind of the leaf that stands for it. -/
inductive Blends : List Kind → Kind → Prop
  | scan {rest : List Kind} (h : ∀ k ∈ rest, k = .scan ∨ k = .map) : Blends (.scan :: rest) .scan
  | flatMap {rest : List Kind} (h : ∀ k ∈ rest, k = .map) : Blends (.flatMap :: rest) .flatMap
  | segment {kinds : List Kind} (hne : kinds ≠ [])
      (h : ∀ k ∈ kinds, k = .map ∨ k = .filter ∨ k = .filterMap) : Blends kinds (ofSegment kinds)

theorem ofSegment_cases (kinds : List Kind) :
    ofSegment kinds = .map ∨ ofSegment kinds = .filter ∨ ofSegment kinds = .filterMap := by
  unfold ofSegment
  split
  · exact Or.inl rfl
  · split
    · exact Or.inr (Or.inl rfl)
    · exact Or.inr (Or.inr rfl)

theorem ofSegment_eq_map_iff {kinds : List Kind} :
    ofSegment kinds = .map ↔ ∀ k ∈ kinds, k = .map := by
  unfold ofSegment
  split
  · next h => exact iff_of_true rfl h
  · next h =>
      refine iff_of_false ?_ h
      split <;> simp

theorem ofSegment_eq_filter_iff {kinds : List Kind} (hne : kinds ≠ []) :
    ofSegment kinds = .filter ↔ ∀ k ∈ kinds, k = .filter := by
  obtain ⟨k, hk⟩ := List.exists_mem_of_ne_nil kinds hne
  unfold ofSegment
  split
  · next h => exact iff_of_false (by simp) fun hall ↦ by simpa [h k hk] using hall k hk
  · split
    · next h => exact iff_of_true rfl h
    · next h => exact iff_of_false (by simp) h

theorem ofSegment_flatten {kss : List (List Kind)} (hne : ∀ ks ∈ kss, ks ≠ []) :
    ofSegment kss.flatten = ofSegment (kss.map ofSegment) := by
  have hmap : (∀ k ∈ kss.flatten, k = .map) ↔ ∀ k ∈ kss.map ofSegment, k = .map := by
    simp only [List.mem_flatten, List.mem_map, forall_exists_index, and_imp,
      forall_apply_eq_imp_iff₂, ofSegment_eq_map_iff]
    exact forall_comm.trans (forall_congr' fun ks ↦ forall_comm)
  have hfilter : (∀ k ∈ kss.flatten, k = .filter) ↔ ∀ k ∈ kss.map ofSegment, k = .filter := by
    constructor
    · intro h k hk
      obtain ⟨ks, hks, rfl⟩ := List.mem_map.1 hk
      exact (ofSegment_eq_filter_iff (hne ks hks)).2 fun k hk ↦
        h k (List.mem_flatten_of_mem hks hk)
    · intro h k hk
      obtain ⟨ks, hks, hk⟩ := List.mem_flatten.1 hk
      exact (ofSegment_eq_filter_iff (hne ks hks)).1 (h _ (List.mem_map_of_mem hks)) k hk
  simp only [ofSegment, hmap, hfilter]

namespace Blends

variable {kinds : List Kind} {kind : Kind}

theorem ne_nil (h : Blends kinds kind) : kinds ≠ [] := by
  cases h with
  | scan h => exact List.cons_ne_nil _ _
  | flatMap h => exact List.cons_ne_nil _ _
  | segment hne h => exact hne

theorem of_segment (h : Blends kinds kind)
    (hkind : kind = .map ∨ kind = .filter ∨ kind = .filterMap) :
    (∀ k ∈ kinds, k = .map ∨ k = .filter ∨ k = .filterMap) ∧ kind = ofSegment kinds := by
  cases h with
  | scan h => simp at hkind
  | flatMap h => simp at hkind
  | segment hne h => exact ⟨h, rfl⟩

theorem of_map (h : Blends kinds .map) : ∀ k ∈ kinds, k = .map :=
  ofSegment_eq_map_iff.1 (h.of_segment (Or.inl rfl)).2.symm

theorem of_scan (h : Blends kinds .scan) :
    ∃ rest, kinds = .scan :: rest ∧ ∀ k ∈ rest, k = .scan ∨ k = .map := by
  generalize hk : Kind.scan = kind at h
  cases h with
  | scan h => exact ⟨_, rfl, h⟩
  | flatMap h => cases hk
  | segment hne h =>
      have hcases := ofSegment_cases kinds
      rw [← hk] at hcases
      simp at hcases

theorem of_flatMap (h : Blends kinds .flatMap) :
    ∃ rest, kinds = .flatMap :: rest ∧ ∀ k ∈ rest, k = .map := by
  generalize hk : Kind.flatMap = kind at h
  cases h with
  | scan h => cases hk
  | flatMap h => exact ⟨_, rfl, h⟩
  | segment hne h =>
      have hcases := ofSegment_cases kinds
      rw [← hk] at hcases
      simp at hcases

theorem ne_mode (h : Blends kinds kind) (mode : Mode) : kind ≠ mode.kind := by
  cases h with
  | scan h => cases mode <;> simp [Mode.kind]
  | flatMap h => cases mode <;> simp [Mode.kind]
  | segment hne h =>
      rcases ofSegment_cases kinds with hk | hk | hk <;> rw [hk] <;> cases mode <;> simp [Mode.kind]

theorem of_segments {kss : List (List Kind)} {ks : List Kind} (h : List.Forall₂ Blends kss ks)
    (hkinds : ∀ k ∈ ks, k = .map ∨ k = .filter ∨ k = .filterMap) :
    (∀ others ∈ kss, others ≠ []) ∧
      (∀ k ∈ kss.flatten, k = .map ∨ k = .filter ∨ k = .filterMap) ∧ kss.map ofSegment = ks := by
  induction h with
  | nil => simp
  | cons hfirst _ ih =>
      rw [List.forall_mem_cons] at hkinds
      obtain ⟨hall, hsegment⟩ := hfirst.of_segment hkinds.1
      obtain ⟨hne, hrest, hmap⟩ := ih hkinds.2
      refine ⟨List.forall_mem_cons.2 ⟨hfirst.ne_nil, hne⟩, ?_, ?_⟩
      · rw [List.flatten_cons]
        exact List.forall_mem_append.2 ⟨hall, hrest⟩
      · rw [List.map_cons, hmap, ← hsegment]

/-- Groups may be gathered in groups. -/
theorem flatten {kss : List (List Kind)} {ks : List Kind} {k : Kind}
    (h : List.Forall₂ Blends kss ks) (hk : Blends ks k) : Blends kss.flatten k := by
  cases hk with
  | scan hrest =>
      cases h with
      | cons hfirst hothers =>
          obtain ⟨front, rfl, hfront⟩ := hfirst.of_scan
          rw [List.flatten_cons, List.cons_append]
          refine .scan ?_
          intro k hk
          rcases List.mem_append.1 hk with hk | hk
          · exact hfront k hk
          · obtain ⟨others, l, hl, hblends, hk⟩ := exists_of_mem_flatten hothers hk
            rcases hrest l hl with rfl | rfl
            · obtain ⟨back, rfl, hback⟩ := hblends.of_scan
              rcases List.mem_cons.1 hk with rfl | hk
              · exact Or.inl rfl
              · exact hback k hk
            · exact Or.inr (hblends.of_map k hk)
  | flatMap hrest =>
      cases h with
      | cons hfirst hothers =>
          obtain ⟨front, rfl, hfront⟩ := hfirst.of_flatMap
          rw [List.flatten_cons, List.cons_append]
          refine .flatMap ?_
          intro k hk
          rcases List.mem_append.1 hk with hk | hk
          · exact hfront k hk
          · obtain ⟨others, l, hl, hblends, hk⟩ := exists_of_mem_flatten hothers hk
            obtain rfl := hrest l hl
            exact hblends.of_map k hk
  | segment hne hkinds =>
      obtain ⟨hnonempty, hall, rfl⟩ := of_segments h hkinds
      rw [← ofSegment_flatten hnonempty]
      refine .segment ?_ hall
      intro hnil
      rw [List.flatten_eq_nil_iff] at hnil
      obtain ⟨others, hothers⟩ := List.exists_mem_of_ne_nil kss (by simpa using hne)
      exact hnonempty others hothers (hnil others hothers)

end Blends
end Kind

/-! ## Groups of nodes -/

/-- A group with the node that stands for it.  Only a group of one node may hold a wall. -/
structure Classifier.Groups (c : Classifier) (group : Plan) (node : Node) : Prop where
  purity_eq : node.purity = (group.map Node.purity).foldl .join .pure
  calls_eq : node.calls = group.flatMap Node.calls
  blends : Kind.Blends (group.map Node.kind) node.kind
  alone : group = [node] ∨ 2 ≤ group.length ∧ ∀ a ∈ group, ¬ c.IsWall a

namespace Classifier.Groups

variable {c : Classifier} {group : Plan} {node : Node}

theorem singleton (stage : Stage) (purity : Purity) :
    c.Groups [.leaf stage purity] (.leaf stage purity) where
  purity_eq := by simp [Node.purity]
  calls_eq := by simp
  blends := by
    cases stage with
    | map f => exact .segment (by simp) (by simp [Node.kind, Stage.kind])
    | filter p => exact .segment (by simp) (by simp [Node.kind, Stage.kind])
    | filterMap f => exact .segment (by simp) (by simp [Node.kind, Stage.kind])
    | scan init step => exact .scan (by simp)
    | flatMap f => exact .flatMap (by simp)
  alone := Or.inl rfl

theorem ne_nil (h : c.Groups group node) : group ≠ [] := by
  intro hnil
  exact h.blends.ne_nil (by rw [hnil, List.map_nil])

theorem exists_leaf (h : c.Groups group node) : ∃ stage purity, node = .leaf stage purity := by
  cases node with
  | leaf stage purity => exact ⟨stage, purity, rfl⟩
  | branch mode left right purity => exact absurd rfl (h.blends.ne_mode mode)

theorem exists_leaf_of_mem (h : c.Groups group node) :
    ∀ a ∈ group, ∃ stage purity, a = .leaf stage purity := by
  intro a ha
  rcases h.alone with rfl | ⟨-, hwalls⟩
  · obtain rfl := List.mem_singleton.1 ha
    exact h.exists_leaf
  · obtain ⟨stage, purity, rfl, -⟩ := not_isWall_iff.1 (hwalls a ha)
    exact ⟨stage, purity, rfl⟩

/-- Groups of groups are groups. -/
theorem flatten {groups : List Plan} (h : List.Forall₂ c.Groups groups group)
    (hnode : c.Groups group node) : c.Groups groups.flatten node where
  purity_eq := by
    have hpurities := map_eq_map_of_forall₂ (fun _ _ hgroup ↦ hgroup.purity_eq.symm) h
    rw [hnode.purity_eq, List.map_flatten, Purity.foldl_join_flatten, List.map_map, ← hpurities]
    rfl
  calls_eq := by
    have hcalls := map_eq_map_of_forall₂ (fun _ _ hgroup ↦ hgroup.calls_eq.symm) h
    rw [hnode.calls_eq, List.flatMap_def, ← hcalls, List.flatMap_def, List.map_flatten,
      List.flatten_flatten, List.map_map]
    rfl
  blends := by
    have hkinds :
        List.Forall₂ Kind.Blends (groups.map (·.map Node.kind)) (group.map Node.kind) := by
      rw [List.forall₂_map_left_iff, List.forall₂_map_right_iff]
      exact h.imp fun _ _ hgroup ↦ hgroup.blends
    rw [List.map_flatten]
    exact .flatten hkinds hnode.blends
  alone := by
    rcases hnode.alone with rfl | ⟨htwo, hwalls⟩
    · cases h with
      | cons hgroup hnil =>
          cases hnil
          rw [List.flatten_cons, List.flatten_nil, List.append_nil]
          exact hgroup.alone
    · refine Or.inr ⟨?_, ?_⟩
      · have hpos := forall_mem_of_forall₂ (P := fun others : Plan ↦ 1 ≤ others.length)
          (fun others b hgroup ↦ List.length_pos_iff.2 hgroup.ne_nil) h
        have hone : ∀ n ∈ groups.map List.length, 1 ≤ n := List.forall_mem_map.2 hpos
        have hle := List.length_le_sum_of_one_le _ hone
        rw [List.length_map, h.length_eq] at hle
        rw [List.length_flatten]
        omega
      · intro a ha
        obtain ⟨others, b, hb, hgroup, ha⟩ := exists_of_mem_flatten h ha
        rcases hgroup.alone with rfl | ⟨-, hothers⟩
        · obtain rfl := List.mem_singleton.1 ha
          exact hwalls a hb
        · exact hothers a ha

end Classifier.Groups

/-! ## Groups made by rules -/

theorem Merge.blends (m : Merge) : Kind.Blends [m.first, m.second] m.result := by
  cases m with
  | scanMap => exact .scan (by simp [second])
  | scanScan => exact .scan (by simp [second])
  | flatMapMap => exact .flatMap (by simp [second])
  | mapMap => exact .segment (by simp) (by simp [first, second])
  | filterFilter => exact .segment (by simp) (by simp [first, second])
  | mapFilter => exact .segment (by simp) (by simp [first, second])
  | filterMap => exact .segment (by simp) (by simp [first, second])
  | filterMapChain => exact .segment (by simp) (by simp [first, second])

namespace Segment

theorem calls_of_folds {span : Plan} {s : Stage} (h : Folds span s) :
    s.declaration.calls = span.flatMap Node.calls := by
  have hcalls : Node.calls = fun node ↦ node.declaration.calls := funext Node.calls_eq
  rw [declaration_of_folds h, Declaration.fuseAll, List.flatMap_map, hcalls]

theorem ofSegment_kinds_of_folds {span : Plan} {s : Stage} (hne : span ≠ []) (h : Folds span s) :
    Kind.ofSegment (span.map Node.kind) = s.kind := by
  have hkinds : span.map Node.kind ≠ [] := by simpa using hne
  cases h with
  | maps fs h =>
      have hall := forall_mem_of_forall₂ (P := fun node : Node ↦ node.kind = .map)
        (fun node f hf ↦ exists_map?_iff.1 ⟨f, hf⟩) h
      exact Kind.ofSegment_eq_map_iff.2 (List.forall_mem_map.2 hall)
  | filters ps h =>
      have hall := forall_mem_of_forall₂ (P := fun node : Node ↦ node.kind = .filter)
        (fun node p hp ↦ exists_filter?_iff.1 ⟨p, hp⟩) h
      exact (Kind.ofSegment_eq_filter_iff hkinds).2 (List.forall_mem_map.2 hall)
  | mixed fs h hmap hfilter =>
      obtain ⟨a, ha, hamap⟩ := hmap
      obtain ⟨b, hb, hbfilter⟩ := hfilter
      rcases Kind.ofSegment_cases (span.map Node.kind) with hcase | hcase | hcase
      · exact absurd (Kind.ofSegment_eq_map_iff.1 hcase _ (List.mem_map_of_mem ha)) hamap
      · exact absurd ((Kind.ofSegment_eq_filter_iff hkinds).1 hcase _ (List.mem_map_of_mem hb))
          hbfilter
      · exact hcase

end Segment

theorem Rule.groups_of_fuse {r : Rule} {c : Classifier} {window : Plan} {n : Nat} {node : Node}
    (hspan : r.matchSpan c window = some n) (h : r.fuse (window.take n) = .ok node) :
    c.Groups (window.take n) node := by
  have hwalls := (not_isWall_of_fuse hspan h).1
  have hlength : 2 ≤ (window.take n).length := by
    obtain ⟨htwo, hle⟩ := matchSpan_le hspan
    rw [List.length_take]
    omega
  cases r with
  | merge m =>
      obtain ⟨s, p, t, q, u, hwindow, hu, rfl⟩ := Merge.fuse_eq_ok_iff.1 h
      obtain ⟨hs, ht, hkind⟩ := Merge.kinds_of_stage? hu
      rw [hwindow] at hwalls hlength ⊢
      refine ⟨?_, ?_, ?_, Or.inr ⟨hlength, hwalls⟩⟩
      · simp [Node.purity]
      · simp [Node.calls, Merge.calls_of_stage? hu]
      · simpa [Node.kind, hs, ht, hkind] using m.blends
  | segment =>
      have hkinds : ∀ k ∈ (window.take n).map Node.kind,
          k = .map ∨ k = .filter ∨ k = .filterMap := by
        intro k hk
        obtain ⟨a, ha, rfl⟩ := List.mem_map.1 hk
        exact (Node.fusable_iff.1 (fusable_of_segment_matchSpan hspan a ha)).1
      have hne : window.take n ≠ [] := List.ne_nil_of_length_pos (by omega)
      obtain ⟨-, s, hs, rfl⟩ := Segment.fuse_eq_ok_iff.1 h
      have hfolds := Segment.folds_of_stage hs
      refine ⟨rfl, Segment.calls_of_folds hfolds, ?_, Or.inr ⟨hlength, hwalls⟩⟩
      rw [Node.kind, ← Segment.ofSegment_kinds_of_folds hne hfolds]
      exact .segment (by simpa using hne) hkinds

end PipelineFusion
