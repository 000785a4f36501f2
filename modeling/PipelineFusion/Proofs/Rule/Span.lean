import Mathlib.Data.List.Forall2
import Mathlib.Data.List.TakeWhile
import PipelineFusion.Rule.Basic

/-!
# Spans

The span that a rule finds, and what the rule makes of a span.  The merging rules take two
neighbours of the right kinds.  The segment rule takes the longest run of fully fusable stateless
stages.  Every span that a rule finds can be replaced, so a match is as good as a replacement.
-/

namespace PipelineFusion

/-! ## Reading all nodes of a span -/

section Reading

variable {A B E : Type}

theorem forall₂_of_mapM_eq_ok {f : A → Except E B} {xs : List A} {ys : List B}
    (h : xs.mapM f = .ok ys) : List.Forall₂ (fun x y ↦ f x = .ok y) xs ys := by
  induction xs generalizing ys with
  | nil =>
      cases h
      exact .nil
  | cons x xs ih =>
      rw [List.mapM_cons] at h
      cases hy : f x with
      | error e => simp [hy, bind, Except.bind] at h
      | ok y =>
          cases hrest : xs.mapM f with
          | error e => simp [hy, hrest, bind, Except.bind] at h
          | ok rest =>
              rw [hy, hrest] at h
              cases h
              exact .cons hy (ih hrest)

theorem exists_mapM_eq_ok {f : A → Except E B} {xs : List A} (h : ∀ x ∈ xs, ∃ y, f x = .ok y) :
    ∃ ys, xs.mapM f = .ok ys := by
  induction xs with
  | nil => exact ⟨[], rfl⟩
  | cons x xs ih =>
      obtain ⟨y, hy⟩ := h x List.mem_cons_self
      obtain ⟨ys, hys⟩ := ih fun z hz ↦ h z (List.mem_cons_of_mem x hz)
      refine ⟨y :: ys, ?_⟩
      rw [List.mapM_cons, hy, hys]
      rfl

theorem exists_of_map_eq_ok {f : A → B} {result : Except E A} {y : B}
    (h : result.map f = .ok y) : ∃ x, result = .ok x ∧ f x = y := by
  cases result with
  | error e => cases h
  | ok x => exact ⟨x, rfl, Except.ok.inj h⟩

theorem forall_mem_of_forall₂ {R : A → B → Prop} {P : A → Prop}
    (hP : ∀ a b, R a b → P a) {xs : List A} {ys : List B} (h : List.Forall₂ R xs ys) :
    ∀ x ∈ xs, P x :=
  ((List.forall₂_and_left _ _).1 (h.imp fun a b hab ↦ ⟨hP a b hab, hab⟩)).1

theorem map_eq_map_of_forall₂ {C : Type} {R : A → B → Prop} {f : A → C} {g : B → C}
    (hfg : ∀ a b, R a b → f a = g b) {xs : List A} {ys : List B} (h : List.Forall₂ R xs ys) :
    xs.map f = ys.map g := by
  rw [← List.forall₂_eq_eq_eq, List.forall₂_map_left_iff, List.forall₂_map_right_iff]
  exact h.imp hfg

/-- A run ends where an element fails the test, whatever follows. -/
theorem takeWhile_append_cons_of_neg {p : A → Bool} {x : A} (hx : p x = false) (xs ys : List A) :
    (xs ++ x :: ys).takeWhile p = xs.takeWhile p := by
  induction xs with
  | nil => simp [hx]
  | cons a xs ih => simp [List.takeWhile_cons, ih]

end Reading

/-! ## Merging rules -/

namespace Merge

/-- What a rule asks of the boundaries of two stages. -/
def Permits (m : Merge) (x y : Boundary) : Prop :=
  x < .opaqueEffect ∧ y < .opaqueEffect ∧
    match m with
    | .scanScan => True
    | .scanMap => y = .fullyFusable
    | _ => x = .fullyFusable ∧ y = .fullyFusable

theorem admits_iff {m : Merge} {c : Classifier} {a b : Node} :
    m.admits c a b = true ↔
      a.kind = m.first ∧ b.kind = m.second ∧ m.Permits (c.classify a) (c.classify b) := by
  cases m <;>
    simp [admits, Permits, Classifier.canFuse, Classifier.isFullyFusable, and_assoc]

theorem pattern_matchSpan_eq_some_iff {m : Merge} {window : Plan} {n : Nat} :
    m.pattern.matchSpan window = some n ↔
      n = 2 ∧ ∃ a b rest, window = a :: b :: rest ∧ a.kind = m.first ∧ b.kind = m.second := by
  rcases window with _ | ⟨a, _ | ⟨b, rest⟩⟩
  · simp [pattern, Pattern.pair, Pattern.matchSpan, Pattern.span?]
  · simp [pattern, Pattern.pair, Pattern.matchSpan, Pattern.span?]
  · have hslots : m.pattern.matchSpan (a :: b :: rest) =
        if m.first = a.kind ∧ m.second = b.kind then some 2 else none := by
      by_cases ha : m.first = a.kind <;> by_cases hb : m.second = b.kind <;>
        simp [pattern, Pattern.pair, Pattern.matchSpan, Pattern.span?, Slot.accepts, ha, hb]
    constructor
    · intro h
      rw [hslots] at h
      split at h
      · next hkinds =>
          cases h
          exact ⟨rfl, a, b, rest, rfl, hkinds.1.symm, hkinds.2.symm⟩
      · cases h
    · rintro ⟨rfl, a', b', rest', hwindow, ha, hb⟩
      cases hwindow
      rw [hslots, if_pos ⟨ha.symm, hb.symm⟩]

theorem node?_eq_some_iff {m : Merge} {a b node : Node} :
    m.node? a b = some node ↔ ∃ s p t q u, a = .leaf s p ∧ b = .leaf t q ∧
      m.stage? s t = some u ∧ node = .leaf u (p.join q) := by
  constructor
  · intro h
    unfold node? at h
    split at h
    · next s p t q =>
        obtain ⟨u, hu, rfl⟩ := Option.map_eq_some_iff.1 h
        exact ⟨s, p, t, q, u, rfl, rfl, hu, rfl⟩
    · cases h
  · rintro ⟨s, p, t, q, u, rfl, rfl, hu, rfl⟩
    simp [node?, hu]

theorem exists_stage?_of_kind {m : Merge} {s t : Stage} (hs : s.kind = m.first)
    (ht : t.kind = m.second) : ∃ u, m.stage? s t = some u := by
  cases m <;> cases s <;> cases hs <;> cases t <;> cases ht <;> exact ⟨_, rfl⟩

theorem exists_fuse_of_kind {m : Merge} {a b : Node} (ha : a.kind = m.first)
    (hb : b.kind = m.second) : ∃ node, m.fuse [a, b] = .ok node := by
  cases a with
  | branch mode left right purity => cases m <;> cases mode <;> cases ha
  | leaf s p =>
      cases b with
      | branch mode left right purity => cases m <;> cases mode <;> cases hb
      | leaf t q =>
          obtain ⟨u, hu⟩ := exists_stage?_of_kind (s := s) (t := t) ha hb
          exact ⟨.leaf u (p.join q), by simp [fuse, node?, hu]⟩

theorem fuse_eq_ok_iff {m : Merge} {span : Plan} {node : Node} :
    m.fuse span = .ok node ↔ ∃ s p t q u, span = [.leaf s p, .leaf t q] ∧
      m.stage? s t = some u ∧ node = .leaf u (p.join q) := by
  constructor
  · intro h
    unfold fuse at h
    split at h
    · next a b =>
        split at h
        · next fused hfused =>
            cases h
            obtain ⟨s, p, t, q, u, rfl, rfl, hu, rfl⟩ := node?_eq_some_iff.1 hfused
            exact ⟨s, p, t, q, u, rfl, hu, rfl⟩
        · cases h
    · cases h
  · rintro ⟨s, p, t, q, u, rfl, hu, rfl⟩
    simp [fuse, node?, hu]

end Merge

/-! ## The segment rule -/

namespace Segment

/-- A node that may stand in a segment: fully fusable, and of one of the kinds of the rule. -/
def fusable (c : Classifier) (node : Node) : Bool := slot.accepts node.kind && c.isFullyFusable node

theorem accepts_iff {kind : Kind} :
    slot.accepts kind = true ↔ kind = .map ∨ kind = .filter ∨ kind = .filterMap := by
  simp [slot, Slot.accepts]

theorem pattern_span?_eq (kinds : List Kind) :
    pattern.span? kinds =
      if 2 ≤ (kinds.takeWhile slot.accepts).length then
        some (kinds.takeWhile slot.accepts).length
      else none := by
  rcases kinds with _ | ⟨a, _ | ⟨b, rest⟩⟩
  · rfl
  · by_cases ha : slot.accepts a <;> simp [pattern, Pattern.span?, ha]
  · by_cases ha : slot.accepts a
    · by_cases hb : slot.accepts b
      · simp [pattern, Pattern.span?, ha, hb]
        omega
      · simp [pattern, Pattern.span?, ha, hb]
    · simp [pattern, Pattern.span?, ha]

theorem pattern_matchSpan_eq (window : Plan) :
    pattern.matchSpan window =
      if 2 ≤ (window.takeWhile (slot.accepts ∘ Node.kind)).length then
        some (window.takeWhile (slot.accepts ∘ Node.kind)).length
      else none := by
  rw [Pattern.matchSpan, pattern_span?_eq, List.takeWhile_map, List.length_map]

theorem matchSpan_eq (c : Classifier) (window : Plan) :
    matchSpan c window =
      if 2 ≤ (window.takeWhile (fusable c)).length then
        some (window.takeWhile (fusable c)).length
      else none := by
  have htake : window.take (window.takeWhile (slot.accepts ∘ Node.kind)).length =
      window.takeWhile (slot.accepts ∘ Node.kind) :=
    (List.prefix_iff_eq_take.1 (List.takeWhile_prefix _)).symm
  have hrun : (window.takeWhile (slot.accepts ∘ Node.kind)).takeWhile c.isFullyFusable =
      window.takeWhile (fusable c) := by
    rw [List.takeWhile_takeWhile]
    congr 1
    funext node
    simp [fusable, Bool.and_comm]
  unfold matchSpan
  rw [pattern_matchSpan_eq]
  split
  · next hnone =>
      split at hnone
      · cases hnone
      · next hshort =>
          have hle := (List.takeWhile_sublist (p := c.isFullyFusable)
            (l := window.takeWhile (slot.accepts ∘ Node.kind))).length_le
          rw [hrun] at hle
          rw [if_neg (by omega)]
  · next n hn =>
      split at hn
      · cases hn
        rw [htake, hrun]
      · cases hn

theorem exists_map?_iff {node : Node} : (∃ f, map? node = some f) ↔ node.kind = .map := by
  cases node with
  | leaf stage purity => cases stage <;> simp [map?, Node.kind, Stage.kind]
  | branch mode left right purity => cases mode <;> simp [map?, Node.kind, Mode.kind]

theorem exists_filter?_iff {node : Node} : (∃ p, filter? node = some p) ↔ node.kind = .filter := by
  cases node with
  | leaf stage purity => cases stage <;> simp [filter?, Node.kind, Stage.kind]
  | branch mode left right purity => cases mode <;> simp [filter?, Node.kind, Mode.kind]

theorem exists_partialMap?_iff {node : Node} :
    (∃ f, partialMap? node = some f) ↔ slot.accepts node.kind = true := by
  cases node with
  | leaf stage purity =>
      cases stage <;> simp [partialMap?, slot, Slot.accepts, Node.kind, Stage.kind]
  | branch mode left right purity =>
      cases mode <;> simp [partialMap?, slot, Slot.accepts, Node.kind, Mode.kind]

section

variable {F : Type} {read? : Node → Option (Operator F)} {span : Plan} {fs : List (Operator F)}

theorem forall₂_of_readAll (h : readAll read? span = .ok fs) :
    List.Forall₂ (fun node f ↦ read? node = some f) span fs := by
  refine (forall₂_of_mapM_eq_ok h).imp ?_
  intro node f hread
  split at hread
  · next g hg => rw [hg, Except.ok.inj hread]
  · cases hread

theorem exists_readAll (h : ∀ node ∈ span, ∃ f, read? node = some f) :
    ∃ fs, readAll read? span = .ok fs := by
  apply exists_mapM_eq_ok
  intro node hnode
  obtain ⟨f, hf⟩ := h node hnode
  exact ⟨f, by rw [hf]⟩

end

theorem exists_stage {span : Plan} (h : ∀ node ∈ span, slot.accepts node.kind = true) :
    ∃ s, stage span = .ok s := by
  unfold stage
  split
  · next hmaps =>
      have hall : ∀ node ∈ span, node.kind = .map := by simpa using hmaps
      obtain ⟨fs, hfs⟩ := exists_readAll fun node hn ↦ exists_map?_iff.2 (hall node hn)
      rw [foldMaps, hfs]
      exact ⟨_, rfl⟩
  · split
    · next hfilters =>
        have hall : ∀ node ∈ span, node.kind = .filter := by simpa using hfilters
        obtain ⟨ps, hps⟩ := exists_readAll fun node hn ↦ exists_filter?_iff.2 (hall node hn)
        rw [foldFilters, hps]
        exact ⟨_, rfl⟩
    · obtain ⟨fs, hfs⟩ := exists_readAll fun node hn ↦ exists_partialMap?_iff.2 (h node hn)
      rw [foldMixed, hfs]
      exact ⟨_, rfl⟩

/-- What a span is folded to: a map if it holds nothing but maps, a filter if nothing but filters,
and otherwise a partial map. -/
inductive Folds (span : Plan) : Stage → Prop
  | maps (fs : List (Operator (Value → Value)))
      (h : List.Forall₂ (fun node f ↦ map? node = some f) span fs) :
      Folds span (.map (.fuseAll " >> " fs fun x ↦ fs.foldl (fun y f ↦ f.run y) x))
  | filters (ps : List (Operator (Value → Bool)))
      (h : List.Forall₂ (fun node p ↦ filter? node = some p) span ps) :
      Folds span (.filter (.fuseAll " && " ps fun x ↦ ps.all (·.run x)))
  | mixed (fs : List (Operator (Value → Option Value)))
      (h : List.Forall₂ (fun node f ↦ partialMap? node = some f) span fs)
      (hmap : ∃ node ∈ span, node.kind ≠ .map) (hfilter : ∃ node ∈ span, node.kind ≠ .filter) :
      Folds span (.filterMap (.fuseAll " >> " fs fun x ↦ fs.foldlM (fun y f ↦ f.run y) x))

theorem folds_of_stage {span : Plan} {s : Stage} (h : stage span = .ok s) : Folds span s := by
  unfold stage at h
  split at h
  · obtain ⟨fs, hfs, rfl⟩ := exists_of_map_eq_ok h
    exact .maps fs (forall₂_of_readAll hfs)
  · next hmaps =>
      split at h
      · obtain ⟨ps, hps, rfl⟩ := exists_of_map_eq_ok h
        exact .filters ps (forall₂_of_readAll hps)
      · next hfilters =>
          obtain ⟨fs, hfs, rfl⟩ := exists_of_map_eq_ok h
          exact .mixed fs (forall₂_of_readAll hfs) (by simpa using hmaps) (by simpa using hfilters)

theorem fuse_eq_ok_iff {span : Plan} {node : Node} :
    fuse span = .ok node ↔ 2 ≤ span.length ∧ ∃ s, stage span = .ok s ∧
      node = .leaf s ((span.map Node.purity).foldl .join .pure) := by
  by_cases hlength : span.length < 2
  · have hshort : ¬ 2 ≤ span.length := by omega
    simp [fuse, hlength, hshort]
  · have hlong : 2 ≤ span.length := by omega
    cases hs : stage span <;> simp [fuse, hlength, hlong, hs, Except.map, eq_comm]

end Segment

/-! ## Any rule -/

namespace Rule

theorem merge_matchSpan_eq_some_iff {m : Merge} {c : Classifier} {window : Plan} {n : Nat} :
    (Rule.merge m).matchSpan c window = some n ↔
      n = 2 ∧ ∃ a b rest, window = a :: b :: rest ∧ m.admits c a b = true := by
  constructor
  · intro h
    simp only [matchSpan] at h
    split at h
    · next k hk =>
        obtain ⟨rfl, a, b, rest, rfl, -, -⟩ := Merge.pattern_matchSpan_eq_some_iff.1 hk
        split at h
        · next hadmits =>
            cases h
            exact ⟨rfl, a, b, rest, rfl, hadmits⟩
        · cases h
    · cases h
  · rintro ⟨rfl, a, b, rest, rfl, hadmits⟩
    obtain ⟨ha, hb, -⟩ := Merge.admits_iff.1 hadmits
    have hpattern : m.pattern.matchSpan (a :: b :: rest) = some 2 :=
      Merge.pattern_matchSpan_eq_some_iff.2 ⟨rfl, a, b, rest, rfl, ha, hb⟩
    simp only [matchSpan, hpattern]
    exact if_pos hadmits

theorem segment_matchSpan_eq_some_iff {c : Classifier} {window : Plan} {n : Nat} :
    Rule.segment.matchSpan c window = some n ↔
      2 ≤ n ∧ n = (window.takeWhile (Segment.fusable c)).length := by
  rw [matchSpan, Segment.matchSpan_eq]
  split
  · next h =>
      constructor
      · intro heq
        cases heq
        exact ⟨h, rfl⟩
      · rintro ⟨-, rfl⟩
        rfl
  · next h =>
      constructor
      · intro heq
        cases heq
      · rintro ⟨hn, rfl⟩
        exact absurd hn h

theorem fusable_of_segment_matchSpan {c : Classifier} {window : Plan} {n : Nat}
    (h : Rule.segment.matchSpan c window = some n) :
    ∀ node ∈ window.take n, Segment.fusable c node = true := by
  obtain ⟨-, hlength⟩ := segment_matchSpan_eq_some_iff.1 h
  have htake : window.take n = window.takeWhile (Segment.fusable c) := by
    rw [hlength]
    exact (List.prefix_iff_eq_take.1 (List.takeWhile_prefix _)).symm
  intro node hnode
  rw [htake] at hnode
  exact List.mem_takeWhile_imp hnode

theorem merge_fires_iff {m : Merge} {c : Classifier} {window : Plan} :
    (Rule.merge m).fires c window = true ↔
      ∃ a b rest, window = a :: b :: rest ∧ m.admits c a b = true := by
  rw [fires, Option.isSome_iff_exists]
  simp only [merge_matchSpan_eq_some_iff, exists_eq_left]

/-- Two fusable nodes in a row are enough for a segment. -/
theorem segment_fires_iff {c : Classifier} {window : Plan} :
    Rule.segment.fires c window = true ↔
      ∃ a b rest, window = a :: b :: rest ∧ Segment.fusable c a = true ∧
        Segment.fusable c b = true := by
  have hrun : Rule.segment.fires c window = true ↔
      2 ≤ (window.takeWhile (Segment.fusable c)).length := by
    rw [fires, Option.isSome_iff_exists]
    simp only [segment_matchSpan_eq_some_iff, exists_eq_right]
  rw [hrun]
  rcases window with _ | ⟨a, _ | ⟨b, rest⟩⟩
  · simp
  · by_cases ha : Segment.fusable c a <;> simp [ha]
  · by_cases ha : Segment.fusable c a <;> by_cases hb : Segment.fusable c b <;> simp [ha, hb]

/-- A span that a rule finds can be replaced. -/
theorem exists_fuse_of_matchSpan {r : Rule} {c : Classifier} {window : Plan} {n : Nat}
    (h : r.matchSpan c window = some n) : ∃ node, r.fuse (window.take n) = .ok node := by
  cases r with
  | merge m =>
      obtain ⟨rfl, a, b, rest, rfl, hadmits⟩ := merge_matchSpan_eq_some_iff.1 h
      obtain ⟨ha, hb, -⟩ := Merge.admits_iff.1 hadmits
      exact Merge.exists_fuse_of_kind ha hb
  | segment =>
      obtain ⟨htwo, hle⟩ := matchSpan_le h
      have hkinds : ∀ node ∈ window.take n, Segment.slot.accepts node.kind = true := by
        intro node hnode
        have hfusable := fusable_of_segment_matchSpan h node hnode
        rw [Segment.fusable, Bool.and_eq_true] at hfusable
        exact hfusable.1
      obtain ⟨s, hs⟩ := Segment.exists_stage hkinds
      have hlong : 2 ≤ (window.take n).length := by
        rw [List.length_take]
        omega
      exact ⟨_, Segment.fuse_eq_ok_iff.2 ⟨hlong, s, hs, rfl⟩⟩

end Rule
end PipelineFusion
