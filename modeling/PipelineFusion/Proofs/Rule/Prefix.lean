import PipelineFusion.Proofs.Optimizer.Locality
import PipelineFusion.Proofs.Rule.Language
import PipelineFusion.Proofs.Rule.Refusal

/-!
# Prefixes of windows

The span that a rule finds is a prefix of the window that its pattern takes as a whole and that it
admits.  The merging rules try the prefix that the pattern takes, and no other.  The segment rule
cuts it down to the longest prefix that can be folded, so it finds a span also where the kinds go on
in front of a node that is not fully fusable.
-/

namespace PipelineFusion

/-! ## Longest prefixes -/

section Prefixes

variable {A : Type} {p : A → Bool} {xs ys : List A}

/-- What comes behind the first element without the property does not matter. -/
theorem takeWhile_eq_of_take_eq
    (h : ys.take ((xs.takeWhile p).length + 1) = xs.take ((xs.takeWhile p).length + 1)) :
    ys.takeWhile p = xs.takeWhile p := by
  induction xs generalizing ys with
  | nil =>
      obtain rfl : ys = [] := by simpa using h
      rfl
  | cons x xs ih =>
      cases ys with
      | nil => simp at h
      | cons y ys =>
          rw [List.take_succ_cons, List.take_succ_cons, List.cons.injEq] at h
          obtain ⟨rfl, hrest⟩ := h
          by_cases hy : p y = true
          · rw [List.takeWhile_cons_of_pos hy, List.length_cons] at hrest
            rw [List.takeWhile_cons_of_pos hy, List.takeWhile_cons_of_pos hy, ih hrest]
          · rw [List.takeWhile_cons_of_neg hy, List.takeWhile_cons_of_neg hy]

theorem length_takeWhile_le {q : A → Bool} (hpq : ∀ x, p x = true → q x = true) :
    (xs.takeWhile p).length ≤ (xs.takeWhile q).length := by
  have hle := (List.takeWhile_sublist p (l := xs)).length_le
  apply (forall_mem_take_iff hle).1
  intro x hx
  exact hpq x ((forall_mem_take_iff hle).2 (Nat.le_refl _) x hx)

/-- A weaker property goes on for longer just if the next element has it. -/
theorem length_takeWhile_lt_iff {q : A → Bool} (hpq : ∀ x, p x = true → q x = true) :
    (xs.takeWhile p).length < (xs.takeWhile q).length ↔
      ∃ x, xs[(xs.takeWhile p).length]? = some x ∧ q x = true ∧ p x = false := by
  induction xs with
  | nil => simp
  | cons x xs ih =>
      by_cases hx : p x = true
      · rw [List.takeWhile_cons_of_pos hx, List.takeWhile_cons_of_pos (hpq x hx),
          List.length_cons, List.length_cons, Nat.add_lt_add_iff_right, List.getElem?_cons_succ, ih]
      · rw [List.takeWhile_cons_of_neg hx]
        by_cases hq : q x = true <;> simp [hx, hq]

end Prefixes

/-- The prefixes of up to `n` nodes, and no others, hold nothing but nodes with the property. -/
def Plan.LongestPrefix (P : Node → Prop) (window : Plan) (n : Nat) : Prop :=
  n ≤ window.length ∧ ∀ m ≤ window.length, (∀ node ∈ window.take m, P node) ↔ m ≤ n

theorem Plan.longestPrefix_iff {p : Node → Bool} {window : Plan} {n : Nat} :
    window.LongestPrefix (fun node ↦ p node = true) n ↔ n = (window.takeWhile p).length := by
  have hrun : (window.takeWhile p).length ≤ window.length :=
    (List.takeWhile_sublist p).length_le
  constructor
  · rintro ⟨hn, hall⟩
    apply Nat.le_antisymm
    · exact (forall_mem_take_iff hn).1 ((hall n hn).2 (Nat.le_refl n))
    · exact (hall _ hrun).1 ((forall_mem_take_iff hrun).2 (Nat.le_refl _))
  · rintro rfl
    refine ⟨hrun, ?_⟩
    intro m hm
    exact forall_mem_take_iff hm

/-! ## What a rule finds -/

/-- A node that can be folded with its neighbours. -/
def Segment.Foldable (c : Classifier) (node : Node) : Prop :=
  (node.kind = .map ∨ node.kind = .filter ∨ node.kind = .filterMap) ∧
    c.classify node = .fullyFusable

theorem Segment.foldable_iff {c : Classifier} {node : Node} :
    Foldable c node ↔ fusable c node = true :=
  Node.fusable_iff.symm

namespace Rule

variable {r : Rule} {c : Classifier} {window : Plan} {n : Nat}

/-- The prefix that the pattern takes, if it is admitted as a whole. -/
def wholeSpan (r : Rule) (c : Classifier) (window : Plan) : Option Nat :=
  (r.pattern.matchSpan window).filter fun n ↦ r.admits c (window.take n)

/-- The number of nodes behind its span that a rule looks at. -/
def lookahead : Rule → Nat
  | .merge _ => 0
  | .segment => 1

theorem merge_matchSpan_eq (m : Merge) (c : Classifier) (window : Plan) :
    (Rule.merge m).matchSpan c window = (Rule.merge m).wholeSpan c window := by
  have hpattern : (Rule.merge m).pattern = m.pattern := rfl
  rw [matchSpan, wholeSpan, hpattern]
  cases m.pattern.matchSpan window <;> rfl

theorem segment_matchSpan_iff_longestPrefix :
    Rule.segment.matchSpan c window = some n ↔
      2 ≤ n ∧ window.LongestPrefix (Segment.Foldable c) n := by
  have hfoldable : Segment.Foldable c = fun node ↦ Segment.fusable c node = true := by
    funext node
    exact propext Segment.foldable_iff
  rw [segment_matchSpan_eq_some_iff, hfoldable, Plan.longestPrefix_iff]

theorem pattern_and_admits_of_matchSpan (h : r.matchSpan c window = some n) :
    r.pattern.matchSpan (window.take n) = some n ∧ r.admits c (window.take n) = true := by
  cases r with
  | merge m =>
      obtain ⟨rfl, a, b, rest, rfl, hadmits⟩ := merge_matchSpan_eq_some_iff.1 h
      obtain ⟨ha, hb, -⟩ := Merge.admits_iff.1 hadmits
      refine ⟨?_, hadmits⟩
      exact Merge.pattern_matchSpan_eq_some_iff.2 ⟨rfl, a, b, [], rfl, ha, hb⟩
  | segment =>
      obtain ⟨htwo, hle⟩ := matchSpan_le h
      have hlength : (window.take n).length = n := List.length_take_of_le hle
      have hall := fusable_of_segment_matchSpan h
      simp only [Segment.fusable, Bool.and_eq_true] at hall
      constructor
      · have hself : Segment.pattern.matchSpan (window.take n) = some (window.take n).length :=
          Segment.pattern_matchSpan_self_iff.2 ⟨hlength.ge.trans' htwo, fun node hnode ↦
            (hall node hnode).1⟩
        rwa [hlength] at hself
      · rw [admits, Segment.admits, hlength, Bool.and_eq_true, List.all_eq_true]
        exact ⟨decide_eq_true htwo, fun node hnode ↦ (hall node hnode).2⟩

/-- A rule finds the same span in all windows that begin with what it looks at. -/
theorem matchSpan_of_take_eq (h : r.matchSpan c window = some n) {window' : Plan}
    (htake : window'.take (n + r.lookahead) = window.take (n + r.lookahead)) :
    r.matchSpan c window' = some n := by
  cases r with
  | merge m =>
      obtain ⟨rfl, a, b, rest, rfl, hadmits⟩ := merge_matchSpan_eq_some_iff.1 h
      have hsplit := List.take_append_drop 2 window'
      have hpair : window'.take 2 = [a, b] := htake
      rw [hpair] at hsplit
      exact merge_matchSpan_eq_some_iff.2 ⟨rfl, a, b, _, hsplit.symm, hadmits⟩
  | segment =>
      obtain ⟨htwo, rfl⟩ := segment_matchSpan_eq_some_iff.1 h
      rw [segment_matchSpan_eq_some_iff, takeWhile_eq_of_take_eq htake]
      exact ⟨htwo, rfl⟩

/-- The run of kinds is admitted if all of it can be folded. -/
theorem segment_admits_iff {c : Classifier} {window : Plan} :
    Rule.segment.admits c
        (window.take (window.takeWhile (Segment.slot.accepts ∘ Node.kind)).length) = true ↔
      2 ≤ (window.takeWhile (Segment.slot.accepts ∘ Node.kind)).length ∧
        (window.takeWhile (Segment.slot.accepts ∘ Node.kind)).length ≤
          (window.takeWhile (Segment.fusable c)).length := by
  have hle := (List.takeWhile_sublist (Segment.slot.accepts ∘ Node.kind) (l := window)).length_le
  have hkinds := (forall_mem_take_iff hle).2 (Nat.le_refl _)
  rw [admits, Segment.admits, List.length_take_of_le hle, Bool.and_eq_true, decide_eq_true_iff,
    List.all_eq_true, ← forall_mem_take_iff hle]
  apply and_congr_right
  intro htwo
  constructor
  · intro hall node hnode
    rw [Segment.fusable, hall node hnode, Bool.and_true]
    exact hkinds node hnode
  · intro hall node hnode
    have hfusable := hall node hnode
    rw [Segment.fusable, Bool.and_eq_true] at hfusable
    exact hfusable.2

/-- The span that the segment rule finds falls short of its pattern if the kinds go on behind it. -/
theorem segment_wholeSpan_eq_none_iff (h : Rule.segment.matchSpan c window = some n) :
    Rule.segment.wholeSpan c window = none ↔
      ∃ node, window[n]? = some node ∧
        (node.kind = .map ∨ node.kind = .filter ∨ node.kind = .filterMap) ∧
        c.classify node ≠ .fullyFusable := by
  obtain ⟨htwo, rfl⟩ := segment_matchSpan_eq_some_iff.1 h
  have hweaker : ∀ node, Segment.fusable c node = true →
      (Segment.slot.accepts ∘ Node.kind) node = true := by
    intro node hnode
    rw [Segment.fusable, Bool.and_eq_true] at hnode
    exact hnode.1
  have hle : (window.takeWhile (Segment.fusable c)).length ≤
      (window.takeWhile (Segment.slot.accepts ∘ Node.kind)).length := length_takeWhile_le hweaker
  have hpattern : Rule.segment.pattern.matchSpan window =
      some (window.takeWhile (Segment.slot.accepts ∘ Node.kind)).length := by
    rw [pattern, Segment.pattern_matchSpan_eq, if_pos (htwo.trans hle)]
  have hshort : Rule.segment.wholeSpan c window = none ↔
      (window.takeWhile (Segment.fusable c)).length <
        (window.takeWhile (Segment.slot.accepts ∘ Node.kind)).length := by
    rw [wholeSpan, hpattern, Option.filter_some]
    split
    · next hadmits => exact iff_of_false (by simp) (Nat.not_lt.2 (segment_admits_iff.1 hadmits).2)
    · next hadmits =>
        refine iff_of_true rfl ?_
        by_contra hlong
        exact hadmits (segment_admits_iff.2 ⟨htwo.trans hle, Nat.not_lt.1 hlong⟩)
  rw [hshort, length_takeWhile_lt_iff hweaker]
  apply exists_congr
  intro node
  apply and_congr_right
  intro _
  rw [← Segment.accepts_iff]
  apply and_congr_right
  intro hkind
  have haccepts : Segment.slot.accepts node.kind = true := hkind
  rw [Segment.fusable, haccepts, Bool.true_and, Classifier.isFullyFusable, decide_eq_false_iff_not]

/-- Whatever a rule finds is at least two nodes long, and its pattern takes it as a whole and it is
admitted; all windows that begin with these nodes, and for segments with the node behind them, give
the same.  The merging rules find no more and no less than their pattern does.  The segment rule
finds the longest prefix that can be folded, and that also where the run of kinds, which is what its
pattern takes, goes on with a node that is not fully fusable. -/
theorem matchSpan_agrees_with_pattern (r : Rule) (c : Classifier) (window : Plan) :
    (∀ n, r.matchSpan c window = some n →
      (2 ≤ n ∧ n ≤ window.length) ∧
      r.pattern.matchSpan (window.take n) = some n ∧ r.admits c (window.take n) = true ∧
      ∀ window' : Plan, window'.take (n + r.lookahead) = window.take (n + r.lookahead) →
        r.matchSpan c window' = some n) ∧
    (r ≠ .segment → r.matchSpan c window = r.wholeSpan c window) ∧
    (∀ n, Rule.segment.matchSpan c window = some n ↔
      2 ≤ n ∧ window.LongestPrefix (Segment.Foldable c) n) ∧
    (∀ n, Rule.segment.matchSpan c window = some n →
      (Rule.segment.wholeSpan c window = none ↔
        ∃ node, window[n]? = some node ∧
          (node.kind = .map ∨ node.kind = .filter ∨ node.kind = .filterMap) ∧
          c.classify node ≠ .fullyFusable)) := by
  refine ⟨?_, ?_, fun n ↦ segment_matchSpan_iff_longestPrefix, fun n ↦
    segment_wholeSpan_eq_none_iff⟩
  · intro n h
    obtain ⟨hpattern, hadmits⟩ := pattern_and_admits_of_matchSpan h
    exact ⟨matchSpan_le h, hpattern, hadmits, fun window' ↦ matchSpan_of_take_eq h⟩
  · intro hr
    cases r with
    | merge m => exact merge_matchSpan_eq m c window
    | segment => exact absurd rfl hr

/-- A run of two stages that can be folded, with a stage of the same kind behind it that cannot. -/
theorem matchSpan_lagged_printing :
    Rule.segment.matchSpan .builtin (Plan.lagged.take 2 ++ [Optimizer.printing]) = some 2 ∧
      Rule.segment.admits .builtin (Plan.lagged.take 2) = true ∧
      Rule.segment.wholeSpan .builtin (Plan.lagged.take 2 ++ [Optimizer.printing]) = none := by
  obtain ⟨hfound, -, -, hwhole⟩ := matchSpan_agrees_with_pattern .segment .builtin
    (Plan.lagged.take 2 ++ [Optimizer.printing])
  have hspan : Rule.segment.matchSpan .builtin (Plan.lagged.take 2 ++ [Optimizer.printing]) =
      some 2 := by decide +kernel
  refine ⟨hspan, (hfound 2 hspan).2.2.1, (hwhole 2 hspan).2 ?_⟩
  exact ⟨Optimizer.printing, rfl, Or.inl rfl, by decide +kernel⟩

end Rule
end PipelineFusion
