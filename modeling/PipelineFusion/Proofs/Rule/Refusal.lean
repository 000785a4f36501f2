import PipelineFusion.Proofs.Optimizer.Equivalence
import PipelineFusion.Proofs.Optimizer.NormalForm
import PipelineFusion.Proofs.Rule.Shape

/-!
# Refused spans

A rule fuses the spans that its pattern takes as a whole, admitted or not, and refuses all others:
first those of a wrong length, then those with a node of a wrong kind.  What it makes of a span
gives the outputs of the span, whatever is declared of the nodes.
-/

namespace PipelineFusion

theorem eq_error_of_map_eq_error {A B E : Type} {f : A → B} {result : Except E A} {e : E}
    (h : result.map f = .error e) : result = .error e := by
  cases result with
  | error e' => exact congrArg Except.error (Except.error.inj h)
  | ok x => cases h

/-- A list that cannot be read holds an element that cannot be read. -/
theorem exists_mem_of_mapM_eq_error {A B E : Type} {f : A → Except E B} {xs : List A} {e : E}
    (h : xs.mapM f = .error e) : ∃ x ∈ xs, f x = .error e := by
  induction xs with
  | nil => cases h
  | cons x xs ih =>
      rw [List.mapM_cons] at h
      cases hx : f x with
      | error e' =>
          rw [hx] at h
          cases h
          exact ⟨x, List.mem_cons_self, hx⟩
      | ok y =>
          rw [hx] at h
          cases hrest : xs.mapM f with
          | error e' =>
              rw [hrest] at h
              cases h
              obtain ⟨z, hz, hfz⟩ := ih hrest
              exact ⟨z, List.mem_cons_of_mem x hz, hfz⟩
          | ok ys =>
              rw [hrest] at h
              cases h

namespace Rule

/-- The lengths of the spans that the rule is made for. -/
def HasLength : Rule → Nat → Prop
  | .merge _, n => n = 2
  | .segment, n => 2 ≤ n

/-- The nodes are of the kinds that the rule is made for. -/
def HasKinds : Rule → Plan → Prop
  | .merge m, span => span.map Node.kind = [m.first, m.second]
  | .segment, span => ∀ node ∈ span, node.kind = .map ∨ node.kind = .filter ∨ node.kind = .filterMap

end Rule

/-! ## Merging rules -/

namespace Merge

variable {m : Merge} {span : Plan}

theorem map_kind_eq_iff :
    span.map Node.kind = [m.first, m.second] ↔
      ∃ a b, span = [a, b] ∧ a.kind = m.first ∧ b.kind = m.second := by
  constructor
  · intro h
    obtain ⟨a, rest, rfl, ha, hrest⟩ := List.map_eq_cons_iff.1 h
    obtain ⟨b, rest, rfl, hb, hnil⟩ := List.map_eq_cons_iff.1 hrest
    obtain rfl := List.map_eq_nil_iff.1 hnil
    exact ⟨a, b, rfl, ha, hb⟩
  · rintro ⟨a, b, rfl, ha, hb⟩
    rw [List.map_cons, List.map_singleton, ha, hb]

theorem length_eq_two_of_map_kind (h : span.map Node.kind = [m.first, m.second]) :
    span.length = 2 := by
  obtain ⟨a, b, rfl, -, -⟩ := map_kind_eq_iff.1 h
  rfl

theorem exists_fuse_iff :
    (∃ node, m.fuse span = .ok node) ↔ span.map Node.kind = [m.first, m.second] := by
  rw [map_kind_eq_iff]
  constructor
  · rintro ⟨node, h⟩
    obtain ⟨s, p, t, q, u, rfl, hu, -⟩ := fuse_eq_ok_iff.1 h
    obtain ⟨hs, ht, -⟩ := kinds_of_stage? hu
    exact ⟨_, _, rfl, hs, ht⟩
  · rintro ⟨a, b, rfl, ha, hb⟩
    exact exists_fuse_of_kind ha hb

theorem pattern_matchSpan_self_iff :
    m.pattern.matchSpan span = some span.length ↔
      span.map Node.kind = [m.first, m.second] := by
  rw [map_kind_eq_iff, pattern_matchSpan_eq_some_iff]
  constructor
  · rintro ⟨hlength, a, b, rest, rfl, ha, hb⟩
    obtain rfl : rest = [] := List.length_eq_zero_iff.1 (by simpa using hlength)
    exact ⟨a, b, rfl, ha, hb⟩
  · rintro ⟨a, b, rfl, ha, hb⟩
    exact ⟨rfl, a, b, [], rfl, ha, hb⟩

theorem fuse_of_length_ne_two (h : span.length ≠ 2) :
    ∃ reason, m.fuse span = .error (.invalidPlan reason) := by
  unfold fuse
  split
  · exact absurd rfl h
  · exact ⟨_, rfl⟩

theorem fuse_of_length_eq_two (h : span.length = 2) :
    (∃ node, m.fuse span = .ok node) ∨ ∃ what, m.fuse span = .error (.unsupportedNode what) := by
  obtain ⟨a, b, rfl⟩ := List.length_eq_two.1 h
  rw [fuse]
  split
  · next node hnode => exact Or.inl ⟨node, rfl⟩
  · exact Or.inr ⟨_, rfl⟩

end Merge

/-! ## The segment rule -/

namespace Segment

variable {span : Plan}

theorem readAll_eq_error {F : Type} {read? : Node → Option (Operator F)} {e : FusionError}
    (h : readAll read? span = .error e) : ∃ node ∈ span, e = .unsupportedNode node.kind.name := by
  obtain ⟨node, hnode, hfail⟩ := exists_mem_of_mapM_eq_error h
  refine ⟨node, hnode, ?_⟩
  split at hfail
  · cases hfail
  · exact (Except.error.inj hfail).symm

theorem stage_eq_error {e : FusionError} (h : stage span = .error e) :
    ∃ node ∈ span, e = .unsupportedNode node.kind.name := by
  unfold stage at h
  split at h
  · exact readAll_eq_error (eq_error_of_map_eq_error h)
  · split at h
    · exact readAll_eq_error (eq_error_of_map_eq_error h)
    · exact readAll_eq_error (eq_error_of_map_eq_error h)

theorem accepts_of_folds {s : Stage} (h : Folds span s) :
    ∀ node ∈ span, slot.accepts node.kind = true := by
  cases h with
  | maps fs h =>
      apply forall_mem_of_forall₂ (P := fun node : Node ↦ slot.accepts node.kind = true) _ h
      intro node f hf
      exact accepts_iff.2 (Or.inl (exists_map?_iff.1 ⟨f, hf⟩))
  | filters ps h =>
      apply forall_mem_of_forall₂ (P := fun node : Node ↦ slot.accepts node.kind = true) _ h
      intro node p hp
      exact accepts_iff.2 (Or.inr (Or.inl (exists_filter?_iff.1 ⟨p, hp⟩)))
  | mixed fs h =>
      apply forall_mem_of_forall₂ (P := fun node : Node ↦ slot.accepts node.kind = true) _ h
      intro node f hf
      exact exists_partialMap?_iff.1 ⟨f, hf⟩

theorem exists_fuse_iff :
    (∃ node, fuse span = .ok node) ↔
      2 ≤ span.length ∧ ∀ node ∈ span, slot.accepts node.kind = true := by
  constructor
  · rintro ⟨node, h⟩
    obtain ⟨hlength, s, hs, -⟩ := fuse_eq_ok_iff.1 h
    exact ⟨hlength, accepts_of_folds (folds_of_stage hs)⟩
  · rintro ⟨hlength, hkinds⟩
    obtain ⟨s, hs⟩ := exists_stage hkinds
    exact ⟨_, fuse_eq_ok_iff.2 ⟨hlength, s, hs, rfl⟩⟩

theorem pattern_matchSpan_self_iff :
    pattern.matchSpan span = some span.length ↔
      2 ≤ span.length ∧ ∀ node ∈ span, slot.accepts node.kind = true := by
  have hall : (∀ node ∈ span, slot.accepts node.kind = true) ↔
      (span.takeWhile (slot.accepts ∘ Node.kind)).length = span.length := by
    apply (List.takeWhile_eq_self_iff (p := slot.accepts ∘ Node.kind)).symm.trans
    exact ⟨congrArg List.length, (List.takeWhile_prefix _).eq_of_length⟩
  rw [pattern_matchSpan_eq, hall]
  constructor
  · intro h
    split at h
    · next htwo =>
        have heq := Option.some.inj h
        exact ⟨heq ▸ htwo, heq⟩
    · cases h
  · rintro ⟨htwo, heq⟩
    rw [heq, if_pos htwo]

theorem fuse_of_length_lt_two (h : span.length < 2) :
    ∃ reason, fuse span = .error (.invalidPlan reason) :=
  ⟨_, if_pos h⟩

theorem fuse_of_two_le_length (h : 2 ≤ span.length) :
    (∃ node, fuse span = .ok node) ∨ ∃ what, fuse span = .error (.unsupportedNode what) := by
  rw [fuse, if_neg (Nat.not_lt.2 h)]
  cases hs : stage span with
  | ok s => exact Or.inl ⟨_, rfl⟩
  | error e =>
      obtain ⟨node, -, rfl⟩ := stage_eq_error hs
      exact Or.inr ⟨_, rfl⟩

end Segment

/-! ## Any rule -/

namespace Rule

variable {r : Rule} {span : Plan}

theorem exists_fuse_iff :
    (∃ node, r.fuse span = .ok node) ↔ r.HasLength span.length ∧ r.HasKinds span := by
  cases r with
  | merge m =>
      refine Merge.exists_fuse_iff.trans ⟨fun h ↦ ⟨?_, h⟩, And.right⟩
      exact Merge.length_eq_two_of_map_kind h
  | segment => simp only [HasLength, HasKinds, ← Segment.accepts_iff, fuse, Segment.exists_fuse_iff]

/-- The pattern takes a span as a whole if it has the length and the kinds. -/
theorem pattern_matchSpan_self_iff :
    r.pattern.matchSpan span = some span.length ↔ r.HasLength span.length ∧ r.HasKinds span := by
  cases r with
  | merge m =>
      refine Merge.pattern_matchSpan_self_iff.trans ⟨fun h ↦ ⟨?_, h⟩, And.right⟩
      exact Merge.length_eq_two_of_map_kind h
  | segment =>
      simp only [HasLength, HasKinds, ← Segment.accepts_iff, pattern,
        Segment.pattern_matchSpan_self_iff]

theorem fuse_of_not_hasLength (h : ¬ r.HasLength span.length) :
    ∃ reason, r.fuse span = .error (.invalidPlan reason) := by
  cases r with
  | merge m => exact Merge.fuse_of_length_ne_two h
  | segment => exact Segment.fuse_of_length_lt_two (Nat.not_le.1 h)

theorem fuse_of_hasLength (h : r.HasLength span.length) :
    (∃ node, r.fuse span = .ok node) ∨ ∃ what, r.fuse span = .error (.unsupportedNode what) := by
  cases r with
  | merge m => exact Merge.fuse_of_length_eq_two h
  | segment => exact Segment.fuse_of_two_le_length h

theorem fuse_of_not_hasKinds (hlength : r.HasLength span.length) (hkinds : ¬ r.HasKinds span) :
    ∃ what, r.fuse span = .error (.unsupportedNode what) := by
  rcases fuse_of_hasLength hlength with hok | herror
  · exact absurd (exists_fuse_iff.1 hok).2 hkinds
  · exact herror

/-- A rule tried by an optimizer either finds no span or replaces the one that it finds. -/
theorem exists_attempt?_of_matchSpan {c : Classifier} {window : Plan} {n : Nat}
    (h : r.matchSpan c window = some n) :
    ∃ node, r.fuse (window.take n) = .ok node ∧
      Optimizer.attempt? c window r = some ⟨r, n, node⟩ := by
  obtain ⟨node, hnode⟩ := exists_fuse_of_matchSpan h
  exact ⟨node, hnode, Optimizer.attempt?_eq_some_iff.2 ⟨rfl, h, hnode⟩⟩

theorem responses_of_fuse {node : Node} (h : r.fuse span = .ok node) (inputs : List Value) :
    (Runner.start [node]).responses inputs = (Runner.start span).responses inputs := by
  obtain ⟨ts, hsimulates⟩ := exists_simulates_of_fuse h
  exact (Runner.mirrors_start hsimulates).responses_eq inputs

/-- A rule fuses just the spans that its pattern takes as a whole, and with them all spans that it
finds, so that an optimizer never meets a refusal.  A refused span is of a wrong length or else
holds a wrong kind, and the error says which.  A fused node gives the outputs of its span push by
push, and nothing is asked of purities, calls and boundaries for that. -/
theorem fuse_agrees_with_pattern (r : Rule) (span : Plan) :
    ((∃ node, r.fuse span = .ok node) ↔ r.pattern.matchSpan span = some span.length) ∧
    (r.pattern.matchSpan span = some span.length ↔
      r.HasLength span.length ∧ r.HasKinds span) ∧
    (¬ r.HasLength span.length → ∃ reason, r.fuse span = .error (.invalidPlan reason)) ∧
    (r.HasLength span.length → ¬ r.HasKinds span →
      ∃ what, r.fuse span = .error (.unsupportedNode what)) ∧
    (∀ (c : Classifier) (window : Plan) (n : Nat), r.matchSpan c window = some n →
      ∃ node, r.fuse (window.take n) = .ok node ∧
        Optimizer.attempt? c window r = some ⟨r, n, node⟩) ∧
    (∀ node, r.fuse span = .ok node → ∀ inputs : List Value,
      (Runner.start [node]).responses inputs = (Runner.start span).responses inputs) := by
  refine ⟨exists_fuse_iff.trans pattern_matchSpan_self_iff.symm, pattern_matchSpan_self_iff,
    fuse_of_not_hasLength, fuse_of_not_hasKinds, ?_, ?_⟩
  · intro c window n h
    exact exists_attempt?_of_matchSpan h
  · intro node h inputs
    exact responses_of_fuse h inputs

theorem fuse_lagged :
    (∃ node, (Rule.merge .filterMap).fuse (Plan.lagged.take 2) = .ok node ∧
      ∀ inputs : List Value, (Runner.start [node]).responses inputs =
        (Runner.start (Plan.lagged.take 2)).responses inputs) ∧
    (∃ what, (Rule.merge .mapMap).fuse (Plan.lagged.take 2) = .error (.unsupportedNode what)) ∧
    (∃ reason, Rule.segment.fuse (Plan.lagged.take 1) = .error (.invalidPlan reason)) ∧
    ∃ node, Optimizer.attempt? .builtin Plan.lagged .segment = some ⟨.segment, 2, node⟩ := by
  obtain ⟨hok, -, -, -, -, houtputs⟩ :=
    fuse_agrees_with_pattern (.merge .filterMap) (Plan.lagged.take 2)
  obtain ⟨node, hnode⟩ := hok.2 (by decide)
  obtain ⟨-, -, -, hkinds, -, -⟩ :=
    fuse_agrees_with_pattern (.merge .mapMap) (Plan.lagged.take 2)
  obtain ⟨-, -, hlength, -, hfound, -⟩ := fuse_agrees_with_pattern .segment (Plan.lagged.take 1)
  obtain ⟨fused, -, hattempt⟩ := hfound .builtin Plan.lagged 2 (by decide +kernel)
  refine ⟨⟨node, hnode, houtputs node hnode⟩, ?_, ?_, fused, hattempt⟩
  · apply hkinds
    · rfl
    · simp [HasKinds, Plan.lagged, Node.kind, Stage.kind, Merge.first]
  · apply hlength
    simp [HasLength, Plan.lagged]

end Rule
end PipelineFusion
