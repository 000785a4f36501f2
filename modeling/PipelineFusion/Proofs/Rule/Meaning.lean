import PipelineFusion.Proofs.Plan.Simulation
import PipelineFusion.Proofs.Rule.Span

/-!
# What a fused stage does

Whenever a rule fuses a span, the new node simulates the span.  No declared purity and no call is
asked for: the boundaries that a rule respects protect effects, not values.  Only the fusion of two
scans nests states; all other rules keep them as they are.
-/

namespace PipelineFusion

/-! ## Chains without memory -/

/-- A chain without scans, given as what it makes of one value. -/
structure Plan.Gives (p : Plan) (f : Value → List Value) : Prop where
  initial_eq : p.initial = []
  flow_eq : ∀ batch, Plan.flow p [] batch = ([], batch.flatMap f)

namespace Plan.Gives

variable {p q : Plan} {f g : Value → List Value}

theorem nil : Gives [] fun x ↦ [x] :=
  ⟨rfl, fun batch ↦ by simp⟩

theorem append (hp : p.Gives f) (hq : q.Gives g) :
    (p ++ q).Gives fun x ↦ (f x).flatMap g where
  initial_eq := by simp [hp.initial_eq, hq.initial_eq]
  flow_eq := by
    intro batch
    have hmemory : ([] : List Value).length = p.scans := by simp [scans, hp.initial_eq]
    have hflow : flow (p ++ q) ([] ++ []) batch = _ := flow_append p q hmemory batch
    rw [hp.flow_eq, hq.flow_eq, List.flatMap_assoc] at hflow
    exact hflow

theorem congr (hp : p.Gives f) (h : ∀ x, f x = g x) : p.Gives g := by
  rwa [← funext h]

theorem simulates (hp : p.Gives f) (hq : q.Gives f) : q.Simulates p [] where
  length_eq := by simp [scans, hq.initial_eq]
  initial_eq := by simp [hp.initial_eq]
  flow_eq := by
    intro memory hmemory batch
    have hnil : memory = [] := by
      rw [scans, hq.initial_eq] at hmemory
      exact List.length_eq_zero_iff.1 hmemory
    rw [hnil, unnest_nil, hp.flow_eq, hq.flow_eq, unnest_nil]

end Plan.Gives

/-- What a stage other than a scan makes of a value. -/
def Stage.emit : Stage → Value → List Value
  | .map f, x => [f.run x]
  | .filter p, x => if p.run x then [x] else []
  | .filterMap f, x => (f.run x).toList
  | .scan _ _, _ => []
  | .flatMap f, x => f.run x

theorem Stage.gives_emit {stage : Stage} {purity : Purity}
    (h : (Node.leaf stage purity).initial = []) : Plan.Gives [.leaf stage purity] stage.emit := by
  refine ⟨by simp [h], ?_⟩
  intro batch
  have hfeed : (Node.leaf stage purity).feed = fun memory x ↦ (memory, stage.emit x) := by
    cases stage with
    | scan init step => exact absurd h (List.cons_ne_nil init [])
    | _ => rfl
  have hmemory : ([] : List Value).length = (Node.leaf stage purity).scans := by
    simp [Node.scans, h]
  rw [Plan.flow_singleton hmemory, hfeed, feedAll_stateless]

/-! ## Merged neighbours -/

namespace Merge

variable {s t u : Stage} {p q r : Purity}

theorem simulates_of_emit (hs : (Node.leaf s p).initial = []) (ht : (Node.leaf t q).initial = [])
    (hu : (Node.leaf u r).initial = []) (h : ∀ x, (s.emit x).flatMap t.emit = u.emit x) :
    Plan.Simulates [.leaf u r] [.leaf s p, .leaf t q] [] := by
  have hspan := (Stage.gives_emit hs).append (Stage.gives_emit ht)
  exact (hspan.congr h).simulates (Stage.gives_emit hu)

theorem simulates_scanMap (init : Value) (step : Operator (Value → Value → Value × Value))
    (f : Operator (Value → Value))
    (h : Merge.stage? .scanMap (.scan init step) (.map f) = some u) :
    Plan.Simulates [.leaf u r] [.leaf (.scan init step) p, .leaf (.map f) q] [.whole] := by
  cases h
  apply Plan.Simulates.of_singleton rfl rfl
  intro memory hmemory x
  obtain ⟨state, rfl⟩ := List.length_eq_one_iff.1 hmemory
  rfl

theorem simulates_scanScan (init init' : Value)
    (step step' : Operator (Value → Value → Value × Value))
    (h : Merge.stage? .scanScan (.scan init step) (.scan init' step') = some u) :
    Plan.Simulates [.leaf u r] [.leaf (.scan init step) p, .leaf (.scan init' step') q]
      [.pair .whole .whole] := by
  cases h
  apply Plan.Simulates.of_singleton rfl rfl
  intro memory hmemory x
  obtain ⟨state, rfl⟩ := List.length_eq_one_iff.1 hmemory
  rfl

theorem exists_simulates_of_stage? {m : Merge} (h : m.stage? s t = some u) (p q r : Purity) :
    ∃ ts, Plan.Simulates [.leaf u r] [.leaf s p, .leaf t q] ts := by
  have hm := h
  unfold Merge.stage? at h
  split at h
  case h_1 f g =>
    cases h
    refine ⟨[], ?_⟩
    apply simulates_of_emit rfl rfl rfl
    intro x
    rfl
  case h_2 f g =>
    cases h
    refine ⟨[], ?_⟩
    apply simulates_of_emit rfl rfl rfl
    intro x
    cases hf : f.run x <;> simp [Stage.emit, Operator.fuse, hf]
  case h_3 f g =>
    cases h
    refine ⟨[], ?_⟩
    apply simulates_of_emit rfl rfl rfl
    intro x
    cases hg : g.run (f.run x) <;> simp [Stage.emit, Operator.fuse, hg]
  case h_4 g f =>
    cases h
    refine ⟨[], ?_⟩
    apply simulates_of_emit rfl rfl rfl
    intro x
    cases hg : g.run x <;> simp [Stage.emit, Operator.fuse, hg]
  case h_5 f g =>
    cases h
    refine ⟨[], ?_⟩
    apply simulates_of_emit rfl rfl rfl
    intro x
    cases hf : f.run x <;> simp [Stage.emit, Operator.fuse, hf]
  case h_6 init step f => exact ⟨_, simulates_scanMap init step f hm⟩
  case h_7 init step init' step' => exact ⟨_, simulates_scanScan init init' step step' hm⟩
  case h_8 f g =>
    cases h
    refine ⟨[], ?_⟩
    apply simulates_of_emit rfl rfl rfl
    intro x
    exact List.map_eq_flatMap.symm
  case h_9 => cases h

end Merge

/-! ## Segments -/

namespace Segment

theorem gives_of_forall₂ {A : Type} {k : A → Value → List Value} {span : Plan} {as : List A}
    (h : List.Forall₂ (fun node a ↦ Plan.Gives [node] (k a)) span as) :
    span.Gives (as.foldr (fun a g x ↦ (k a x).flatMap g) fun x ↦ [x]) := by
  induction h with
  | nil => exact .nil
  | cons hnode _ ih => exact hnode.append ih

theorem gives_of_map? {node : Node} {f : Operator (Value → Value)} (h : map? node = some f) :
    Plan.Gives [node] fun x ↦ [f.run x] := by
  unfold map? at h
  split at h
  · cases h
    exact Stage.gives_emit rfl
  · cases h

theorem gives_of_filter? {node : Node} {p : Operator (Value → Bool)} (h : filter? node = some p) :
    Plan.Gives [node] fun x ↦ if p.run x then [x] else [] := by
  unfold filter? at h
  split at h
  · cases h
    exact Stage.gives_emit rfl
  · cases h

theorem gives_of_partialMap? {node : Node} {f : Operator (Value → Option Value)}
    (h : partialMap? node = some f) : Plan.Gives [node] fun x ↦ (f.run x).toList := by
  unfold partialMap? at h
  split at h
  · cases h
    exact Stage.gives_emit rfl
  · next p purity =>
      cases h
      have hfilter : Plan.Gives [.leaf (.filter p) purity] (Stage.filter p).emit :=
        Stage.gives_emit rfl
      apply hfilter.congr
      intro x
      cases hp : p.run x <;> simp [Stage.emit, hp]
  · cases h
    exact Stage.gives_emit rfl
  · cases h

theorem foldr_maps (fs : List (Operator (Value → Value))) (x : Value) :
    fs.foldr (fun f g x ↦ [f.run x].flatMap g) (fun x ↦ [x]) x =
      [fs.foldl (fun y f ↦ f.run y) x] := by
  induction fs generalizing x with
  | nil => rfl
  | cons f fs ih => simpa using ih (f.run x)

theorem foldr_filters (ps : List (Operator (Value → Bool))) (x : Value) :
    ps.foldr (fun p g x ↦ (if p.run x then [x] else []).flatMap g) (fun x ↦ [x]) x =
      if ps.all (·.run x) then [x] else [] := by
  induction ps with
  | nil => rfl
  | cons p ps ih => cases hp : p.run x <;> simp_all

theorem foldr_partialMaps (fs : List (Operator (Value → Option Value))) (x : Value) :
    fs.foldr (fun f g x ↦ (f.run x).toList.flatMap g) (fun x ↦ [x]) x =
      (fs.foldlM (fun y (f : Operator (Value → Option Value)) ↦ f.run y) x).toList := by
  induction fs generalizing x with
  | nil => rfl
  | cons f fs ih =>
      cases hf : f.run x with
      | none => simp [hf]
      | some y => simpa [hf] using ih y

theorem simulates_of_folds {span : Plan} {s : Stage} (h : Folds span s) (purity : Purity) :
    Plan.Simulates [.leaf s purity] span [] := by
  cases h with
  | maps fs h =>
      have hspan := gives_of_forall₂ (h.imp fun _ _ ↦ gives_of_map?)
      exact (hspan.congr (foldr_maps fs)).simulates (Stage.gives_emit rfl)
  | filters ps h =>
      have hspan := gives_of_forall₂ (h.imp fun _ _ ↦ gives_of_filter?)
      exact (hspan.congr (foldr_filters ps)).simulates (Stage.gives_emit rfl)
  | mixed fs h =>
      have hspan := gives_of_forall₂ (h.imp fun _ _ ↦ gives_of_partialMap?)
      exact (hspan.congr (foldr_partialMaps fs)).simulates (Stage.gives_emit rfl)

end Segment

/-- The node that replaces a span simulates it. -/
theorem Rule.exists_simulates_of_fuse {r : Rule} {span : Plan} {node : Node}
    (h : r.fuse span = .ok node) : ∃ ts, Plan.Simulates [node] span ts := by
  cases r with
  | merge m =>
      obtain ⟨s, p, t, q, u, rfl, hu, rfl⟩ := Merge.fuse_eq_ok_iff.1 h
      exact Merge.exists_simulates_of_stage? hu p q (p.join q)
  | segment =>
      obtain ⟨-, s, hs, rfl⟩ := Segment.fuse_eq_ok_iff.1 h
      exact ⟨[], Segment.simulates_of_folds (Segment.folds_of_stage hs) _⟩

/-! ## First states -/

theorem Merge.initial_of_stage? {m : Merge} {s t u : Stage} (h : m.stage? s t = some u)
    (p q r : Purity) :
    (Node.leaf u r).initial = Plan.initial [.leaf s p, .leaf t q] ∨
      ∃ i j, Plan.initial [.leaf s p, .leaf t q] = [i, j] ∧
        (Node.leaf u r).initial = [.pair i j] := by
  unfold Merge.stage? at h
  split at h
  case h_7 init step init' step' =>
    cases h
    exact Or.inr ⟨init, init', rfl, rfl⟩
  case h_9 => cases h
  all_goals
    cases h
    exact Or.inl rfl

/-- The states of a span are kept, or there are two of them and they are paired. -/
theorem Rule.initial_of_fuse {r : Rule} {span : Plan} {node : Node}
    (h : r.fuse span = .ok node) :
    node.initial = span.initial ∨
      ∃ i j, span.initial = [i, j] ∧ node.initial = [.pair i j] := by
  cases r with
  | merge m =>
      obtain ⟨s, p, t, q, u, rfl, hu, rfl⟩ := Merge.fuse_eq_ok_iff.1 h
      exact Merge.initial_of_stage? hu p q (p.join q)
  | segment =>
      obtain ⟨-, s, hs, rfl⟩ := Segment.fuse_eq_ok_iff.1 h
      have hfolds := Segment.folds_of_stage hs
      have hspan := (Segment.simulates_of_folds hfolds .pure).initial_eq
      rw [unnest_nil] at hspan
      refine Or.inl ?_
      rw [← hspan]
      cases hfolds <;> rfl

end PipelineFusion
