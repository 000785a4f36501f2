import PipelineFusion.Proofs.Rule.Span

/-!
# Boundaries of fused nodes

A rule joins the purities of a span and keeps all of its calls.  Every classifier therefore finds
the new node just as strict as the strictest node of the span.
-/

namespace PipelineFusion

/-! ## The strictest of several boundaries -/

namespace Boundary

theorem max_assoc (a b c : Boundary) : max (max a b) c = max a (max b c) := by
  apply rank_injective
  simp [Nat.max_assoc]

theorem max_max_max_comm (a b c d : Boundary) :
    max (max a b) (max c d) = max (max a c) (max b d) := by
  apply rank_injective
  simp only [rank_max]
  omega

@[simp] theorem fullyFusable_max (b : Boundary) : max .fullyFusable b = b := by
  cases b <;> rfl

@[simp] theorem max_fullyFusable (b : Boundary) : max b .fullyFusable = b := by
  cases b <;> rfl

@[simp] theorem max_eq_fullyFusable_iff {a b : Boundary} :
    max a b = .fullyFusable ↔ a = .fullyFusable ∧ b = .fullyFusable := by
  cases a <;> cases b <;> decide

theorem lt_opaqueEffect_iff {b : Boundary} : b < .opaqueEffect ↔ b ≠ .opaqueEffect := by
  cases b <;> decide

theorem ofPurity_join (p q : Purity) : ofPurity (p.join q) = max (ofPurity p) (ofPurity q) := by
  cases p <;> cases q <;> rfl

def strictest (bs : List Boundary) : Boundary := bs.foldl max .fullyFusable

@[simp] theorem strictest_nil : strictest [] = .fullyFusable := rfl

theorem foldl_max (a : Boundary) (bs : List Boundary) : bs.foldl max a = max a (strictest bs) := by
  induction bs generalizing a with
  | nil => simp
  | cons b bs ih =>
      have hcons : strictest (b :: bs) = max b (strictest bs) := by
        rw [strictest, List.foldl_cons, fullyFusable_max, ih]
      rw [List.foldl_cons, ih, hcons, max_assoc]

@[simp] theorem strictest_cons (b : Boundary) (bs : List Boundary) :
    strictest (b :: bs) = max b (strictest bs) := by
  rw [strictest, List.foldl_cons, fullyFusable_max, foldl_max]

@[simp] theorem strictest_append (as bs : List Boundary) :
    strictest (as ++ bs) = max (strictest as) (strictest bs) := by
  rw [strictest, List.foldl_append, foldl_max]
  rfl

theorem strictest_eq_fullyFusable_iff {bs : List Boundary} :
    strictest bs = .fullyFusable ↔ ∀ b ∈ bs, b = .fullyFusable := by
  induction bs with
  | nil => simp
  | cons b bs ih => simp [ih]

theorem ofPurity_foldl_join (p : Purity) (ps : List Purity) :
    ofPurity (ps.foldl .join p) = max (ofPurity p) (strictest (ps.map ofPurity)) := by
  induction ps generalizing p with
  | nil => simp
  | cons q ps ih =>
      rw [List.foldl_cons, ih, ofPurity_join, List.map_cons, strictest_cons, max_assoc]

end Boundary

/-! ## Evidence on a leaf -/

namespace Classifier

/-- How strict the calls of a node make it. -/
def judge (c : Classifier) (calls : List String) : Boundary :=
  match c.inspector with
  | some i => Boundary.strictest (calls.map i.boundary)
  | none => .fullyFusable

theorem judge_append (c : Classifier) (xs ys : List String) :
    c.judge (xs ++ ys) = max (c.judge xs) (c.judge ys) := by
  unfold judge
  cases c.inspector <;> simp

theorem classify_leaf (c : Classifier) (stage : Stage) (purity : Purity) :
    c.classify (.leaf stage purity) =
      max (.ofPurity purity) (c.judge stage.declaration.calls) := by
  rw [classify, own, judge]
  cases c.inspector with
  | none => exact (Boundary.max_fullyFusable _).symm
  | some i => rfl

end Classifier

/-! ## What a rule keeps -/

/-- The declaration of a leaf; a branch declares nothing of its own. -/
def Node.declaration : Node → Declaration
  | .leaf stage _ => stage.declaration
  | .branch _ _ _ _ => { label := "" }

theorem Node.calls_eq (node : Node) : node.calls = node.declaration.calls := by
  cases node <;> rfl

/-- What stands between the labels of merged stages. -/
def Merge.separator : Merge → String
  | .mapMap | .filterMapChain | .scanMap | .flatMapMap => " >> "
  | .filterFilter => " && "
  | .mapFilter | .filterMap => " ?> "
  | .scanScan => " ; "

theorem Merge.declaration_of_stage? {m : Merge} {s t u : Stage} (h : m.stage? s t = some u) :
    u.declaration = s.declaration.fuse m.separator t.declaration := by
  unfold stage? at h
  split at h
  case h_9 => cases h
  all_goals
    cases h
    rfl

theorem Merge.calls_of_stage? {m : Merge} {s t u : Stage} (h : m.stage? s t = some u) :
    u.declaration.calls = s.declaration.calls ++ t.declaration.calls :=
  congrArg Declaration.calls (declaration_of_stage? h)

theorem Merge.classify_of_stage? {m : Merge} {s t u : Stage} (h : m.stage? s t = some u)
    (c : Classifier) (p q : Purity) :
    c.classify (.leaf u (p.join q)) = max (c.classify (.leaf s p)) (c.classify (.leaf t q)) := by
  rw [c.classify_leaf, c.classify_leaf, c.classify_leaf, calls_of_stage? h, c.judge_append,
    Boundary.ofPurity_join, Boundary.max_max_max_comm]

namespace Segment

/-- The node is a leaf with the declaration of the operator. -/
def Carries {F : Type} (node : Node) (f : Operator F) : Prop :=
  ∃ stage purity, node = .leaf stage purity ∧ stage.declaration = f.declaration

theorem carries_of_map? {node : Node} {f : Operator (Value → Value)} (h : map? node = some f) :
    Carries node f := by
  unfold map? at h
  split at h
  · cases h
    exact ⟨_, _, rfl, rfl⟩
  · cases h

theorem carries_of_filter? {node : Node} {p : Operator (Value → Bool)}
    (h : filter? node = some p) : Carries node p := by
  unfold filter? at h
  split at h
  · cases h
    exact ⟨_, _, rfl, rfl⟩
  · cases h

theorem carries_of_partialMap? {node : Node} {f : Operator (Value → Option Value)}
    (h : partialMap? node = some f) : Carries node f := by
  unfold partialMap? at h
  split at h
  case h_4 => cases h
  all_goals
    cases h
    exact ⟨_, _, rfl, rfl⟩

/-- What stands between the labels of a segment that is folded to a stage of the given kind. -/
def separator : Kind → String
  | .filter => " && "
  | _ => " >> "

theorem declaration_of_carries {F : Type} {span : Plan} {fs : List (Operator F)}
    (h : List.Forall₂ Carries span fs) :
    fs.map Operator.declaration = span.map Node.declaration := by
  symm
  apply map_eq_map_of_forall₂ _ h
  rintro _ f ⟨stage, purity, rfl, hdeclared⟩
  exact hdeclared

theorem declaration_of_folds {span : Plan} {s : Stage} (h : Folds span s) :
    s.declaration = .fuseAll (separator s.kind) (span.map Node.declaration) := by
  cases h with
  | maps fs h =>
      rw [← declaration_of_carries (h.imp fun _ _ ↦ carries_of_map?)]
      rfl
  | filters ps h =>
      rw [← declaration_of_carries (h.imp fun _ _ ↦ carries_of_filter?)]
      rfl
  | mixed fs h =>
      rw [← declaration_of_carries (h.imp fun _ _ ↦ carries_of_partialMap?)]
      rfl

theorem strictest_of_carries {F : Type} (c : Classifier) {span : Plan} {fs : List (Operator F)}
    (h : List.Forall₂ Carries span fs) :
    max (.strictest (span.map fun node ↦ .ofPurity node.purity))
      (c.judge ((fs.map Operator.declaration).flatMap Declaration.calls)) =
      .strictest (span.map c.classify) := by
  induction h with
  | nil => cases hc : c.inspector <;> simp [Classifier.judge, hc]
  | @cons node f span fs hnode _ ih =>
      obtain ⟨stage, purity, rfl, hdeclared⟩ := hnode
      rw [List.map_cons, List.map_cons, List.map_cons, List.flatMap_cons, c.judge_append,
        Boundary.strictest_cons, Boundary.strictest_cons, Boundary.max_max_max_comm, ih,
        c.classify_leaf, ← hdeclared]
      rfl

theorem classify_of_folds {span : Plan} {s : Stage} (h : Folds span s) (c : Classifier) :
    c.classify (.leaf s ((span.map Node.purity).foldl .join .pure)) =
      .strictest (span.map c.classify) := by
  rw [c.classify_leaf, Boundary.ofPurity_foldl_join, Boundary.ofPurity, Boundary.fullyFusable_max,
    List.map_map]
  cases h with
  | maps fs h => exact strictest_of_carries c (h.imp fun _ _ ↦ carries_of_map?)
  | filters ps h => exact strictest_of_carries c (h.imp fun _ _ ↦ carries_of_filter?)
  | mixed fs h => exact strictest_of_carries c (h.imp fun _ _ ↦ carries_of_partialMap?)

end Segment

/-- A fused node is as strict as the strictest node of its span, for every classifier. -/
theorem Rule.classify_of_fuse {r : Rule} {span : Plan} {node : Node} (h : r.fuse span = .ok node)
    (c : Classifier) : c.classify node = .strictest (span.map c.classify) := by
  cases r with
  | merge m =>
      obtain ⟨s, p, t, q, u, rfl, hu, rfl⟩ := Merge.fuse_eq_ok_iff.1 h
      simpa using Merge.classify_of_stage? hu c p q
  | segment =>
      obtain ⟨-, s, hs, rfl⟩ := Segment.fuse_eq_ok_iff.1 h
      exact Segment.classify_of_folds (Segment.folds_of_stage hs) c

end PipelineFusion
