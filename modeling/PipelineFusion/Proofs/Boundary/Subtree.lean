import Mathlib.Order.Bounds.Defs
import PipelineFusion.Proofs.Boundary.Strictness

/-!
# Evidence in subtrees

The boundary of a node is the greatest that anything in its subtree speaks for: the purities declared
there and, under an inspector, the calls declared there.  Neither the order in which they are looked
at nor an early end of the search makes a difference.
-/

namespace PipelineFusion

/-! ## What speaks for a boundary -/

/-- A node itself, or a node in one of its child plans, at any depth. -/
inductive Node.Within : Node → Node → Prop
  | self (node : Node) : Within node node
  | child {part node : Node} {mode : Mode} {left right : Plan} {purity : Purity}
      (hnode : node ∈ left ++ right) (h : Within part node) :
      Within part (.branch mode left right purity)

namespace Classifier

/-- What a node itself declares: its purity and, if calls are inspected, each of its calls. -/
inductive Testifies (c : Classifier) (node : Node) : Boundary → Prop
  | purity : Testifies c node (.ofPurity node.purity)
  | call {i : Inspector} {call : String} (hi : c.inspector = some i) (hcall : call ∈ node.calls) :
      Testifies c node (i.boundary call)

variable {c d : Classifier} {part node : Node} {b : Boundary}

theorem own_eq_max (c : Classifier) (node : Node) :
    c.own node = max (.ofPurity node.purity) (c.judge node.calls) := by
  rw [own, judge]
  cases c.inspector with
  | none => exact (Boundary.max_fullyFusable _).symm
  | some i => rfl

theorem judge_of_inspector {i : Inspector} (hi : c.inspector = some i) (calls : List String) :
    c.judge calls = .strictest (calls.map i.boundary) := by
  rw [judge, hi]

theorem Testifies.le_own (h : c.Testifies node b) : b ≤ c.own node := by
  rw [own_eq_max]
  cases h with
  | purity => exact Boundary.le_max_left _ _
  | @call i call hi hcall =>
      have hle : i.boundary call ≤ c.judge node.calls := by
        rw [judge_of_inspector hi]
        exact Boundary.le_strictest (List.mem_map_of_mem hcall)
      exact Boundary.le_trans hle (Boundary.le_max_right _ _)

theorem testifies_own (c : Classifier) (node : Node) : c.Testifies node (c.own node) := by
  cases hi : c.inspector with
  | none =>
      have hown : c.own node = .ofPurity node.purity := by rw [own, hi]
      rw [hown]
      exact .purity
  | some i =>
      rw [own_eq_max, judge_of_inspector hi]
      rcases Boundary.max_strictest_eq_or_mem (.ofPurity node.purity) (node.calls.map i.boundary)
        with hpurity | hmem
      · rw [hpurity]
        exact .purity
      · obtain ⟨call, hcall, heq⟩ := List.mem_map.1 hmem
        rw [← heq]
        exact .call hi hcall

/-! ## Down the tree -/

theorem classify_branch_eq_max (c : Classifier) (mode : Mode) (left right : Plan)
    (purity : Purity) :
    c.classify (.branch mode left right purity) =
      max (c.own (.branch mode left right purity))
        (.strictest ((left ++ right).map c.classify)) := by
  rw [classify_branch, own_branch, List.map_append, Boundary.strictest_append,
    Boundary.max_assoc]

theorem own_le_classify (c : Classifier) (node : Node) : c.own node ≤ c.classify node := by
  cases node with
  | leaf stage purity => exact Boundary.le_refl _
  | branch mode left right purity =>
      rw [classify_branch_eq_max]
      exact Boundary.le_max_left _ _

theorem classify_le_of_within (h : part.Within node) : c.classify part ≤ c.classify node := by
  induction h with
  | self => exact Boundary.le_refl _
  | child hnode _ ih =>
      rw [classify_branch_eq_max]
      have hle := Boundary.le_strictest (List.mem_map_of_mem (f := c.classify) hnode)
      exact Boundary.le_trans ih (Boundary.le_trans hle (Boundary.le_max_right _ _))

theorem exists_within_testifies (c : Classifier) (node : Node) :
    ∃ part : Node, part.Within node ∧ c.Testifies part (c.classify node) := by
  have hall : ∀ p : Plan, ∀ node ∈ p,
      ∃ part : Node, part.Within node ∧ c.Testifies part (c.classify node) := by
    intro p
    induction p using Plan.induction with
    | nil => simp
    | leaf stage purity rest ih =>
        exact List.forall_mem_cons.2 ⟨⟨_, .self _, c.testifies_own _⟩, ih⟩
    | branch mode left right purity rest ihl ihr ih =>
        refine List.forall_mem_cons.2 ⟨?_, ih⟩
        rw [classify_branch_eq_max]
        rcases Boundary.max_strictest_eq_or_mem (c.own (.branch mode left right purity))
          ((left ++ right).map c.classify) with hown | hmem
        · rw [hown]
          exact ⟨_, .self _, c.testifies_own _⟩
        · obtain ⟨child, hchild, heq⟩ := List.mem_map.1 hmem
          have hchildren := List.forall_mem_append.2 ⟨ihl, ihr⟩
          obtain ⟨part, hwithin, htestifies⟩ := hchildren child hchild
          rw [← heq]
          exact ⟨part, .child hchild hwithin, htestifies⟩
  exact hall [node] node List.mem_cons_self

end Classifier

/-! ## Order does not matter -/

/-- Two chains that declare the same up to the order of the nodes, of the children of branches, and
of the calls of leaves. -/
inductive Plan.Shuffles : Plan → Plan → Prop
  | nil : Shuffles [] []
  | leaf {s t : Stage} {p q : Plan} (hcalls : s.declaration.calls.Perm t.declaration.calls)
      (purity : Purity) (hrest : Shuffles p q) :
      Shuffles (.leaf s purity :: p) (.leaf t purity :: q)
  | branch {left right left' right' p q : Plan} (mode mode' : Mode) (purity : Purity)
      (hchildren : Shuffles (left ++ right) (left' ++ right')) (hrest : Shuffles p q) :
      Shuffles (.branch mode left right purity :: p) (.branch mode' left' right' purity :: q)
  | swap (a b : Node) (p : Plan) : Shuffles (a :: b :: p) (b :: a :: p)
  | trans {p q r : Plan} (h : Shuffles p q) (h' : Shuffles q r) : Shuffles p r

namespace Classifier

variable {c d : Classifier}

theorem judge_eq_of_perm (c : Classifier) {calls calls' : List String} (h : calls.Perm calls') :
    c.judge calls = c.judge calls' := by
  unfold judge
  cases c.inspector with
  | none => rfl
  | some i => exact Boundary.strictest_eq_of_perm (h.map i.boundary)

theorem strictest_map_eq_of_shuffles (c : Classifier) {p q : Plan} (h : p.Shuffles q) :
    Boundary.strictest (p.map c.classify) = .strictest (q.map c.classify) := by
  induction h with
  | nil => rfl
  | leaf hcalls purity _ ih =>
      rw [List.map_cons, List.map_cons, Boundary.strictest_cons, Boundary.strictest_cons, ih,
        classify_leaf, classify_leaf, c.judge_eq_of_perm hcalls]
  | branch mode mode' purity _ _ ihchildren ih =>
      rw [List.map_cons, List.map_cons, Boundary.strictest_cons, Boundary.strictest_cons, ih,
        classify_branch_eq_max, classify_branch_eq_max, ihchildren, own_branch, own_branch]
  | swap a b p => exact Boundary.strictest_eq_of_perm (.swap _ _ _)
  | trans _ _ ih ih' => exact ih.trans ih'

theorem classify_eq_of_shuffles (c : Classifier) {node node' : Node}
    (h : Plan.Shuffles [node] [node']) : c.classify node = c.classify node' := by
  simpa using c.strictest_map_eq_of_shuffles h

theorem classify_eq_of_patterns (h : Option.Rel (fun i j : Inspector ↦ i.patterns.Perm j.patterns)
    c.inspector d.inspector) (node : Node) : c.classify node = d.classify node := by
  rcases c with ⟨_ | i⟩ <;> rcases d with ⟨_ | j⟩
  · rfl
  · cases h
  · cases h
  · cases h with
    | some hperm =>
        exact Boundary.le_antisymm (inspect_le hperm.subset node)
          (inspect_le hperm.symm.subset node)

end Classifier

theorem Inspector.boundary_eq_max (i : Inspector) (call : String) :
    i.boundary call =
      max (Call.builtin call)
        (if i.patterns.any (·.isMatch call) then .opaqueEffect else .fullyFusable) := by
  rw [boundary]
  by_cases hknown : Call.builtin call = .opaqueEffect
  · rw [if_pos hknown, hknown, Boundary.opaqueEffect_max]
  · rw [if_neg hknown]
    split
    · rw [Boundary.max_comm, Boundary.opaqueEffect_max]
    · rw [Boundary.max_fullyFusable]

namespace Classifier

/-- The boundary of a node is the greatest that a purity or a call in its subtree testifies to, where
a call is at least as strict as the built-in lists have it, and an external effect if a pattern is
found in it.  The order of calls, children and patterns plays no part. -/
theorem classify_isGreatest (c : Classifier) (node : Node) :
    IsGreatest {b | ∃ part : Node, part.Within node ∧ c.Testifies part b} (c.classify node) ∧
    (∀ (i : Inspector) (call : String), i.boundary call =
      max (Call.builtin call)
        (if i.patterns.any (·.isMatch call) then .opaqueEffect else .fullyFusable)) ∧
    ∀ (d : Classifier) (node' : Node),
      Option.Rel (fun i j : Inspector ↦ i.patterns.Perm j.patterns) c.inspector d.inspector →
      Plan.Shuffles [node] [node'] → d.classify node' = c.classify node := by
  refine ⟨⟨c.exists_within_testifies node, ?_⟩, Inspector.boundary_eq_max, ?_⟩
  · rintro b ⟨part, hwithin, htestifies⟩
    have hpart := Boundary.le_trans htestifies.le_own (c.own_le_classify part)
    exact Boundary.le_trans hpart (classify_le_of_within hwithin)
  · intro d node' hpatterns hshuffles
    rw [c.classify_eq_of_shuffles hshuffles, classify_eq_of_patterns hpatterns]

/-- A map that declares the given calls. -/
def calling (calls : List String) : Stage :=
  .map ⟨.written 0, { label := "calling", calls }, id⟩

/-- An effect that only one of the patterns finds. -/
theorem classify_calling_shuffled :
    classify ⟨some ⟨[.one .digit, .one (.single '$')]⟩⟩
        (.branch .compose [.leaf (calling ["emit$"]) .pure]
          [.leaf (calling ["memo::get", "abs"]) .pure] .pure) = .opaqueEffect := by
  have hcalls : (calling ["abs", "memo::get"]).declaration.calls.Perm
      (calling ["memo::get", "abs"]).declaration.calls := .swap _ _ []
  have hshuffles : Plan.Shuffles
      [.branch .parallel
        [.leaf (calling ["abs", "memo::get"]) .pure, .leaf (calling ["emit$"]) .pure] [] .pure]
      [.branch .compose [.leaf (calling ["emit$"]) .pure]
        [.leaf (calling ["memo::get", "abs"]) .pure] .pure] :=
    .branch .parallel .compose .pure
      (.trans (.swap _ _ []) (.leaf (.refl _) .pure (.leaf hcalls .pure .nil))) .nil
  rw [(classify_isGreatest ⟨some ⟨[.one (.single '$'), .one .digit]⟩⟩ _).2.2 _ _
    (.some (.swap _ _ [])) hshuffles]
  decide +kernel

end Classifier
end PipelineFusion
