import PipelineFusion.Proofs.Boundary.Strictness
import PipelineFusion.Proofs.Optimizer.Trace
import PipelineFusion.Proofs.Rule.Wall

/-!
# What a later observer finds

Whatever a classifier finds in a plan, it finds in the optimized plan: the same strictest boundary
of each chain and the same boundary of each branch.  It need not be the classifier that the
optimizer went by.
-/

namespace PipelineFusion

/-- A branch as a classifier finds it: its boundary, and of both child chains the strictest boundary
of a node and the branches in them. -/
inductive Finding where
  | branch (mode : Mode) (boundary : Boundary) (left right : Boundary × List Finding)

mutual

/-- The node itself, if it is a branch. -/
def Node.branches (c : Classifier) : Node → List Finding
  | .leaf _ _ => []
  | .branch mode left right purity =>
    [.branch mode (c.classify (.branch mode left right purity))
      (.strictest (left.map c.classify), Plan.branches c left)
      (.strictest (right.map c.classify), Plan.branches c right)]

def Plan.branches (c : Classifier) : Plan → List Finding
  | [] => []
  | node :: rest => node.branches c ++ Plan.branches c rest

end

/-- The strictest boundary of a chain, with the branches in the chain. -/
def Plan.findings (c : Classifier) (p : Plan) : Boundary × List Finding :=
  (.strictest (p.map c.classify), p.branches c)

/-- The hit is the one that the optimizer takes, and the other classifier finds its replacement just
as strict as its span. -/
structure Optimizer.TakesEvenly (o : Optimizer) (c : Classifier) (window : Plan) (hit : Hit) :
    Prop where
  takes : o.Takes window hit
  classify_eq : c.classify hit.replacement =
    .strictest ((window.take hit.length).map c.classify)

namespace Plan

variable {c d : Classifier} {depth : Nat} {p q r : Plan} {a : Applied} {as : List Applied}

theorem branches_append (c : Classifier) (p q : Plan) :
    (p ++ q).branches c = p.branches c ++ q.branches c := by
  induction p with
  | nil => rfl
  | cons node p ih => rw [List.cons_append, branches, branches, ih, List.append_assoc]

theorem branches_eq_nil (h : ∀ node ∈ p, ¬ c.IsWall node) (d : Classifier) :
    p.branches d = [] := by
  induction p with
  | nil => rfl
  | cons node p ih =>
      rw [List.forall_mem_cons] at h
      obtain ⟨stage, purity, rfl, -⟩ := Classifier.not_isWall_iff.1 h.1
      rw [branches, ih h.2, Node.branches]
      rfl

theorem findings_append (c : Classifier) (p q : Plan) :
    (p ++ q).findings c =
      (max (p.findings c).1 (q.findings c).1, (p.findings c).2 ++ (q.findings c).2) := by
  simp only [findings]
  rw [List.map_append, Boundary.strictest_append, branches_append]

theorem findings_cons (c : Classifier) (node : Node) (p : Plan) :
    Plan.findings c (node :: p) =
      (max (findings c [node]).1 (p.findings c).1, (findings c [node]).2 ++ (p.findings c).2) :=
  findings_append c [node] p

/-- A branch is found by its purity and by what is found in its child chains. -/
theorem findings_branch (c : Classifier) (mode : Mode) (left right : Plan) (purity : Purity) :
    findings c [.branch mode left right purity] =
      (max (max (.ofPurity purity) (left.findings c).1) (right.findings c).1,
        [.branch mode (max (max (.ofPurity purity) (left.findings c).1) (right.findings c).1)
          (left.findings c) (right.findings c)]) := by
  rw [findings, List.map_singleton, Boundary.strictest_cons, Boundary.strictest_nil,
    Boundary.max_fullyFusable, branches, Node.branches, Classifier.classify_branch]
  rfl

/-- A fused node is found as its span was. -/
theorem findings_of_fuse {r : Rule} {window : Plan} {n : Nat} {node : Node}
    (hspan : r.matchSpan c window = some n) (h : r.fuse (window.take n) = .ok node)
    (d : Classifier) : findings d [node] = findings d (window.take n) := by
  obtain ⟨hwalls, hnode⟩ := Rule.not_isWall_of_fuse hspan h
  have hnodes : ∀ a ∈ [node], ¬ c.IsWall a := by simpa using hnode
  rw [findings, findings, branches_eq_nil hwalls, branches_eq_nil hnodes, List.map_singleton,
    Rule.classify_of_fuse h, Boundary.strictest_cons, Boundary.strictest_nil,
    Boundary.max_fullyFusable]

theorem Step.findings_eq (h : Step c.Admits depth p a q) (d : Classifier) :
    q.findings d = p.findings d := by
  induction h with
  | @here depth window hit h =>
      -- Neither the span nor its replacement holds a branch, and they are equally strict.
      have hwindow := findings_append d (window.take hit.length) (window.drop hit.length)
      rw [List.take_append_drop] at hwindow
      rw [findings_cons, findings_of_fuse h.found h.fused, hwindow]
  | @later depth p q a node _ ih => rw [findings_cons, findings_cons d node p, ih]
  | @left depth p q a mode right purity rest _ ih =>
      rw [findings_cons, findings_cons d (.branch mode p right purity), findings_branch,
        findings_branch, ih]
  | @right depth p q a mode left purity rest _ ih =>
      rw [findings_cons, findings_cons d (.branch mode left p purity), findings_branch,
        findings_branch, ih]

theorem Derives.findings_eq (h : Derives c.Admits depth p as q) (d : Classifier) :
    q.findings d = p.findings d := by
  induction h with
  | refl p => rfl
  | step hstep _ ih => exact ih.trans (hstep.findings_eq d)

end Plan

namespace Optimizer

variable {o : Optimizer}

theorem Takes.takesEvenly {window : Plan} {hit : Hit} (h : o.Takes window hit) (c : Classifier) :
    o.TakesEvenly c window hit :=
  ⟨h, Rule.classify_of_fuse h.admits.fused c⟩

theorem TakesEvenly.admits {c : Classifier} {window : Plan} {hit : Hit}
    (h : o.TakesEvenly c window hit) : o.classifier.Admits window hit :=
  h.takes.admits

/-- Every classifier finds in an optimized plan what it finds in the plan.  All along the run each
fused node is as strict as the span that it stands for, and each branch and each chain stays as
strict as it was. -/
theorem findings_optimize (o : Optimizer) (plan : Plan) (c : Classifier) :
    (∃ plans : Nat → Plan, plans 0 = plan ∧ plans (o.run plan).rulesApplied = o.optimize plan ∧
      ∀ i < (o.run plan).rulesApplied,
        (∃ a, Plan.Step (o.TakesEvenly c) 0 (plans i) a (plans (i + 1))) ∧
        (plans (i + 1)).findings c = (plans i).findings c) ∧
    (o.optimize plan).findings c = plan.findings c := by
  obtain ⟨as, hderives, happlied, -⟩ := o.run_derives plan
  obtain ⟨plans, hstart, hend, hsteps⟩ :=
    (hderives.mono fun _ _ htakes ↦ htakes.takesEvenly c).exists_sequence
  rw [happlied]
  refine ⟨⟨plans, hstart, hend, ?_⟩, (Takes.derives hderives).findings_eq c⟩
  intro i hi
  have hstep := hsteps i hi
  exact ⟨⟨as[i], hstep⟩, (hstep.mono fun _ _ heven ↦ heven.admits).findings_eq c⟩

end Optimizer
end PipelineFusion
