import PipelineFusion.Plan.Runner
import PipelineFusion.Proofs.Value.Equality

/-!
# Equality of plans

Plans are compared node by node.  The comparison is symmetric and transitive; all that can keep a
plan from being equal to itself is the initial state of one of its scans.
-/

namespace PipelineFusion

theorem Operator.same_iff {F : Type} {f g : Operator F} :
    f.same g = true ↔ f.origin = g.origin ∧ f.declaration = g.declaration := by
  simp [same]

/-! ## Stages -/

namespace Stage

def origin : Stage → Origin
  | .map f => f.origin
  | .filter p => p.origin
  | .filterMap f => f.origin
  | .scan _ step => step.origin
  | .flatMap f => f.origin

/-- The state of a scan before the first value; other stages have none. -/
def initial : Stage → List Value
  | .scan init _ => [init]
  | _ => []

variable {s t u : Stage}

theorem same_iff :
    s.same t = true ↔ s.kind = t.kind ∧ s.origin = t.origin ∧ s.declaration = t.declaration ∧
      Value.sameAll s.initial t.initial = true := by
  have hbeq (v w : Value) : (v == w) = v.same w := rfl
  cases s <;> cases t <;>
    simp [same, kind, origin, declaration, initial, Operator.same_iff, Value.sameAll, hbeq]
  -- Two scans are left, where the initial states come first.
  rw [and_comm, and_assoc]

theorem same_symm (h : s.same t = true) : t.same s = true := by
  obtain ⟨hkind, horigin, hdeclaration, hinitial⟩ := same_iff.1 h
  exact same_iff.2 ⟨hkind.symm, horigin.symm, hdeclaration.symm, Value.sameAll_symm hinitial⟩

theorem same_trans (hst : s.same t = true) (htu : t.same u = true) : s.same u = true := by
  obtain ⟨hkind, horigin, hdeclaration, hinitial⟩ := same_iff.1 hst
  obtain ⟨hkind', horigin', hdeclaration', hinitial'⟩ := same_iff.1 htu
  exact same_iff.2 ⟨hkind.trans hkind', horigin.trans horigin', hdeclaration.trans hdeclaration',
    Value.sameAll_trans hinitial hinitial'⟩

end Stage

theorem Node.initial_leaf (stage : Stage) (purity : Purity) :
    (Node.leaf stage purity).initial = stage.initial := by
  cases stage <;> rfl

/-! ## Chains -/

namespace Plan

variable {p q r left right : Plan} {stage : Stage} {mode : Mode} {purity : Purity}

theorem same_nil_iff : same [] q = true ↔ q = [] := by
  cases q <;> simp [same]

theorem same_leaf_cons_iff :
    same (.leaf stage purity :: p) q = true ↔
      ∃ stage' rest, q = .leaf stage' purity :: rest ∧ stage.same stage' = true ∧
        p.same rest = true := by
  constructor
  · intro h
    cases q with
    | nil => cases h
    | cons node rest =>
        cases node with
        | leaf stage' purity' =>
            simp only [same, Node.same, Bool.and_eq_true, decide_eq_true_eq] at h
            obtain ⟨⟨hstage, rfl⟩, hrest⟩ := h
            exact ⟨stage', rest, rfl, hstage, hrest⟩
        | branch mode left right purity' => cases h
  · rintro ⟨stage', rest, rfl, hstage, hrest⟩
    simp [same, Node.same, hstage, hrest]

theorem same_branch_cons_iff :
    same (.branch mode left right purity :: p) q = true ↔
      ∃ left' right' rest, q = .branch mode left' right' purity :: rest ∧
        left.same left' = true ∧ right.same right' = true ∧ p.same rest = true := by
  constructor
  · intro h
    cases q with
    | nil => cases h
    | cons node rest =>
        cases node with
        | leaf stage purity' => cases h
        | branch mode' left' right' purity' =>
            simp only [same, Node.same, Bool.and_eq_true, decide_eq_true_eq] at h
            obtain ⟨⟨⟨⟨rfl, hleft⟩, hright⟩, rfl⟩, hrest⟩ := h
            exact ⟨left', right', rest, rfl, hleft, hright, hrest⟩
  · rintro ⟨left', right', rest, rfl, hleft, hright, hrest⟩
    simp [same, Node.same, hleft, hright, hrest]

theorem beq_eq_same (p q : Plan) : (p == q) = p.same q := by
  induction p generalizing q with
  | nil => cases q <;> rfl
  | cons a p ih =>
      cases q with
      | nil => rfl
      | cons b q => rw [List.cons_beq_cons, ih, Plan.same]; rfl

theorem total_eq_of_same (h : p.same q = true) : p.total = q.total := by
  induction p using Plan.induction generalizing q with
  | nil => rw [same_nil_iff.1 h]
  | leaf stage purity rest ih =>
      obtain ⟨stage', rest', rfl, -, hrest⟩ := same_leaf_cons_iff.1 h
      rw [total_cons, total_cons, ih hrest]
      rfl
  | branch mode left right purity rest ihl ihr ih =>
      obtain ⟨left', right', rest', rfl, hleft, hright, hrest⟩ := same_branch_cons_iff.1 h
      rw [total_cons, total_cons, ih hrest, Node.total, Node.total, ihl hleft, ihr hright]

theorem total_eq_of_beq (h : (p == q) = true) : p.total = q.total :=
  total_eq_of_same (beq_eq_same p q ▸ h)

theorem same_symm (h : p.same q = true) : q.same p = true := by
  induction p using Plan.induction generalizing q with
  | nil => rw [same_nil_iff.1 h, same]
  | leaf stage purity rest ih =>
      obtain ⟨stage', rest', rfl, hstage, hrest⟩ := same_leaf_cons_iff.1 h
      exact same_leaf_cons_iff.2 ⟨stage, rest, rfl, Stage.same_symm hstage, ih hrest⟩
  | branch mode left right purity rest ihl ihr ih =>
      obtain ⟨left', right', rest', rfl, hleft, hright, hrest⟩ := same_branch_cons_iff.1 h
      exact same_branch_cons_iff.2 ⟨left, right, rest, rfl, ihl hleft, ihr hright, ih hrest⟩

theorem same_trans (hpq : p.same q = true) (hqr : q.same r = true) : p.same r = true := by
  induction p using Plan.induction generalizing q r with
  | nil =>
      obtain rfl := same_nil_iff.1 hpq
      exact hqr
  | leaf stage purity rest ih =>
      obtain ⟨stage', rest', rfl, hstage, hrest⟩ := same_leaf_cons_iff.1 hpq
      obtain ⟨stage'', rest'', rfl, hstage', hrest'⟩ := same_leaf_cons_iff.1 hqr
      exact same_leaf_cons_iff.2
        ⟨stage'', rest'', rfl, Stage.same_trans hstage hstage', ih hrest hrest'⟩
  | branch mode left right purity rest ihl ihr ih =>
      obtain ⟨left', right', rest', rfl, hleft, hright, hrest⟩ := same_branch_cons_iff.1 hpq
      obtain ⟨left'', right'', rest'', rfl, hleft', hright', hrest'⟩ :=
        same_branch_cons_iff.1 hqr
      exact same_branch_cons_iff.2
        ⟨left'', right'', rest'', rfl, ihl hleft hleft', ihr hright hright', ih hrest hrest'⟩

theorem same_self (p : Plan) : p.same p = p.initial.all fun v ↦ v == v := by
  induction p using Plan.induction with
  | nil => rfl
  | leaf stage purity rest ih =>
      have hstage : stage.same stage = (Node.leaf stage purity).initial.all fun v ↦ v == v := by
        cases stage <;> simp [Stage.same, Operator.same, Node.initial]
      simp [Plan.same, Node.same, initial, ih, hstage]
  | branch mode left right purity rest ihl ihr ih =>
      simp [Plan.same, Node.same, initial, Node.initial, ihl, ihr, ih, Bool.and_assoc]

/-- A plan equals its copy when each of its initial states does. -/
theorem beq_self_iff {p : Plan} : (p == p) = true ↔ ∀ v ∈ p.initial, (v == v) = true := by
  rw [beq_eq_same, same_self, List.all_eq_true]

theorem beq_self_iff_forall_isNaN {p : Plan} :
    (p == p) = true ↔ ∀ v ∈ p.initial, ∀ x ∈ v.floats, Binary64.isNaN x = false := by
  rw [beq_self_iff]
  exact forall₂_congr fun v _ ↦ v.same_self_iff

end Plan
end PipelineFusion
