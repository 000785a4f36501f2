import PipelineFusion.Optimizer.Basic
import PipelineFusion.Proofs.Plan.Equality
import PipelineFusion.Proofs.Plan.Responses

/-!
# Substitution of equal plans

As long as no float is among the initial states, equal plans whose operators hold one function for
each origin can stand for one another: they run alike, read alike, and are optimized alike.
-/

namespace PipelineFusion

/-! ## One function for each origin -/

/-- If the two are of one origin, they hold one function. -/
def Operator.Agrees {F : Type} (f g : Operator F) : Prop := f.origin = g.origin → f.run = g.run

theorem Operator.eq_of_agrees {F : Type} {f g : Operator F} (horigin : f.origin = g.origin)
    (hdeclaration : f.declaration = g.declaration) (h : f.Agrees g) : f = g := by
  have hrun := h horigin
  cases f
  cases g
  cases horigin
  cases hdeclaration
  cases hrun
  rfl

/-- Stages of one kind hold one function for each origin. -/
def Stage.Agrees : Stage → Stage → Prop
  | .map f, .map g => f.Agrees g
  | .filter p, .filter q => p.Agrees q
  | .filterMap f, .filterMap g => f.Agrees g
  | .scan _ step, .scan _ step' => step.Agrees step'
  | .flatMap f, .flatMap g => f.Agrees g
  | _, _ => True

theorem Stage.eq_of_same {s t : Stage} (h : s.same t = true) (hagrees : s.Agrees t)
    (hfloats : ∀ v ∈ s.initial, v.floats = []) : s = t := by
  obtain ⟨hkind, horigin, hdeclaration, hinitial⟩ := same_iff.1 h
  cases s with
  | map f =>
      cases t with
      | map g => rw [Operator.eq_of_agrees horigin hdeclaration hagrees]
      | _ => cases hkind
  | filter p =>
      cases t with
      | filter q => rw [Operator.eq_of_agrees horigin hdeclaration hagrees]
      | _ => cases hkind
  | filterMap f =>
      cases t with
      | filterMap g => rw [Operator.eq_of_agrees horigin hdeclaration hagrees]
      | _ => cases hkind
  | scan init step =>
      cases t with
      | scan init' step' =>
          have hnone : Value.floatsAll [init] = [] := by
            simp [Value.floatsAll, hfloats init List.mem_cons_self]
          cases Value.eq_of_sameAll hinitial hnone
          rw [Operator.eq_of_agrees horigin hdeclaration hagrees]
      | _ => cases hkind
  | flatMap f =>
      cases t with
      | flatMap g => rw [Operator.eq_of_agrees horigin hdeclaration hagrees]
      | _ => cases hkind

mutual

def Node.stages : Node → List Stage
  | .leaf stage _ => [stage]
  | .branch _ left right _ => Plan.stages left ++ Plan.stages right

/-- The stages of all leaves, depth first. -/
def Plan.stages : Plan → List Stage
  | [] => []
  | node :: rest => node.stages ++ Plan.stages rest

end

namespace Plan

/-- Stages of the two plans hold one function for each origin. -/
def Coherent (p q : Plan) : Prop := ∀ s ∈ p.stages, ∀ t ∈ q.stages, s.Agrees t

variable {p q p' q' : Plan}

theorem Coherent.mono (h : p.Coherent q) (hp : p'.stages ⊆ p.stages) (hq : q'.stages ⊆ q.stages) :
    p'.Coherent q' :=
  fun s hs t ht ↦ h s (hp hs) t (hq ht)

/-! ## Equal plans -/

theorem eq_of_same (h : p.same q = true) (hfloats : ∀ v ∈ p.initial, v.floats = [])
    (hcoherent : p.Coherent q) : p = q := by
  induction p using Plan.induction generalizing q with
  | nil => exact (same_nil_iff.1 h).symm
  | leaf stage purity rest ih =>
      obtain ⟨stage', rest', rfl, hstage, hrest⟩ := same_leaf_cons_iff.1 h
      rw [initial, Node.initial_leaf, List.forall_mem_append] at hfloats
      have hagrees : stage.Agrees stage' := hcoherent stage (by simp [stages, Node.stages])
        stage' (by simp [stages, Node.stages])
      have hcoherent' : rest.Coherent rest' := hcoherent.mono (by simp [stages]) (by simp [stages])
      rw [Stage.eq_of_same hstage hagrees hfloats.1, ih hrest hfloats.2 hcoherent']
  | branch mode left right purity rest ihl ihr ih =>
      obtain ⟨left', right', rest', rfl, hleft, hright, hrest⟩ := same_branch_cons_iff.1 h
      rw [initial, Node.initial, List.forall_mem_append, List.forall_mem_append] at hfloats
      have hsub (left right rest : Plan) :
          left.stages ⊆ stages (.branch mode left right purity :: rest) ∧
          right.stages ⊆ stages (.branch mode left right purity :: rest) ∧
          rest.stages ⊆ stages (.branch mode left right purity :: rest) := by
        simp [stages, Node.stages]
      obtain ⟨hl, hr, hp⟩ := hsub left right rest
      obtain ⟨hl', hr', hq⟩ := hsub left' right' rest'
      rw [ihl hleft hfloats.1.1 (hcoherent.mono hl hl'),
        ihr hright hfloats.1.2 (hcoherent.mono hr hr'), ih hrest hfloats.2 (hcoherent.mono hp hq)]

/-- Equality is symmetric and transitive on all plans, and it holds of a plan and its copy unless
an initial state holds a NaN.  Where no initial state holds a float, nothing tells equal plans
apart. -/
theorem beq_laws :
    (∀ p q : Plan, (p == q) = (q == p)) ∧
    (∀ p q r : Plan, (p == q) = true → (q == r) = true → (p == r) = true) ∧
    (∀ p : Plan, (p == p) = true ↔ ∀ v ∈ p.initial, ∀ x ∈ v.floats, Binary64.isNaN x = false) ∧
    ∀ p q : Plan, (p == q) = true → (∀ v ∈ p.initial, v.floats = []) → p.Coherent q →
      (∀ inputs : List Value,
        (Runner.start p).responses inputs = (Runner.start q).responses inputs ∧
        ((Runner.start p).pushAll inputs).1.states = ((Runner.start q).pushAll inputs).1.states) ∧
      p.explain = q.explain ∧
      (∀ c : Classifier, p.map c.classify = q.map c.classify) ∧
      ∀ o : Optimizer, o.canOptimize p = o.canOptimize q := by
  simp only [beq_eq_same]
  refine ⟨?_, ?_, ?_, ?_⟩
  · intro p q
    exact Bool.eq_iff_iff.2 ⟨same_symm, same_symm⟩
  · intro p q r
    exact same_trans
  · intro p
    rw [← beq_eq_same]
    exact beq_self_iff_forall_isNaN
  · intro p q h hfloats hcoherent
    obtain rfl := eq_of_same h hfloats hcoherent
    exact ⟨fun inputs ↦ ⟨rfl, rfl⟩, rfl, fun c ↦ rfl, fun o ↦ rfl⟩

/-- A scan that gives each value after the one before it, and one that gives back what comes in. -/
def delays (init : Value) (delay keep : Value → Value → Value × Value) : Plan :=
  [.branch .compose
    [.leaf (.scan init ⟨.written 0, { label := "delay" }, delay⟩) .stateful]
    [.leaf (.scan (.str "") ⟨.written 1, { label := "keep" }, keep⟩) .io] .pure]

/-- The same functions and states, put in other words. -/
theorem beq_laws_delays :
    (delays (.list [.null, .int 3]) (fun s x ↦ (x, s)) (fun s x ↦ (s, x)) ==
        delays (.pair .null (.int 3)) (flip Prod.mk) Prod.mk) = true ∧
      ∀ o : Optimizer,
        o.canOptimize (delays (.list [.null, .int 3]) (fun s x ↦ (x, s)) (fun s x ↦ (s, x))) =
          o.canOptimize (delays (.pair .null (.int 3)) (flip Prod.mk) Prod.mk) := by
  have hbeq : (delays (.list [.null, .int 3]) (fun s x ↦ (x, s)) (fun s x ↦ (s, x)) ==
      delays (.pair .null (.int 3)) (flip Prod.mk) Prod.mk) = true := by decide
  have hfloats : ∀ v ∈ initial (delays (.list [.null, .int 3]) (fun s x ↦ (x, s))
      (fun s x ↦ (s, x))), v.floats = [] := by
    simp [delays, initial, Node.initial, Value.floats, Value.floatsAll]
  have hcoherent : (delays (.list [.null, .int 3]) (fun s x ↦ (x, s))
      (fun s x ↦ (s, x))).Coherent (delays (.pair .null (.int 3)) (flip Prod.mk) Prod.mk) := by
    intro s hs t ht
    simp only [delays, stages, Node.stages, List.append_nil, List.cons_append, List.nil_append,
      List.mem_cons, List.not_mem_nil, or_false] at hs ht
    rcases hs with rfl | rfl <;> rcases ht with rfl | rfl
    · exact fun _ ↦ rfl
    · exact fun horigin ↦ absurd horigin (by decide)
    · exact fun horigin ↦ absurd horigin (by decide)
    · exact fun _ ↦ rfl
  exact ⟨hbeq, (beq_laws.2.2.2 _ _ hbeq hfloats hcoherent).2.2.2⟩

/-- Zeros of either sign are equal, but do not read alike. -/
example :
    let counter (init : Float) : Plan :=
      [.leaf (.scan (.float init) ⟨.written 0, { label := "keep" }, fun s x ↦ (s, x)⟩) .stateful]
    (counter 0.0 == counter (-0.0)) = true ∧
      (counter 0.0).explain ≠ (counter (-0.0)).explain := by
  decide +kernel

end Plan
end PipelineFusion
