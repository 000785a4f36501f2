import PipelineFusion.Proofs.Optimizer.Derivation
import PipelineFusion.Proofs.Rule.Group

/-!
# Regroupings

An optimized chain cuts the chain it was made from into groups, one after another, with one node for
each.  Branches stay where they are, and their child chains are cut in the same way.  A step
regroups a plan, and regrouping twice is regrouping once.
-/

namespace PipelineFusion

namespace Plan

/-- The second plan has one node for each of the groups into which the first plan can be cut. -/
inductive Regroups (c : Classifier) : Plan → Plan → Prop
  | nil : Regroups c [] []
  | group {group rest rest' : Plan} {node : Node} (h : c.Groups group node)
      (hrest : Regroups c rest rest') : Regroups c (group ++ rest) (node :: rest')
  | branch {left left' right right' rest rest' : Plan} (mode : Mode) (purity : Purity)
      (hleft : Regroups c left left') (hright : Regroups c right right')
      (hrest : Regroups c rest rest') :
      Regroups c (.branch mode left right purity :: rest)
        (.branch mode left' right' purity :: rest')

namespace Regroups

variable {c : Classifier} {p q r : Plan}

theorem refl (p : Plan) : Regroups c p p := by
  induction p using Plan.induction with
  | nil => exact .nil
  | leaf stage purity rest ih => exact .group (.singleton stage purity) ih
  | branch mode left right purity rest ihl ihr ih => exact .branch mode purity ihl ihr ih

theorem exists_append {q₁ q₂ : Plan} (h : Regroups c p (q₁ ++ q₂)) :
    ∃ p₁ p₂, p = p₁ ++ p₂ ∧ Regroups c p₁ q₁ ∧ Regroups c p₂ q₂ := by
  induction q₁ generalizing p with
  | nil => exact ⟨[], p, rfl, .nil, h⟩
  | cons node q₁ ih =>
      rw [List.cons_append] at h
      cases h with
      | group hnode hrest =>
          obtain ⟨p₁, p₂, rfl, h₁, h₂⟩ := ih hrest
          exact ⟨_, p₂, (List.append_assoc _ _ _).symm, .group hnode h₁, h₂⟩
      | branch mode purity hleft hright hrest =>
          obtain ⟨p₁, p₂, rfl, h₁, h₂⟩ := ih hrest
          exact ⟨_ :: p₁, p₂, rfl, .branch mode purity hleft hright h₁, h₂⟩

/-- The groups of a plan that holds nothing but leaves. -/
theorem exists_groups (h : Regroups c p q)
    (hleaf : ∀ node ∈ q, ∃ stage purity, node = .leaf stage purity) :
    ∃ groups : List Plan, groups.flatten = p ∧ List.Forall₂ c.Groups groups q := by
  induction h with
  | nil => exact ⟨[], rfl, .nil⟩
  | @group group rest rest' node hnode _ ih =>
      obtain ⟨groups, rfl, hgroups⟩ := ih (List.forall_mem_cons.1 hleaf).2
      exact ⟨group :: groups, List.flatten_cons, .cons hnode hgroups⟩
  | branch mode purity _ _ _ _ _ _ =>
      obtain ⟨stage, purity, hnode⟩ := (List.forall_mem_cons.1 hleaf).1
      cases hnode

theorem trans (h : Regroups c p q) (h' : Regroups c q r) : Regroups c p r := by
  induction h' generalizing p with
  | nil => exact h
  | group hnode _ ih =>
      obtain ⟨p₁, p₂, rfl, h₁, h₂⟩ := h.exists_append
      obtain ⟨groups, rfl, hgroups⟩ := h₁.exists_groups hnode.exists_leaf_of_mem
      exact .group (.flatten hgroups hnode) (ih h₂)
  | branch mode purity _ _ _ ihl ihr ih =>
      cases h with
      | group hnode _ =>
          obtain ⟨stage, purity, hleaf⟩ := hnode.exists_leaf
          cases hleaf
      | branch _ _ hleft hright hrest =>
          exact .branch mode purity (ihl hleft) (ihr hright) (ih hrest)

end Regroups

variable {c : Classifier} {depth : Nat} {p q : Plan} {a : Applied} {as : List Applied}

theorem Step.regroups (h : Step c.Admits depth p a q) : Regroups c p q := by
  induction h with
  | @here depth window hit h =>
      have hgroup := Regroups.group (Rule.groups_of_fuse h.found h.fused)
        (.refl (window.drop hit.length))
      rwa [List.take_append_drop] at hgroup
  | @later depth p q a node _ ih =>
      cases node with
      | leaf stage purity => exact .group (.singleton stage purity) ih
      | branch mode left right purity => exact .branch mode purity (.refl left) (.refl right) ih
  | left mode right purity rest _ ih => exact .branch mode purity ih (.refl right) (.refl rest)
  | right mode left purity rest _ ih => exact .branch mode purity (.refl left) ih (.refl rest)

theorem Derives.regroups (h : Derives c.Admits depth p as q) : Regroups c p q := by
  induction h with
  | refl p => exact .refl p
  | step hstep _ ih => exact hstep.regroups.trans ih

end Plan

/-- An optimized plan is a regrouping of the plan: each of its leaves stands for a group of
neighbours, and each of its branches for a branch. -/
theorem Optimizer.regroups_optimize (o : Optimizer) (plan : Plan) :
    Plan.Regroups o.classifier plan (o.optimize plan) := by
  obtain ⟨as, hderives, -, -⟩ := o.run_derives plan
  exact (Takes.derives hderives).regroups

end PipelineFusion
