import PipelineFusion.Plan.Node

/-!
# Outlines

The outline of a plan is what is left of it when one forgets what the stages do: the length of the
chain and, wherever it branches, the outlines of the two child plans.
-/

namespace PipelineFusion

inductive Outline where
  | stage
  | branch (mode : Mode) (left right : List Outline)

mutual

def Outline.total : Outline → Nat
  | .stage => 1
  | .branch _ left right => 1 + Outline.totals left + Outline.totals right

/-- The number of nodes of a plan with the given outline. -/
def Outline.totals : List Outline → Nat
  | [] => 0
  | o :: os => o.total + Outline.totals os

end

mutual

def Node.outline : Node → Outline
  | .leaf _ _ => .stage
  | .branch mode left right _ => .branch mode (Plan.outline left) (Plan.outline right)

def Plan.outline : Plan → List Outline
  | [] => []
  | node :: rest => node.outline :: Plan.outline rest

end

theorem Outline.total_pos (o : Outline) : 0 < o.total := by
  cases o <;> simp only [total] <;> omega

namespace Plan

theorem length_outline (p : Plan) : p.outline.length = p.length := by
  induction p with
  | nil => rfl
  | cons node p ih => rw [outline, List.length_cons, List.length_cons, ih]

theorem totals_outline (p : Plan) : Outline.totals p.outline = p.total := by
  induction p using Plan.induction with
  | nil => rfl
  | leaf stage purity rest ih => rw [outline, Outline.totals, ih]; rfl
  | branch mode left right purity rest ihl ihr ih =>
      rw [outline, Outline.totals, Node.outline, Outline.total, ihl, ihr, ih]
      rfl

end Plan
end PipelineFusion
