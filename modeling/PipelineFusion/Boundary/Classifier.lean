import PipelineFusion.Boundary.Inspector

/-!
# Classification

A node is as strict as the strictest evidence about it: its declared purity, its inspected calls,
and its children.  The walk over children stops as soon as nothing stricter can be found.
-/

namespace PipelineFusion

/-- Without an inspector only the declared purity counts. -/
structure Classifier where
  inspector : Option Inspector

namespace Classifier

/-- Inspects calls against the built-in lists. -/
def builtin : Classifier := ⟨some {}⟩

def declared : Classifier := ⟨none⟩

/-- The evidence on the node itself. -/
def own (c : Classifier) (node : Node) : Boundary :=
  let declared := Boundary.ofPurity node.purity
  match c.inspector with
  | some i => max declared (i.inspect node)
  | none => declared

mutual

def classify (c : Classifier) : Node → Boundary
  | .leaf stage purity => c.own (.leaf stage purity)
  | .branch mode left right purity =>
      c.raise right (c.raise left (c.own (.branch mode left right purity)))

/-- Raises a boundary by the nodes of a chain. -/
def raise (c : Classifier) : Plan → Boundary → Boundary
  | [], b => b
  | node :: rest, b =>
      if b = .opaqueEffect then b else c.raise rest (max b (c.classify node))

end

/-- Neither of two nodes is an external effect. -/
def canFuse (c : Classifier) (a b : Node) : Bool :=
  c.classify a < .opaqueEffect && c.classify b < .opaqueEffect

def isFullyFusable (c : Classifier) (node : Node) : Bool := c.classify node = .fullyFusable

end Classifier
end PipelineFusion
