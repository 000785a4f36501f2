import PipelineFusion.Json.Layout
import PipelineFusion.Plan.Node

/-!
# Descriptions

What a reader of a report sees of a node: kind, purity, label, calls, and the same of its children.
-/

namespace PipelineFusion

structure Description.Head where
  kind : Kind
  purity : Purity
  label : String
  calls : List String

/-- The head of a node, with the descriptions of both child plans if it has any. -/
inductive Description where
  | leaf (head : Description.Head)
  | branch (head : Description.Head) (left right : List Description)

def Node.head (node : Node) : Description.Head :=
  ⟨node.kind, node.purity, node.label, node.calls⟩

mutual

def Node.describe : Node → Description
  | .leaf stage purity => .leaf (Node.leaf stage purity).head
  | .branch mode left right purity =>
      .branch (Node.branch mode left right purity).head (Plan.describe left) (Plan.describe right)

def Plan.describe : Plan → List Description
  | [] => []
  | node :: rest => node.describe :: Plan.describe rest

end

/-- Calls are shown only where there are some. -/
def Description.Head.fields (h : Description.Head) : List (String × Json) :=
  [("kind", .string h.kind.name), ("purity", .string h.purity.name), ("label", .string h.label)] ++
    if h.calls.isEmpty then [] else [("calls", .array (h.calls.map .string))]

mutual

def Description.toJson : Description → Json
  | .leaf head => .object head.fields
  | .branch head left right =>
      .object (head.fields ++
        [("left", .array (Description.toJsons left)),
          ("right", .array (Description.toJsons right))])

def Description.toJsons : List Description → List Json
  | [] => []
  | d :: ds => d.toJson :: Description.toJsons ds

end
end PipelineFusion
