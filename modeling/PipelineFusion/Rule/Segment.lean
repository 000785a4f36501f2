import PipelineFusion.Boundary.Classifier
import PipelineFusion.Rule.Error
import PipelineFusion.Rule.Pattern

/-!
# Folding a segment

One rule replaces a whole run of stateless stages.  A run of maps becomes a map, a run of filters a
filter, and any other run a partial map that stops at the first stage to drop the value.
-/

namespace PipelineFusion

/-- The origin of an operator fused from several, from left to right. -/
def Origin.fuseAll : List Origin → Origin
  | [] => .written 0
  | o :: os => os.foldl .fused o

def Operator.fuseAll {F H : Type} (separator : String) (ops : List (Operator F)) (run : H) :
    Operator H :=
  ⟨Origin.fuseAll (ops.map origin), Declaration.fuseAll separator (ops.map declaration), run⟩

namespace Segment

def name : String := "PureSegmentFusionRule"

def description : String := "连续 ≥2 个纯 Map/Filter/FilterMap 合并为单个节点"

def slot : Slot := .multi [.map, .filter, .filterMap]

def pattern : Pattern := { slots := [slot, slot], repeatLast := true }

def admits (c : Classifier) (span : Plan) : Bool :=
  2 ≤ span.length && span.all c.isFullyFusable

/-- The longest fully fusable prefix of the run of kinds, if it has at least two nodes. -/
def matchSpan (c : Classifier) (window : Plan) : Option Nat :=
  match pattern.matchSpan window with
  | none => none
  | some n =>
    let n := ((window.take n).takeWhile c.isFullyFusable).length
    if 2 ≤ n then some n else none

def map? : Node → Option (Operator (Value → Value))
  | .leaf (.map f) _ => some f
  | _ => none

def filter? : Node → Option (Operator (Value → Bool))
  | .leaf (.filter p) _ => some p
  | _ => none

/-- A stateless stage as a partial map. -/
def partialMap? : Node → Option (Operator (Value → Option Value))
  | .leaf (.map f) _ => some { f with run := fun x ↦ some (f.run x) }
  | .leaf (.filter p) _ => some { p with run := fun x ↦ if p.run x then some x else none }
  | .leaf (.filterMap f) _ => some f
  | _ => none

/-- The operators of all nodes; the first node that cannot be read is named in the error. -/
def readAll {F : Type} (read? : Node → Option (Operator F)) (span : Plan) :
    Except FusionError (List (Operator F)) :=
  span.mapM fun node ↦
    match read? node with
    | some f => .ok f
    | none => .error (.unsupportedNode node.kind.name)

def foldMaps (span : Plan) : Except FusionError Stage :=
  (readAll map? span).map fun fs ↦
    .map (.fuseAll " >> " fs fun x ↦ fs.foldl (fun y f ↦ f.run y) x)

def foldFilters (span : Plan) : Except FusionError Stage :=
  (readAll filter? span).map fun ps ↦
    .filter (.fuseAll " && " ps fun x ↦ ps.all fun (p : Operator (Value → Bool)) ↦ p.run x)

def foldMixed (span : Plan) : Except FusionError Stage :=
  (readAll partialMap? span).map fun fs ↦
    .filterMap (.fuseAll " >> " fs fun x ↦ fs.foldlM (fun y f ↦ f.run y) x)

def stage (span : Plan) : Except FusionError Stage :=
  if span.all fun node ↦ node.kind = .map then foldMaps span
  else if span.all fun node ↦ node.kind = .filter then foldFilters span
  else foldMixed span

def fuse (span : Plan) : Except FusionError Node :=
  if span.length < 2 then
    .error (.invalidPlan (name ++ " 需要至少 2 个节点，实际为 " ++ toString span.length))
  else (stage span).map fun s ↦ .leaf s ((span.map Node.purity).foldl .join .pure)

end Segment
end PipelineFusion
