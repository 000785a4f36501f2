import PipelineFusion.Boundary.Classifier
import PipelineFusion.Rule.Error
import PipelineFusion.Rule.Pattern

/-!
# Merging neighbours

Eight rules replace two neighbouring stages by one that does the work of both.  The merged stage
keeps both labels and all calls, and is as impure as the more impure of the two.
-/

namespace PipelineFusion

/-- Each rule is named after the kinds of its two stages; a chain is a pair of equal kinds. -/
inductive Merge where
  | mapMap
  | filterFilter
  | mapFilter
  | filterMap
  | filterMapChain
  | scanMap
  | scanScan
  | flatMapMap
  deriving DecidableEq, Repr

namespace Merge

def all : List Merge :=
  [.mapMap, .filterFilter, .mapFilter, .filterMap, .filterMapChain, .scanMap, .scanScan,
    .flatMapMap]

def name : Merge → String
  | .mapMap => "MapMapFusionRule"
  | .filterFilter => "FilterFilterFusionRule"
  | .mapFilter => "MapFilterFusionRule"
  | .filterMap => "FilterMapFusionRule"
  | .filterMapChain => "FilterMapChainFusionRule"
  | .scanMap => "ScanMapFusionRule"
  | .scanScan => "ScanScanFusionRule"
  | .flatMapMap => "FlatMapMapFusionRule"

def description : Merge → String
  | .mapMap => "Map(f) → Map(g) 合并为 Map(g ∘ f)"
  | .filterFilter => "Filter(p) → Filter(q) 合并为 Filter(p ∧ q)"
  | .mapFilter => "Map(f) → Filter(p) 合并为 FilterMap(x ↦ p(f(x)) ? f(x) : ∅)"
  | .filterMap => "Filter(p) → Map(f) 合并为 FilterMap(x ↦ p(x) ? f(x) : ∅)"
  | .filterMapChain => "FilterMap(f) → FilterMap(g) 合并为 FilterMap(x ↦ f(x).and_then(g))"
  | .scanMap => "Scan(s) → Map(f) 合并为输出已映射的 Scan"
  | .scanScan => "Scan(s1) → Scan(s2) 合并为顺序组合两个状态转移的 Scan"
  | .flatMapMap => "FlatMap(f) → Map(g) 合并为 FlatMap(x ↦ f(x).map(g))"

def first : Merge → Kind
  | .mapMap | .mapFilter => .map
  | .filterFilter | .filterMap => .filter
  | .filterMapChain => .filterMap
  | .scanMap | .scanScan => .scan
  | .flatMapMap => .flatMap

def second : Merge → Kind
  | .mapMap | .filterMap | .scanMap | .flatMapMap => .map
  | .filterFilter | .mapFilter => .filter
  | .filterMapChain => .filterMap
  | .scanScan => .scan

def pattern (m : Merge) : Pattern := .pair m.first m.second

/-- The merged stage; `none` when the stages are not of the kinds of the rule.  Two scans keep their
states side by side and advance them in order. -/
def stage? : Merge → Stage → Stage → Option Stage
  | .mapMap, .map f, .map g => some (.map (f.fuse " >> " g fun x ↦ g.run (f.run x)))
  | .filterFilter, .filter p, .filter q =>
    some (.filter (p.fuse " && " q fun x ↦ p.run x && q.run x))
  | .mapFilter, .map f, .filter p =>
    some (.filterMap (f.fuse " ?> " p fun x ↦
      let y := f.run x
      if p.run y then some y else none))
  | .filterMap, .filter p, .map f =>
    some (.filterMap (p.fuse " ?> " f fun x ↦ if p.run x then some (f.run x) else none))
  | .filterMapChain, .filterMap f, .filterMap g =>
    some (.filterMap (f.fuse " >> " g fun x ↦ (f.run x).bind g.run))
  | .scanMap, .scan init step, .map f =>
    some (.scan init (step.fuse " >> " f fun s x ↦
      let (s, y) := step.run s x
      (s, f.run y)))
  | .scanScan, .scan init step, .scan init' step' =>
    some (.scan (.pair init init') (step.fuse " ; " step' fun s x ↦
      let (a, b) := s.intoPair
      let (a, y) := step.run a x
      let (b, z) := step'.run b y
      (.pair a b, z)))
  | .flatMapMap, .flatMap f, .map g =>
    some (.flatMap (f.fuse " >> " g fun x ↦ (f.run x).map g.run))
  | _, _, _ => none

/-- Stateless stages merge when both are fully fusable.  A scan only has to be free of external
effects. -/
def admits (m : Merge) (c : Classifier) (a b : Node) : Bool :=
  a.kind = m.first && b.kind = m.second && c.canFuse a b &&
    match m with
    | .scanScan => true
    | .scanMap => c.isFullyFusable b
    | _ => c.isFullyFusable a && c.isFullyFusable b

def node? (m : Merge) : Node → Node → Option Node
  | .leaf s p, .leaf t q => (m.stage? s t).map (.leaf · (p.join q))
  | _, _ => none

theorem total_of_node? {m : Merge} {a b node : Node} (h : m.node? a b = some node) :
    node.total = 1 := by
  unfold node? at h
  split at h
  · obtain ⟨s, -, rfl⟩ := Option.map_eq_some_iff.1 h
    rfl
  · cases h

def fuse (m : Merge) : Plan → Except FusionError Node
  | [a, b] =>
    match m.node? a b with
    | some node => .ok node
    | none => .error (.unsupportedNode
        (m.name ++ ": " ++ a.kind.name ++ " -> " ++ b.kind.name))
  | span => .error (.invalidPlan
      (m.name ++ " 需要 2 个节点，实际为 " ++ toString span.length))

end Merge
end PipelineFusion
