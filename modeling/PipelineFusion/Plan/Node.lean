import PipelineFusion.Plan.Operator
import PipelineFusion.Value.Text

/-!
# Plans

A plan is a chain of nodes.  A leaf holds one stage; a branch holds two plans, run one after the
other or side by side.  Each node carries the purity its author declares.
-/

namespace PipelineFusion

/-- Declared effects, from harmless to severe. -/
inductive Purity where
  | pure
  | stateful
  | io
  | async
  deriving DecidableEq, Repr, Inhabited

namespace Purity

def rank : Purity → Nat
  | .pure => 0
  | .stateful => 1
  | .io => 2
  | .async => 3

def name : Purity → String
  | .pure => "Pure"
  | .stateful => "Stateful"
  | .io => "IO"
  | .async => "Async"

/-- The more severe of two. -/
def join (a b : Purity) : Purity := if a.rank ≤ b.rank then b else a

@[simp] theorem rank_join (a b : Purity) : (a.join b).rank = max a.rank b.rank := by
  cases a <;> cases b <;> rfl

end Purity

inductive Kind where
  | map
  | filter
  | filterMap
  | scan
  | flatMap
  | compose
  | parallel
  deriving DecidableEq, Repr, Inhabited

def Kind.name : Kind → String
  | .map => "Map"
  | .filter => "Filter"
  | .filterMap => "FilterMap"
  | .scan => "Scan"
  | .flatMap => "FlatMap"
  | .compose => "Compose"
  | .parallel => "Parallel"

inductive Stage where
  | map (f : Operator (Value → Value))
  | filter (p : Operator (Value → Bool))
  | filterMap (f : Operator (Value → Option Value))
  | scan (init : Value) (step : Operator (Value → Value → Value × Value))
  | flatMap (f : Operator (Value → List Value))

namespace Stage

def kind : Stage → Kind
  | .map _ => .map
  | .filter _ => .filter
  | .filterMap _ => .filterMap
  | .scan _ _ => .scan
  | .flatMap _ => .flatMap

def declaration : Stage → Declaration
  | .map f => f.declaration
  | .filter p => p.declaration
  | .filterMap f => f.declaration
  | .scan _ step => step.declaration
  | .flatMap f => f.declaration

def label : Stage → String
  | .scan init step => "Scan[" ++ step.declaration.label ++ "; init=" ++ init.text ++ "]"
  | stage => stage.kind.name ++ "[" ++ stage.declaration.label ++ "]"

def same : Stage → Stage → Bool
  | .map f, .map g => f.same g
  | .filter p, .filter q => p.same q
  | .filterMap f, .filterMap g => f.same g
  | .scan i f, .scan j g => i == j && f.same g
  | .flatMap f, .flatMap g => f.same g
  | _, _ => false

end Stage

/-- How the two plans of a branch are fed. -/
inductive Mode where
  | compose
  | parallel
  deriving DecidableEq, Repr, Inhabited

namespace Mode

def kind : Mode → Kind
  | .compose => .compose
  | .parallel => .parallel

def sign : Mode → String
  | .compose => " ; "
  | .parallel => " | "

end Mode

inductive Node where
  | leaf (stage : Stage) (purity : Purity)
  | branch (mode : Mode) (left right : List Node) (purity : Purity)

instance : Inhabited Node := ⟨.branch .compose [] [] .pure⟩

abbrev Plan := List Node

/-- Induction on a chain from its first node on, through the child plans of its branches. -/
@[elab_as_elim]
theorem Plan.induction {P : Plan → Prop} (nil : P [])
    (leaf : ∀ stage purity rest, P rest → P (.leaf stage purity :: rest))
    (branch : ∀ mode left right purity rest, P left → P right → P rest →
      P (.branch mode left right purity :: rest)) : ∀ plan, P plan
  | [] => nil
  | .leaf stage purity :: rest => leaf stage purity rest (induction nil leaf branch rest)
  | .branch mode left right purity :: rest =>
      branch mode left right purity rest (induction nil leaf branch left)
        (induction nil leaf branch right) (induction nil leaf branch rest)

namespace Node

def kind : Node → Kind
  | .leaf stage _ => stage.kind
  | .branch mode _ _ _ => mode.kind

def purity : Node → Purity
  | .leaf _ purity => purity
  | .branch _ _ _ purity => purity

/-- The calls declared on the node itself; those of child plans are not among them. -/
def calls : Node → List String
  | .leaf stage _ => stage.declaration.calls
  | .branch _ _ _ _ => []

def children? : Node → Option (Plan × Plan)
  | .leaf _ _ => none
  | .branch _ left right _ => some (left, right)

def withChildren : Node → Plan → Plan → Node
  | .leaf stage purity, _, _ => .leaf stage purity
  | .branch mode _ _ purity, left, right => .branch mode left right purity

end Node

mutual

def Node.total : Node → Nat
  | .leaf _ _ => 1
  | .branch _ left right _ => 1 + Plan.total left + Plan.total right

/-- The number of nodes of a plan, those of child plans included. -/
def Plan.total : Plan → Nat
  | [] => 0
  | node :: rest => node.total + Plan.total rest

end

namespace Plan

@[simp] theorem total_nil : total [] = 0 := rfl

@[simp] theorem total_cons (node : Node) (rest : Plan) :
    total (node :: rest) = node.total + total rest := rfl

@[simp] theorem total_append (p q : Plan) : total (p ++ q) = total p + total q := by
  induction p with
  | nil => simp
  | cons node p ih => simp [ih, Nat.add_assoc]

end Plan

theorem Node.total_pos (node : Node) : 0 < node.total := by
  cases node <;> simp only [Node.total] <;> omega

theorem Plan.length_le_total (p : Plan) : p.length ≤ p.total := by
  induction p with
  | nil => simp
  | cons node p ih =>
      have := node.total_pos
      simp only [List.length_cons, Plan.total_cons]
      omega

def Plan.join (labels : List String) : String :=
  if labels.isEmpty then "<empty>" else " -> ".intercalate labels

mutual

def Node.label : Node → String
  | .leaf stage _ => stage.label
  | .branch mode left right _ =>
      mode.kind.name ++ "(" ++ Plan.join (Plan.labels left) ++ mode.sign ++
        Plan.join (Plan.labels right) ++ ")"

def Plan.labels : Plan → List String
  | [] => []
  | node :: rest => node.label :: Plan.labels rest

end

/-- The labels of a chain, joined by arrows. -/
def Plan.explain (p : Plan) : String := Plan.join (Plan.labels p)

/-- The label with the declared purity. -/
def Node.text (node : Node) : String := node.label ++ "<" ++ node.purity.name ++ ">"

mutual

def Node.same : Node → Node → Bool
  | .leaf s p, .leaf t q => s.same t && p = q
  | .branch m l r p, .branch n l' r' q => m = n && Plan.same l l' && Plan.same r r' && p = q
  | _, _ => false

/-- Node by node; a plan that holds a NaN as an initial state differs from itself. -/
def Plan.same : Plan → Plan → Bool
  | [], [] => true
  | a :: p, b :: q => a.same b && Plan.same p q
  | _, _ => false

end

instance : BEq Node := ⟨Node.same⟩

/-- The node with other child plans, unless they are equal to its own. -/
def Node.rebuild (node : Node) (left right : Plan) : Node :=
  match node.children? with
  | none => node
  | some (oldLeft, oldRight) =>
    if left != oldLeft || right != oldRight then node.withChildren left right else node

end PipelineFusion
