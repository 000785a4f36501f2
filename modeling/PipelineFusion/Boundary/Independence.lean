import PipelineFusion.Boundary.Classifier

/-!
# Independent neighbours

Two stages are independent when exchanging them would disturb neither state nor effects.  Whether
the values would come out the same is not asked.
-/

namespace PipelineFusion

def Kind.isStateless : Kind → Bool
  | .map | .filter | .filterMap => true
  | _ => false

def Classifier.independent (c : Classifier) (a b : Node) : Bool :=
  a.kind.isStateless && b.kind.isStateless && c.isFullyFusable a && c.isFullyFusable b

/-- The positions, counted from `i`, at which a node and its successor are independent. -/
def Classifier.independentFrom (c : Classifier) (i : Nat) : Plan → List Nat
  | a :: b :: rest =>
    if c.independent a b then i :: c.independentFrom (i + 1) (b :: rest)
    else c.independentFrom (i + 1) (b :: rest)
  | _ => []

def Plan.independentPairs (p : Plan) : List Nat := Classifier.builtin.independentFrom 0 p

end PipelineFusion
