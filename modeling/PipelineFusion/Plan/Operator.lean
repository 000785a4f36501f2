/-!
# Operators

An operator is a function together with what its author declares of it and with where it comes
from.  Functions cannot be compared, so operators are told apart by their origin: written operators
by a serial number, fused ones by the pair of operators they were fused from.
-/

namespace PipelineFusion

/-- A readable label and the names of the functions an operator calls. -/
structure Declaration where
  label : String
  calls : List String := []
  deriving DecidableEq, Repr, Inhabited

namespace Declaration

/-- Labels are joined by the separator and all calls are kept, in order. -/
def fuse (separator : String) (first second : Declaration) : Declaration :=
  ⟨first.label ++ separator ++ second.label, first.calls ++ second.calls⟩

def fuseAll (separator : String) (ds : List Declaration) : Declaration :=
  ⟨separator.intercalate (ds.map label), ds.flatMap calls⟩

end Declaration

inductive Origin where
  | written (serial : Nat)
  | fused (first second : Origin)
  deriving DecidableEq, Repr, Inhabited

structure Operator (F : Type) where
  origin : Origin
  declaration : Declaration
  run : F

namespace Operator

variable {F G H : Type}

/-- Same origin and same declaration; operators of one origin hold one function. -/
def same (f g : Operator F) : Bool := f.origin = g.origin && f.declaration = g.declaration

/-- The operator that runs `f` and `g` by way of `run`. -/
def fuse (separator : String) (f : Operator F) (g : Operator G) (run : H) : Operator H :=
  ⟨.fused f.origin g.origin, f.declaration.fuse separator g.declaration, run⟩

end Operator
end PipelineFusion
