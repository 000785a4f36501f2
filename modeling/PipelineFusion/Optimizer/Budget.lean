import PipelineFusion.Plan.Node

/-!
# Budgets

Two budgets bound a run: each position has `perPosition` steps before the run moves on, and the run
as a whole has `cap`.  A step is one application of a rule.  The budget also knows how deep in child
plans the run is, and keeps a trace of all steps when asked to.
-/

namespace PipelineFusion

/-- One step, with the texts of the span and of its replacement. -/
structure Applied where
  rule : String
  depth : Nat
  before : String
  after : String
  deriving DecidableEq, Repr

structure Budget where
  perPosition : Nat
  cap : Nat
  localSteps : Nat := 0
  steps : Nat := 0
  depth : Nat := 0
  tracing : Bool := false
  trace : List Applied := []

namespace Budget

/-- A fresh budget; without a cap of its own the run has as many steps as one position. -/
def start (perPosition : Nat) (cap : Option Nat) (tracing : Bool) : Budget :=
  { perPosition, cap := cap.getD perPosition, tracing }

def isLocalExhausted (b : Budget) : Bool := b.perPosition ≤ b.localSteps

def isExhausted (b : Budget) : Bool := b.cap ≤ b.steps

def resetLocal (b : Budget) : Budget := { b with localSteps := 0 }

def enterChild (b : Budget) : Budget := { b with depth := b.depth + 1 }

/-- Leaving more often than entering stays at the top. -/
def leaveChild (b : Budget) : Budget := { b with depth := b.depth - 1 }

def record (b : Budget) (rule : String) (span : Plan) (replacement : Node) : Budget :=
  { b with
    localSteps := b.localSteps + 1
    steps := b.steps + 1
    trace :=
      if b.tracing then b.trace ++ [⟨rule, b.depth, span.explain, replacement.label⟩]
      else b.trace }

theorem isExhausted_eq_false_iff {b : Budget} : b.isExhausted = false ↔ b.steps < b.cap := by
  simp [isExhausted]

end Budget
end PipelineFusion
