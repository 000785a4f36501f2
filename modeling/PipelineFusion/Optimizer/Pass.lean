import PipelineFusion.Optimizer.Budget
import PipelineFusion.Optimizer.Basic

/-!
# One pass over a plan

A pass goes through a chain from left to right.  At each position it applies rules as long as one
fires and the budget of the position lasts, then looks into the child plans of what stands there,
and moves on.  A branch is rebuilt if a child plan comes out unequal to what it was.  The pass stops
where it is once the budget of the run is spent.
-/

namespace PipelineFusion

inductive Level where
  | debug
  | warn
  deriving DecidableEq, Repr

structure LogLine where
  level : Level
  text : String
  deriving DecidableEq, Repr

/-- What a run carries along: its budget and the lines it has logged. -/
structure Session where
  budget : Budget
  log : List LogLine := []

namespace Session

def write (s : Session) (level : Level) (text : String) : Session :=
  { s with log := s.log ++ [⟨level, text⟩] }

/-- Logs the rules that have been passed over although they find a span. -/
def warn (s : Session) (refusals : List Refusal) : Session :=
  { s with log := s.log ++ refusals.map fun r ↦ ⟨.warn, r.text⟩ }

def resetLocal (s : Session) : Session := { s with budget := s.budget.resetLocal }

def enterChild (s : Session) : Session := { s with budget := s.budget.enterChild }

def leaveChild (s : Session) : Session := { s with budget := s.budget.leaveChild }

/-- Logs and records a step. -/
def apply (s : Session) (position : Nat) (window : Plan) (h : Hit) : Session :=
  let s := s.write .debug <|
    "应用规则 " ++ h.rule.name ++ " 于位置 " ++ toString position ++ " (深度 " ++
      toString s.budget.depth ++ "): " ++ toString h.length ++ " 个节点 -> " ++ h.replacement.text
  { s with budget := s.budget.record h.rule.name (window.take h.length) h.replacement }

/-- Logs that a position is left with its budget spent. -/
def postpone (s : Session) (position : Nat) : Session :=
  s.write .debug <|
    "位置 " ++ toString position ++ " (深度 " ++ toString s.budget.depth ++
      ") 的重写预算已用完，留待下一轮"

end Session

namespace Optimizer

/-- The step to be taken at a window, unless the position has spent its budget. -/
def next? (o : Optimizer) (b : Budget) (window : Plan) : Option Hit :=
  if b.isLocalExhausted then none else o.hit? window

theorem hit?_of_next? {o : Optimizer} {b : Budget} {window : Plan} {h : Hit}
    (hn : o.next? b window = some h) : o.hit? window = some h := by
  unfold next? at hn
  split at hn
  · cases hn
  · exact hn

/-- Logs what is to be said about a position before a rule fires or the position is left. -/
def consider (o : Optimizer) (position : Nat) (window : Plan) (s : Session) : Session :=
  if s.budget.isLocalExhausted then s.postpone position else s.warn (o.refusals window)

@[simp] theorem budget_consider (o : Optimizer) (position : Nat) (window : Plan) (s : Session) :
    (o.consider position window s).budget = s.budget := by
  unfold consider
  split <;> rfl

/-- The pass from `position` on. -/
def sweep (o : Optimizer) (position : Nat) (plan : Plan) (s : Session) : Plan × Session :=
  match plan with
  | [] => ([], s)
  | node :: rest =>
    if s.budget.isExhausted then (node :: rest, s)
    else
      let s := o.consider position (node :: rest) s
      match _hn : o.next? s.budget (node :: rest) with
      | some h =>
        sweep o position (h.replacement :: (node :: rest).drop h.length)
          (s.apply position (node :: rest) h)
      | none =>
        match node with
        | .leaf stage purity =>
          let (rest, s) := sweep o (position + 1) rest s.resetLocal
          (.leaf stage purity :: rest, s)
        | .branch mode left right purity =>
          let (left', s) := sweep o 0 left s.enterChild.resetLocal
          let (right', s) := sweep o 0 right s.resetLocal
          let (rest, s) := sweep o (position + 1) rest s.leaveChild.resetLocal
          ((Node.branch mode left right purity).rebuild left' right' :: rest, s)
termination_by plan.total
decreasing_by
  · exact total_splice_lt (hit?_of_next? _hn)
  all_goals
    simp only [Plan.total_cons, Node.total]
    omega

/-- One pass over a whole plan. -/
def pass (o : Optimizer) (plan : Plan) (s : Session) : Plan × Session :=
  o.sweep 0 plan s.resetLocal

end Optimizer
end PipelineFusion
