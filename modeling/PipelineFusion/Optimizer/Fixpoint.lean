import PipelineFusion.Optimizer.Pass

/-!
# Optimizing to a fixpoint

Passes are repeated until one of them changes nothing.  Each pass that changes the plan makes it
smaller, which bounds their number.  The cap on all steps is a safeguard; when it is what ends the
run although a rule still applies, the run is reported as exhausted.
-/

namespace PipelineFusion

/-- The result of a run, with what it took to get there. -/
structure Outcome where
  plan : Plan
  iterations : Nat
  rulesApplied : Nat
  exhausted : Bool
  trace : List Applied
  log : List LogLine

/-- Counts and caps saturate at the largest machine word. -/
def maxCount : Nat := Nat.pow 2 64 - 1

namespace Optimizer

def cap (o : Optimizer) (plan : Plan) : Nat := min (o.maxDepth * max plan.total 1) maxCount

/-- Passes from `current` on, after `done` of them; the last plan, the number of passes and the
session.  A plan that differs from itself cannot come to rest, so the loop also ends when a pass
has not made the plan smaller. -/
def settle (o : Optimizer) (current : Plan) (done : Nat) (s : Session) : Plan × Nat × Session :=
  if s.budget.isExhausted then (current, done, s)
  else
    let (next, s) := o.pass current s
    if next == current then
      (current, done + 1,
        s.write .debug ("第 " ++ toString (done + 1) ++ " 轮未发生变化，已到达不动点"))
    else if next.total < current.total then o.settle next (done + 1) s
    else (next, done + 1, s)
termination_by current.total

section

variable {o : Optimizer} {current : Plan} {done : Nat} {s : Session}

theorem settle_of_isExhausted (hspent : s.budget.isExhausted = true) :
    o.settle current done s = (current, done, s) := by
  rw [settle, if_pos hspent]

theorem settle_of_same (hspent : s.budget.isExhausted = false)
    (hsame : ((o.pass current s).1 == current) = true) :
    o.settle current done s =
      (current, done + 1, (o.pass current s).2.write .debug
        ("第 " ++ toString (done + 1) ++ " 轮未发生变化，已到达不动点")) := by
  rw [settle, if_neg (Bool.not_eq_true _ ▸ hspent)]
  exact if_pos hsame

theorem settle_of_smaller (hspent : s.budget.isExhausted = false)
    (hdiffers : ¬ ((o.pass current s).1 == current) = true)
    (hsmaller : (o.pass current s).1.total < current.total) :
    o.settle current done s = o.settle (o.pass current s).1 (done + 1) (o.pass current s).2 := by
  rw [settle, if_neg (Bool.not_eq_true _ ▸ hspent)]
  exact (if_neg hdiffers).trans (if_pos hsmaller)

theorem settle_of_not_smaller (hspent : s.budget.isExhausted = false)
    (hdiffers : ¬ ((o.pass current s).1 == current) = true)
    (hsmaller : ¬ (o.pass current s).1.total < current.total) :
    o.settle current done s = ((o.pass current s).1, done + 1, (o.pass current s).2) := by
  rw [settle, if_neg (Bool.not_eq_true _ ▸ hspent)]
  exact (if_neg hdiffers).trans (if_neg hsmaller)

end

def run (o : Optimizer) (plan : Plan) : Outcome :=
  let cap := o.cap plan
  let (current, iterations, s) :=
    o.settle plan 0 { budget := .start o.maxDepth (some cap) o.tracing }
  let exhausted := s.budget.isExhausted && o.canOptimize current
  let s :=
    if exhausted then
      s.write .warn ("重写总步数上限 " ++ toString cap ++ " 已耗尽，返回当前最优计划: " ++
        current.explain)
    else s
  { plan := current
    iterations
    rulesApplied := s.budget.steps
    exhausted
    trace := s.budget.trace
    log := s.log }

def optimize (o : Optimizer) (plan : Plan) : Plan := (o.run plan).plan

end Optimizer

/-- Optimizes with all rules. -/
def Plan.optimize (plan : Plan) (maxDepth : Nat) : Plan :=
  ({ maxDepth } : Optimizer).optimize plan

/-- Can any of the rules be applied in the plan? -/
def Plan.canOptimize (plan : Plan) : Bool := ({} : Optimizer).canOptimize plan

end PipelineFusion
