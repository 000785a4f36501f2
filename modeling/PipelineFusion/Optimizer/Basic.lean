import PipelineFusion.Rule.Basic
import PipelineFusion.Settings.Basic

/-!
# Optimizers

An optimizer is an ordered list of rules with a classifier and a budget for each position.  At a
window it uses the first rule that finds a span and can replace it.
-/

namespace PipelineFusion

structure Optimizer where
  rules : List Rule := Rule.all
  classifier : Classifier := .builtin
  maxDepth : Nat := 100
  tracing : Bool := false

/-- A rule that fires at the front of a window, with the span it takes and the node put there. -/
structure Hit where
  rule : Rule
  length : Nat
  replacement : Node

/-- A rule that finds a span at the front of a window but cannot replace it. -/
structure Refusal where
  rule : Rule
  error : FusionError

def Refusal.text (r : Refusal) : String :=
  "规则 " ++ r.rule.name ++ " 重写失败，视为未命中: " ++ r.error.message

namespace Optimizer

/-- All rules except the disabled ones, with the effect patterns of the settings. -/
def ofSettings (s : OptimizerSettings) : Except Failure Optimizer :=
  let inspector? :=
    if s.effectPatterns.isEmpty then some {} else Inspector.ofPatterns? s.effectPatterns
  match inspector? with
  | none => .error (.config "无效的效应模式")
  | some inspector => .ok
    { rules := Rule.enabled s.disabledRules
      classifier := ⟨some inspector⟩
      maxDepth := s.maxDepth
      tracing := s.enableTrace }

def attempt? (c : Classifier) (window : Plan) (r : Rule) : Option Hit :=
  match r.matchSpan c window with
  | none => none
  | some n =>
    match r.fuse (window.take n) with
    | .ok node => some ⟨r, n, node⟩
    | .error _ => none

def refusal? (c : Classifier) (window : Plan) (r : Rule) : Option Refusal :=
  match r.matchSpan c window with
  | none => none
  | some n =>
    match r.fuse (window.take n) with
    | .ok _ => none
    | .error e => some ⟨r, e⟩

def hit? (o : Optimizer) (window : Plan) : Option Hit :=
  o.rules.findSome? (attempt? o.classifier window)

/-- The refusals met on the way to the first rule that fires. -/
def refusals (o : Optimizer) (window : Plan) : List Refusal :=
  (o.rules.takeWhile fun r ↦ (attempt? o.classifier window r).isNone).filterMap
    (refusal? o.classifier window)

/-- The first rule that finds a span at the front of the window. -/
def firstMatch? (o : Optimizer) (window : Plan) : Option Rule :=
  o.rules.find? (·.fires o.classifier window)

mutual

/-- Can a rule be applied inside the node? -/
def canOptimizeInside (o : Optimizer) : Node → Bool
  | .leaf _ _ => false
  | .branch _ left right _ => o.canOptimize left || o.canOptimize right

/-- Can a rule be applied anywhere in the plan? -/
def canOptimize (o : Optimizer) : Plan → Bool
  | [] => false
  | node :: rest =>
    (o.firstMatch? (node :: rest)).isSome || o.canOptimizeInside node || o.canOptimize rest

end

theorem hit?_le {o : Optimizer} {window : Plan} {h : Hit} (hh : o.hit? window = some h) :
    2 ≤ h.length ∧ h.length ≤ window.length ∧ h.replacement.total = 1 := by
  obtain ⟨r, -, hr⟩ := List.exists_of_findSome?_eq_some hh
  unfold attempt? at hr
  split at hr
  · cases hr
  · next n hn =>
      split at hr
      · next node hnode =>
          cases hr
          exact ⟨(Rule.matchSpan_le hn).1, (Rule.matchSpan_le hn).2, Rule.total_of_fuse hnode⟩
      · cases hr

theorem hit?_of_length_lt_two {o : Optimizer} {window : Plan} (hshort : window.length < 2) :
    o.hit? window = none := by
  cases h : o.hit? window with
  | none => rfl
  | some hit =>
      have hle := hit?_le h
      omega

theorem hit?_nil (o : Optimizer) : o.hit? [] = none := hit?_of_length_lt_two Nat.two_pos

theorem total_splice_lt {o : Optimizer} {window : Plan} {h : Hit}
    (hh : o.hit? window = some h) :
    Plan.total (h.replacement :: window.drop h.length) < Plan.total window := by
  obtain ⟨htwo, hle, hone⟩ := hit?_le hh
  have hsplit : Plan.total window =
      Plan.total (window.take h.length) + Plan.total (window.drop h.length) := by
    rw [← Plan.total_append, List.take_append_drop]
  have htake := Plan.length_le_total (window.take h.length)
  rw [List.length_take, Nat.min_eq_left hle] at htake
  rw [Plan.total_cons, hone, hsplit]
  omega

end Optimizer
end PipelineFusion
