import PipelineFusion.Rule.Merge
import PipelineFusion.Rule.Segment

/-!
# Fusion rules

A rule finds a span at the front of a window and replaces it by a single leaf.  It never takes fewer
than two nodes, so every application makes a plan smaller.
-/

namespace PipelineFusion

inductive Rule where
  | merge (m : Merge)
  | segment
  deriving DecidableEq, Repr

namespace Rule

/-- All rules, in the order in which they are tried by default. -/
def all : List Rule := Merge.all.map .merge ++ [.segment]

def name : Rule → String
  | .merge m => m.name
  | .segment => Segment.name

def description : Rule → String
  | .merge m => m.description
  | .segment => Segment.description

/-- All rules but those of the given names. -/
def enabled (disabled : List String) : List Rule := all.filter fun r ↦ !disabled.contains r.name

def ofName? (name : String) : Option Rule := all.find? (·.name = name)

def pattern : Rule → Pattern
  | .merge m => m.pattern
  | .segment => Segment.pattern

/-- What a span has to satisfy besides the pattern. -/
def admits (r : Rule) (c : Classifier) (span : Plan) : Bool :=
  match r, span with
  | .merge m, [a, b] => m.admits c a b
  | .merge _, _ => false
  | .segment, span => Segment.admits c span

/-- The length of the span that the rule would replace at the front of the window. -/
def matchSpan (r : Rule) (c : Classifier) (window : Plan) : Option Nat :=
  match r with
  | .merge m =>
    match m.pattern.matchSpan window with
    | some n => if (Rule.merge m).admits c (window.take n) then some n else none
    | none => none
  | .segment => Segment.matchSpan c window

def fires (r : Rule) (c : Classifier) (window : Plan) : Bool := (r.matchSpan c window).isSome

def fuse : Rule → Plan → Except FusionError Node
  | .merge m, span => m.fuse span
  | .segment, span => Segment.fuse span

theorem matchSpan_le {r : Rule} {c : Classifier} {window : Plan} {n : Nat}
    (h : r.matchSpan c window = some n) : 2 ≤ n ∧ n ≤ window.length := by
  cases r with
  | merge m =>
      simp only [matchSpan] at h
      split at h
      · next k hk =>
          split at h
          · cases h
            exact Pattern.matchSpan_le hk
          · cases h
      · cases h
  | segment =>
      simp only [matchSpan, Segment.matchSpan] at h
      split at h
      · cases h
      · next k hk =>
          have hrun := (List.takeWhile_sublist (p := c.isFullyFusable)
            (l := window.take k)).length_le
          rw [List.length_take] at hrun
          split at h
          · cases h
            omega
          · cases h

theorem total_of_fuse {r : Rule} {span : Plan} {node : Node} (h : r.fuse span = .ok node) :
    node.total = 1 := by
  cases r with
  | merge m =>
      simp only [fuse, Merge.fuse] at h
      split at h
      · next a b =>
          split at h
          · next fused hf =>
              cases h
              exact Merge.total_of_node? hf
          · cases h
      · cases h
  | segment =>
      simp only [fuse, Segment.fuse] at h
      split at h
      · cases h
      · cases hs : Segment.stage span with
        | error e => simp [hs, Except.map] at h
        | ok s =>
            simp only [hs, Except.map, Except.ok.injEq] at h
            exact h ▸ rfl

end Rule
end PipelineFusion
