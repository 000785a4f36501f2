import PipelineFusion.Plan.Node

/-!
# Kind patterns

A pattern is a sequence of slots for node kinds, of which the last may repeat.  It takes the longest
prefix of a window that fits; a pattern without slots fits nothing.
-/

namespace PipelineFusion

inductive Slot where
  | single (kind : Kind)
  | multi (kinds : List Kind)
  deriving DecidableEq, Repr

def Slot.accepts : Slot → Kind → Bool
  | .single kind, k => kind = k
  | .multi kinds, k => kinds.contains k

structure Pattern where
  slots : List Slot
  repeatLast : Bool := false
  deriving DecidableEq, Repr

namespace Pattern

def pair (first second : Kind) : Pattern := { slots := [.single first, .single second] }

/-- How many kinds are taken from the front of the window. -/
def span? (p : Pattern) (window : List Kind) : Option Nat :=
  match p.slots.getLast? with
  | none => none
  | some last =>
    let n := p.slots.length
    if window.length < n then none
    else if !(p.slots.zip window).all fun (slot, kind) ↦ slot.accepts kind then none
    else if p.repeatLast then some (n + ((window.drop n).takeWhile last.accepts).length)
    else some n

def matchSpan (p : Pattern) (window : Plan) : Option Nat := p.span? (window.map Node.kind)

theorem span?_le {p : Pattern} {window : List Kind} {n : Nat} (h : p.span? window = some n) :
    p.slots.length ≤ n ∧ n ≤ window.length := by
  unfold span? at h
  split at h
  · simp at h
  · next last _ =>
      have hrun := (List.takeWhile_sublist (p := last.accepts)
        (l := window.drop p.slots.length)).length_le
      rw [List.length_drop] at hrun
      dsimp only at h
      split at h
      · simp at h
      · split at h
        · simp at h
        · split at h <;> simp only [Option.some.injEq] at h <;> omega

theorem matchSpan_le {p : Pattern} {window : Plan} {n : Nat} (h : p.matchSpan window = some n) :
    p.slots.length ≤ n ∧ n ≤ window.length := by
  simpa using span?_le h

end Pattern
end PipelineFusion
