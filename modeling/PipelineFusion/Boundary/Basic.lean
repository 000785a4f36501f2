import PipelineFusion.Plan.Node

/-!
# Fusion boundaries

How far a node may take part in fusion.  The three levels are linearly ordered, and evidence is
combined by taking the strictest.
-/

namespace PipelineFusion

inductive Boundary where
  | fullyFusable
  | staged
  | opaqueEffect
  deriving DecidableEq, Repr, Inhabited

namespace Boundary

def rank : Boundary → Nat
  | .fullyFusable => 0
  | .staged => 1
  | .opaqueEffect => 2

instance : LE Boundary := ⟨fun a b ↦ a.rank ≤ b.rank⟩

instance : LT Boundary := ⟨fun a b ↦ a.rank < b.rank⟩

instance (a b : Boundary) : Decidable (a ≤ b) := inferInstanceAs (Decidable (a.rank ≤ b.rank))

instance (a b : Boundary) : Decidable (a < b) := inferInstanceAs (Decidable (a.rank < b.rank))

instance : Max Boundary := ⟨fun a b ↦ if a.rank ≤ b.rank then b else a⟩

theorem rank_injective {a b : Boundary} (h : a.rank = b.rank) : a = b := by
  cases a <;> cases b <;> simp_all [rank]

@[simp] theorem rank_max (a b : Boundary) : (max a b).rank = max a.rank b.rank := by
  cases a <;> cases b <;> rfl

def name : Boundary → String
  | .fullyFusable => "FullyFusable"
  | .staged => "Staged"
  | .opaqueEffect => "OpaqueEffect"

def ofPurity : Purity → Boundary
  | .pure => .fullyFusable
  | .stateful => .staged
  | .io => .opaqueEffect
  | .async => .opaqueEffect

end Boundary
end PipelineFusion
