/-!
# The fields of a double

A double is read through its sixty-four bits: a sign, eleven exponent bits and fifty-two fraction
bits.  Comparison as numbers is defined on these fields, so that its laws are laws of naturals.
-/

namespace PipelineFusion.Binary64

def negative (x : Float) : Bool := decide (Nat.pow 2 63 ≤ x.toBits.toNat)

def exponentField (x : Float) : Nat := x.toBits.toNat / Nat.pow 2 52 % Nat.pow 2 11

def fractionField (x : Float) : Nat := x.toBits.toNat % Nat.pow 2 52

def isNaN (x : Float) : Bool := exponentField x == 2047 && fractionField x != 0

def isInfinite (x : Float) : Bool := exponentField x == 2047 && fractionField x == 0

def isZero (x : Float) : Bool := exponentField x == 0 && fractionField x == 0

/-- The magnitude of a finite double is `significand x * 2 ^ scale x`. -/
def significand (x : Float) : Nat :=
  if exponentField x = 0 then fractionField x else Nat.pow 2 52 + fractionField x

def scale (x : Float) : Int := max (exponentField x) 1 - 1075

/-- Equality as numbers: the two zeros agree and NaN agrees with nothing. -/
def same (x y : Float) : Bool :=
  !isNaN x && !isNaN y && (x.toBits == y.toBits || isZero x && isZero y)

theorem same_comm (x y : Float) : same x y = same y x := by
  simp only [same, Bool.and_comm (isZero x), BEq.comm (a := x.toBits)]
  cases isNaN x <;> cases isNaN y <;> rfl

@[simp] theorem same_self (x : Float) : same x x = !isNaN x := by
  simp [same]

private theorem isZero_eq_of_toBits {x y : Float} (h : x.toBits = y.toBits) :
    isZero x = isZero y := by
  simp [isZero, exponentField, fractionField, h]

theorem same_trans {x y z : Float} (hxy : same x y = true) (hyz : same y z = true) :
    same x z = true := by
  simp only [same, Bool.and_eq_true, Bool.or_eq_true, beq_iff_eq] at *
  obtain ⟨⟨hx, -⟩, hxy⟩ := hxy
  obtain ⟨⟨-, hz⟩, hyz⟩ := hyz
  refine ⟨⟨hx, hz⟩, ?_⟩
  rcases hxy with h | ⟨h, hy⟩
  · rcases hyz with h' | ⟨hy, h'⟩
    · exact Or.inl (h.trans h')
    · exact Or.inr ⟨(isZero_eq_of_toBits h).trans hy, h'⟩
  · rcases hyz with h' | ⟨-, h'⟩
    · exact Or.inr ⟨h, (isZero_eq_of_toBits h').symm.trans hy⟩
    · exact Or.inr ⟨h, h'⟩

end PipelineFusion.Binary64
