import PipelineFusion.Binary64

/-!
# Shortest decimals

A finite double stands for all reals that round to it.  Of the decimals in that interval the
shortest lie on the coarsest power-of-ten grid that meets it, and there the nearer of the two
neighbours of the double is taken.  All arithmetic is on naturals over one common denominator.
-/

namespace PipelineFusion

/-- The number `digits * 10 ^ exponent`. -/
structure Decimal where
  digits : Nat
  exponent : Int
  deriving DecidableEq, Repr

/-- Which of two equally near neighbours is taken. -/
inductive Tie where
  | up
  | even
  deriving DecidableEq, Repr

namespace Decimal

/-- The reals that round to `value / unit`, from `low / unit` to `high / unit`; the ends belong to
the interval exactly when it is `closed`. -/
structure Interval where
  low : Nat
  value : Nat
  high : Nat
  unit : Nat
  closed : Bool

/-- Half a step to either side, and a quarter below a power of two, where the steps get finer.
The ends round to the double when its significand is even. -/
def Interval.ofFloat (x : Float) : Interval :=
  let m := Binary64.significand x
  let q := Binary64.scale x - 2
  let below := if Binary64.fractionField x = 0 ∧ 1 < Binary64.exponentField x then 1 else 2
  let up := Nat.pow 2 q.toNat
  { low := (4 * m - below) * up
    value := 4 * m * up
    high := (4 * m + 2) * up
    unit := Nat.pow 2 (-q).toNat
    closed := m % 2 == 0 }

/-- Does the interval hold `n`, once its own numbers are multiplied by `factor`? -/
def Interval.holds (r : Interval) (factor n : Nat) : Bool :=
  if r.closed then r.low * factor ≤ n ∧ n ≤ r.high * factor
  else r.low * factor < n ∧ n < r.high * factor

/-- The multiple of `10 ^ exponent` in the interval that is nearest to its value. -/
def Interval.onGrid (r : Interval) (tie : Tie) (exponent : Int) : Option Nat :=
  let factor := Nat.pow 10 (-exponent).toNat
  let step := r.unit * Nat.pow 10 exponent.toNat
  let target := r.value * factor
  let below := target / step
  let above := below + 1
  match r.holds factor (below * step), r.holds factor (above * step) with
  | false, false => none
  | true, false => some below
  | false, true => some above
  | true, true =>
    let down := target - below * step
    let up := above * step - target
    if down < up then some below
    else if up < down then some above
    else match tie with
      | .up => some above
      | .even => some (if below % 2 = 0 then below else above)

/-- No double reaches `10 ^ 309`, and the grid of `10 ^ (-324)` meets every interval. -/
def gridExponents : List Int := (List.range 633).map fun (k : Nat) ↦ (308 : Int) - k

def shortest (tie : Tie) (x : Float) : Decimal :=
  if Binary64.significand x = 0 then ⟨0, 0⟩
  else
    let r := Interval.ofFloat x
    (gridExponents.findSome? fun e ↦ (r.onGrid tie e).map fun n ↦ ⟨n, e⟩).getD ⟨0, 0⟩

end Decimal
end PipelineFusion
