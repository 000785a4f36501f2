import PipelineFusion.Binary64
import PipelineFusion.Decimal.Notation

/-!
# JSON numbers

Reading a number keeps at most sixty-four bits of its digits; further digits before the point count
as powers of ten and further digits after it are dropped.  The kept digits are rounded to a double
once and scaled by the power of ten afterwards.
-/

namespace PipelineFusion.Json

/-- A literal with neither point nor exponent is an integer while it fits sixty-four bits. -/
inductive Number where
  | natural (n : Nat)
  | negative (n : Nat)
  | real (x : Float)

def isDigit (c : Char) : Bool := '0' ≤ c && c ≤ '9'

/-- Appends digits to a significand as long as the result fits sixty-four bits, and gives back the
digits that no longer fit. -/
def absorb (significand : Nat) : List Char → Nat × List Char
  | [] => (significand, [])
  | c :: cs =>
    let next := significand * 10 + (c.toNat - 48)
    if next < Nat.pow 2 64 then absorb next cs else (significand, c :: cs)

/-- `f * 10 ^ e` by one multiplication or division where the power is a double, and by repeated
divisions below that range; `none` where the product is too large. -/
def scaleByTen (f : Float) (e : Int) : Option Float :=
  if 308 < e then if Binary64.isZero f then some f else none
  else if 0 ≤ e then
    let product := f * Float.ofScientific 1 false e.toNat
    if Binary64.isInfinite product then none else some product
  else if -308 ≤ e then some (f / Float.ofScientific 1 false (-e).toNat)
  else if Binary64.isZero f then some f
  else scaleByTen (f / Float.ofScientific 1 false 308) (e + 308)
termination_by (-e).toNat
decreasing_by omega

def signed (minus : Bool) (x : Float) : Float := if minus then -x else x

/-- The exponent mark with its digits, if one stands here; `none` where the digits are missing. -/
def readExponent : List Char → Option (Int × List Char)
  | c :: cs =>
    if c = 'e' ∨ c = 'E' then
      let (minus, cs) := match cs with
        | '-' :: cs => (true, cs)
        | '+' :: cs => (false, cs)
        | cs => (false, cs)
      let digits := cs.takeWhile isDigit
      if digits.isEmpty then none
      else
        let n : Int := digits.foldl (fun n c ↦ n * 10 + (c.toNat - 48 : Nat)) 0
        some (if minus then -n else n, cs.dropWhile isDigit)
    else some (0, c :: cs)
  | [] => some (0, [])

/-- The literal after its sign. -/
def readMagnitude (minus : Bool) (cs : List Char) : Option (Number × List Char) :=
  let whole := cs.takeWhile isDigit
  let rest := cs.dropWhile isDigit
  let (significand, excess) := absorb 0 whole
  if whole.isEmpty ∨ whole.head? = some '0' ∧ 1 < whole.length then none
  else match rest with
    | '.' :: rest =>
      let places := rest.takeWhile isDigit
      let (significand, dropped) := absorb significand places
      let shift : Int := excess.length - (places.length - dropped.length : Nat)
      if places.isEmpty then none
      else (readExponent (rest.dropWhile isDigit)).bind fun (e, rest) ↦
        (scaleByTen (Float.ofNat significand) (shift + e)).map fun x ↦
          (.real (signed minus x), rest)
    | rest =>
      if excess.isEmpty ∧ rest.head? ≠ some 'e' ∧ rest.head? ≠ some 'E' then
        if minus = false then some (.natural significand, rest)
        else if 0 < significand ∧ significand ≤ Nat.pow 2 63 then some (.negative significand, rest)
        else some (.real (-Float.ofNat significand), rest)
      else (readExponent rest).bind fun (e, rest) ↦
        (scaleByTen (Float.ofNat significand) (excess.length + e)).map fun x ↦
          (.real (signed minus x), rest)

def readNumber : List Char → Option (Number × List Char)
  | '-' :: cs => readMagnitude true cs
  | cs => readMagnitude false cs

def Number.toFloat : Number → Float
  | .natural n => Float.ofNat n
  | .negative n => -Float.ofNat n
  | .real x => x

/-- Integers of the signed sixty-four bit range; a real number is none, not even `-0`. -/
def Number.toInt64? : Number → Option Int64
  | .natural n => if n < Nat.pow 2 63 then some (Int64.ofNat n) else none
  | .negative n => some (Int64.ofInt (-n))
  | .real _ => none

/-- A double always shows a point or an exponent, and one that is no number becomes `null`. -/
def floatChars (x : Float) : List Char :=
  if Binary64.isNaN x || Binary64.isInfinite x then "null".toList
  else
    let d := Decimal.shortest .even x
    if Binary64.negative x then '-' :: d.compact else d.compact

end PipelineFusion.Json
