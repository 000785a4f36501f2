import PipelineFusion.Decimal.Shortest

/-!
# Decimal notation

A decimal is written out in full, or with one digit before the point and a signed power of ten.
-/

namespace PipelineFusion.Decimal

def digitChars (d : Decimal) : List Char := Nat.toDigits 10 d.digits

/-- The power of ten of the leading digit. -/
def magnitude (d : Decimal) : Int := d.digitChars.length + d.exponent - 1

/-- All digits in their places; an integer ends in `.0` when `point` asks for it. -/
def positional (point : Bool) (d : Decimal) : List Char :=
  let ds := d.digitChars
  if 0 ≤ d.exponent then
    ds ++ List.replicate d.exponent.toNat '0' ++ if point then ['.', '0'] else []
  else
    let places := (-d.exponent).toNat
    if places < ds.length then
      ds.take (ds.length - places) ++ '.' :: ds.drop (ds.length - places)
    else '0' :: '.' :: List.replicate (places - ds.length) '0' ++ ds

/-- One digit before the point, and an exponent that always carries its sign. -/
def scientific (d : Decimal) : List Char :=
  let ds := d.digitChars
  let fraction := if ds.length ≤ 1 then [] else '.' :: ds.tail
  let sign := if d.magnitude < 0 then '-' else '+'
  ds.take 1 ++ fraction ++ 'e' :: sign :: Nat.toDigits 10 d.magnitude.natAbs

/-- Written out in full from `0.00001` up to sixteen integer digits, with a power of ten
elsewhere. -/
def compact (d : Decimal) : List Char :=
  if d.digits = 0 ∨ -5 ≤ d.magnitude ∧ d.magnitude < 16 then d.positional true else d.scientific

end PipelineFusion.Decimal
