import PipelineFusion.Decimal.Notation
import PipelineFusion.Value.Basic

/-!
# Values as text

The form that labels and plans show: strings bare, lists in brackets, and floats with the fewest
digits that read back, never with an exponent.
-/

namespace PipelineFusion

/-- Of two equally short and equally near decimals the larger is shown. -/
def Binary64.text (x : Float) : String :=
  let sign := if Binary64.negative x then "-" else ""
  if Binary64.isNaN x then "NaN"
  else if Binary64.isInfinite x then sign ++ "inf"
  else sign ++ String.ofList ((Decimal.shortest .up x).positional false)

namespace Value

mutual

def text : Value → String
  | .null => "null"
  | .bool b => if b then "true" else "false"
  | .int n => toString n.toInt
  | .float x => Binary64.text x
  | .str s => s
  | .list items => "[" ++ ", ".intercalate (texts items) ++ "]"

def texts : List Value → List String
  | [] => []
  | v :: vs => text v :: texts vs

end

end Value
end PipelineFusion
