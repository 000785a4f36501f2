import PipelineFusion.Binary64

/-!
# Stream values

The data that flows through a pipeline.  Two values are the same when they have the same shape and
the same leaves; floats are compared as numbers, so a value that holds a NaN differs from itself.
-/

namespace PipelineFusion

inductive Value where
  | null
  | bool (b : Bool)
  | int (n : Int64)
  | float (x : Float)
  | str (s : String)
  | list (items : List Value)
  deriving Inhabited

namespace Value

def isNull : Value → Bool
  | .null => true
  | _ => false

def asInt? : Value → Option Int64
  | .int n => some n
  | _ => none

/-- Integers are read as floats too, rounded to the nearest double. -/
def asFloat? : Value → Option Float
  | .float x => some x
  | .int n => some (Float.ofInt n.toInt)
  | _ => none

def asBool? : Value → Option Bool
  | .bool b => some b
  | _ => none

def asStr? : Value → Option String
  | .str s => some s
  | _ => none

def asList? : Value → Option (List Value)
  | .list items => some items
  | _ => none

def pair (first second : Value) : Value := .list [first, second]

/-- The first two entries of a list; what is missing is `null`, and a value that is no list is the
first component of its pair. -/
def intoPair : Value → Value × Value
  | .list items => (items.headD .null, items.tail.headD .null)
  | v => (v, .null)

@[simp] theorem intoPair_pair (v w : Value) : (pair v w).intoPair = (v, w) := rfl

mutual

def same : Value → Value → Bool
  | .null, .null => true
  | .bool a, .bool b => a == b
  | .int a, .int b => a == b
  | .float a, .float b => Binary64.same a b
  | .str a, .str b => a == b
  | .list a, .list b => sameAll a b
  | _, _ => false

def sameAll : List Value → List Value → Bool
  | [], [] => true
  | a :: as, b :: bs => same a b && sameAll as bs
  | _, _ => false

end

instance : BEq Value := ⟨same⟩

end Value
end PipelineFusion
