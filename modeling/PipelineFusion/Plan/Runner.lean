import PipelineFusion.Plan.Node

/-!
# Running plans

The memory of a run is the list of all scan states of the plan, depth first.  A batch of values
passes a chain stage by stage: every value goes through the first node before any goes through the
second, and once nothing is left the nodes behind are not fed at all.  A composed branch passes the
outputs of its left plan one at a time to its right plan; a parallel one gives each value to both,
the outputs of the left plan first.
-/

namespace PipelineFusion

/-- Feeds values one after another, threading the memory and joining the outputs. -/
def feedAll {M : Type} (feed : M → Value → M × List Value) : M → List Value → M × List Value
  | memory, [] => (memory, [])
  | memory, x :: xs =>
    let (memory, out) := feed memory x
    let (memory, more) := feedAll feed memory xs
    (memory, out ++ more)

/-- Feeds a batch, unless it is empty. -/
def unlessEmpty {M : Type} (feed : M → List Value → M × List Value) (memory : M)
    (batch : List Value) : M × List Value :=
  if batch.isEmpty then (memory, batch) else feed memory batch

mutual

def Node.initial : Node → List Value
  | .leaf (.scan init _) _ => [init]
  | .leaf _ _ => []
  | .branch _ left right _ => Plan.initial left ++ Plan.initial right

/-- The scan states before the first value. -/
def Plan.initial : Plan → List Value
  | [] => []
  | node :: rest => node.initial ++ Plan.initial rest

end

/-- The number of scans. -/
def Node.scans (node : Node) : Nat := node.initial.length

def Plan.scans (p : Plan) : Nat := (Plan.initial p).length

def Stage.feed : Stage → List Value → Value → List Value × List Value
  | .map f, memory, x => (memory, [f.run x])
  | .filter p, memory, x => (memory, if p.run x then [x] else [])
  | .filterMap f, memory, x => (memory, (f.run x).toList)
  | .scan _ step, memory, x =>
    let (state, y) := step.run (memory.headD .null) x
    ([state], [y])
  | .flatMap f, memory, x => (memory, f.run x)

mutual

def Node.feed : Node → List Value → Value → List Value × List Value
  | .leaf stage _, memory, x => stage.feed memory x
  | .branch .compose left right _, memory, x =>
    let n := Plan.scans left
    let (first, middle) := Plan.flow left (memory.take n) [x]
    let (second, out) := feedAll (fun m y ↦ Plan.flow right m [y]) (memory.drop n) middle
    (first ++ second, out)
  | .branch .parallel left right _, memory, x =>
    let n := Plan.scans left
    let (first, out) := Plan.flow left (memory.take n) [x]
    let (second, more) := Plan.flow right (memory.drop n) [x]
    (first ++ second, out ++ more)

/-- Passes a batch through a chain: the new memory, and what comes out at the end. -/
def Plan.flow : Plan → List Value → List Value → List Value × List Value
  | [], memory, batch => (memory, batch)
  | node :: rest, memory, batch =>
    let n := node.scans
    let (first, middle) := feedAll node.feed (memory.take n) batch
    let (second, out) := unlessEmpty (Plan.flow rest) (memory.drop n) middle
    (first ++ second, out)

end

/-- A plan with the states its scans have reached. -/
structure Runner where
  plan : Plan
  states : List Value

namespace Runner

def start (plan : Plan) : Runner := ⟨plan, Plan.initial plan⟩

def push (r : Runner) (x : Value) : Runner × List Value :=
  let (states, out) := Plan.flow r.plan r.states [x]
  ({ r with states }, out)

def pushAll (r : Runner) (xs : List Value) : Runner × List Value := feedAll push r xs

end Runner

/-- All outputs of a fresh run. -/
def Plan.outputs (p : Plan) (inputs : List Value) : List Value :=
  ((Runner.start p).pushAll inputs).2

end PipelineFusion
