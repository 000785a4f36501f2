import PipelineFusion.Regex.Syntax

/-!
# Searching

A set of places in a text is kept as the bits of a natural number: bit `i` stands for the place
before the `i`-th character.  An expression takes the places where a match may start to the places
where it may end, so choice is union, sequence is composition, and a repetition grows its set until
nothing is added.
-/

namespace PipelineFusion.Regex

/-- The places below `n` that satisfy a test. -/
def places (n : Nat) (test : Nat → Bool) : Nat :=
  (List.range n).foldl (fun set i ↦ if test i then set ||| 1 <<< i else set) 0

/-- `n` rounds; a round that changes nothing makes all later ones superfluous. -/
def rounds (round : Nat → Nat) : Nat → Nat → Nat
  | 0, set => set
  | n + 1, set =>
    let next := round set
    if next = set then set else rounds round n next

/-- At most `n` rounds, the places of all of them together. -/
def upTo (round : Nat → Nat) : Nat → Nat → Nat
  | 0, set => set
  | n + 1, set =>
    let next := set ||| round set
    if next = set then set else upTo round n next

/-- The ends of all matches that start in the given places. -/
def ends (text : Array Char) : Regex → Nat → Nat
  | .empty, set => set
  | .one c, set =>
    (set &&& places text.size fun i ↦ text[i]?.any fun ch ↦ c.contains ch.toNat) <<< 1
  | .look l, set =>
    set &&& places (text.size + 1) fun i ↦
      l.holds (if i = 0 then none else text[i - 1]?) text[i]?
  | .seq a b, set => ends text b (ends text a set)
  | .alt a b, set => ends text a set ||| ends text b set
  | .repeated r least most, set =>
    let start := rounds (ends text r) least set
    let more := match most with
      | none => text.size + 1
      | some most => min (most - least) (text.size + 1)
    upTo (ends text r) more start

/-- Does the expression match anywhere in the text? -/
def isMatch (r : Regex) (text : String) : Bool :=
  let chars := text.toList.toArray
  ends chars r (Nat.pow 2 (chars.size + 1) - 1) != 0

end PipelineFusion.Regex
