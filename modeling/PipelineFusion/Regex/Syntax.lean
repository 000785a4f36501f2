import PipelineFusion.Regex.Letter

/-!
# Regular expressions

Expressions over single characters, looks at the place between two characters, sequence, choice and
counted repetition.  Whether a repetition prefers few or many rounds is not kept: only the
existence of a match is asked for.
-/

namespace PipelineFusion

inductive CharClass where
  | never
  | range (low high : Nat)
  | space
  | digit
  | word
  | complement (c : CharClass)
  | union (a b : CharClass)
  | inter (a b : CharClass)
  | caseless (c : CharClass)

namespace CharClass

def contains : CharClass → Nat → Bool
  | .never, _ => false
  | .range low high, n => low ≤ n && n ≤ high
  | .space, n => Letter.within Letter.spaces n
  | .digit, n => Letter.within Letter.digits n
  | .word, n => Letter.within Letter.words n
  | .complement c, n => !c.contains n
  | .union a b, n => a.contains n || b.contains n
  | .inter a b, n => a.contains n && b.contains n
  | .caseless c, n => (Letter.caseOrbit n).any c.contains

def single (c : Char) : CharClass := .range c.toNat c.toNat

def ofRanges : List (Nat × Nat) → CharClass
  | [] => .never
  | [(low, high)] => .range low high
  | (low, high) :: ranges => .union (.range low high) (ofRanges ranges)

def ascii : CharClass := .range 0 127

def asciiDigit : CharClass := .range 48 57

def asciiSpace : CharClass := ofRanges [(9, 13), (32, 32)]

def asciiWord : CharClass := ofRanges [(48, 57), (65, 90), (95, 95), (97, 122)]

/-- A bound on the states that a class takes once its characters are spelled in bytes. -/
def states : CharClass → Nat
  | .never => 1
  | .range _ high => if high < 128 then 1 else 4
  | .space => 12
  | .digit => 100
  | .word => 700
  | .complement c => 8 + c.states
  | .union a b => max a.states b.states
  | .inter a b => max a.states b.states
  | .caseless c => c.states

end CharClass

/-- How word characters lie around a place. -/
inductive Border where
  | edge
  | inside
  | start
  | finish
  | startHalf
  | finishHalf
  deriving DecidableEq, Repr

inductive Look where
  | textStart
  | textEnd
  | lineStart (carriage : Bool)
  | lineEnd (carriage : Bool)
  | border (kind : Border) (ascii : Bool)
  deriving DecidableEq, Repr

namespace Look

def isWord (ascii : Bool) (c : Option Char) : Bool :=
  c.any fun c ↦ (if ascii then CharClass.asciiWord else .word).contains c.toNat

/-- Does the look succeed between these two characters?  There is none at the ends of the text. -/
def holds (look : Look) (before after : Option Char) : Bool :=
  match look with
  | .textStart => before.isNone
  | .textEnd => after.isNone
  | .lineStart carriage =>
    before.all (· = '\n') || carriage && before = some '\r' && after != some '\n'
  | .lineEnd carriage =>
    if carriage then after.all (· = '\r') || after = some '\n' && before != some '\r'
    else after.all (· = '\n')
  | .border kind ascii =>
    let b := isWord ascii before
    let a := isWord ascii after
    match kind with
    | .edge => b != a
    | .inside => b == a
    | .start => !b && a
    | .finish => b && !a
    | .startHalf => !b
    | .finishHalf => !a

end Look

inductive Regex where
  | empty
  | one (c : CharClass)
  | look (l : Look)
  | seq (a b : Regex)
  | alt (a b : Regex)
  | repeated (r : Regex) (least : Nat) (most : Option Nat)

namespace Regex

/-- How many states the expression unfolds to when each repetition is written out. -/
def states : Regex → Nat
  | .empty => 1
  | .one c => c.states
  | .look _ => 1
  | .seq a b => a.states + b.states
  | .alt a b => a.states + b.states + 1
  | .repeated r least most => (most.getD least + 1) * r.states + 1

end Regex
end PipelineFusion
