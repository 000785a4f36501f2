/-!
# TOML scalars

The values that are written without quotes: truth values, numbers and moments.  Integers keep their
value; of floats and moments only the well-formedness is kept.
-/

namespace PipelineFusion.Toml

inductive Scalar where
  | boolean (b : Bool)
  | integer (n : Int)
  | real
  | moment
  deriving DecidableEq, Repr

/-- Digits with single underscores between them; `inside` is set after a digit.  The digits come
back without the underscores. -/
def digits? (isDigit : Char → Bool) : Bool → List Char → Option (List Char)
  | inside, [] => if inside then some [] else none
  | inside, c :: cs =>
    if isDigit c then (digits? isDigit true cs).map (c :: ·)
    else if c = '_' ∧ inside ∧ cs.head?.any isDigit then digits? isDigit true cs
    else none

def digitValue (c : Char) : Nat :=
  if c.isDigit then c.toNat - 48
  else if 'a' ≤ c then c.toNat - 87
  else c.toNat - 55

def ofDigits (base : Nat) (ds : List Char) : Nat :=
  ds.foldl (fun n c ↦ n * base + digitValue c) 0

def isHexDigit (c : Char) : Bool :=
  c.isDigit || 'a' ≤ c && c ≤ 'f' || 'A' ≤ c && c ≤ 'F'

def isOctalDigit (c : Char) : Bool := '0' ≤ c && c ≤ '7'

def isBinaryDigit (c : Char) : Bool := c = '0' || c = '1'

/-- Decimal digits without a superfluous zero in front. -/
def whole? (cs : List Char) : Option (List Char) := do
  let ds ← digits? Char.isDigit false cs
  if ds.head? = some '0' ∧ 1 < ds.length then none else some ds

def splitSign : List Char → Bool × List Char
  | '-' :: cs => (true, cs)
  | '+' :: cs => (false, cs)
  | cs => (false, cs)

/-- Integers have to fit a machine word of 128 bits, with or without sign. -/
def bounded? (n : Int) : Option Int :=
  if -Int.pow 2 127 ≤ n ∧ n < Int.pow 2 128 then some n else none

def integer? (cs : List Char) : Option Int :=
  match cs with
  | '0' :: 'x' :: ds => (digits? isHexDigit false ds).bind (bounded? <| ofDigits 16 ·)
  | '0' :: 'o' :: ds => (digits? isOctalDigit false ds).bind (bounded? <| ofDigits 8 ·)
  | '0' :: 'b' :: ds => (digits? isBinaryDigit false ds).bind (bounded? <| ofDigits 2 ·)
  | cs => do
    let (minus, ds) := splitSign cs
    let n : Int := ofDigits 10 (← whole? ds)
    bounded? (if minus then -n else n)

/-- Would `significand * 10 ^ exponent` round to an infinite double? -/
def overflows (significand : Nat) (exponent : Int) : Bool :=
  if significand = 0 then false
  else
    let length : Int := (Nat.toDigits 10 significand).length
    if length + exponent < 300 then false
    else if 310 < length + exponent then true
    else (Nat.pow 2 54 - 1) * Nat.pow 2 970 * Nat.pow 10 (-exponent).toNat ≤
        significand * Nat.pow 10 exponent.toNat

/-- A float has a fraction, an exponent or both, and has to be finite unless it says otherwise. -/
def isReal (cs : List Char) : Bool :=
  let (_, cs) := splitSign cs
  if cs = ['i', 'n', 'f'] ∨ cs = ['n', 'a', 'n'] then true
  else
    let isMark (c : Char) : Bool := c = 'e' || c = 'E'
    let mantissa := cs.takeWhile (!isMark ·)
    let power := cs.dropWhile (!isMark ·)
    let exponent : Option (Option Int) := match power with
      | [] => some none
      | _ :: power =>
        let (minus, ds) := splitSign power
        (digits? Char.isDigit false ds).map fun ds ↦
          let n : Int := ofDigits 10 ds
          some (if minus then -n else n)
    let fraction : Option (Option (List Char)) := match mantissa.dropWhile (· != '.') with
      | [] => some none
      | _ :: ds => (digits? Char.isDigit false ds).map some
    match whole? (mantissa.takeWhile (· != '.')), fraction, exponent with
    | some _, some none, some none => false
    | some ds, some fs, some e =>
      let fs := fs.getD []
      !overflows (ofDigits 10 (ds ++ fs)) (e.getD 0 - fs.length)
    | _, _, _ => false

/-! ## Moments -/

def number? (cs : List Char) : Option Nat :=
  if cs.all Char.isDigit then some (ofDigits 10 cs) else none

def daysOf (year month : Nat) : Nat :=
  if month = 2 then
    if year % 4 = 0 ∧ (year % 100 ≠ 0 ∨ year % 400 = 0) then 29 else 28
  else if month = 4 ∨ month = 6 ∨ month = 9 ∨ month = 11 then 30
  else 31

def isDate : List Char → Bool
  | [y₁, y₂, y₃, y₄, '-', m₁, m₂, '-', d₁, d₂] =>
    match number? [y₁, y₂, y₃, y₄], number? [m₁, m₂], number? [d₁, d₂] with
    | some y, some m, some d => 1 ≤ m && m ≤ 12 && 1 ≤ d && d ≤ daysOf y m
    | _, _, _ => false
  | _ => false

def isHourMinute : List Char → Bool
  | [h₁, h₂, ':', m₁, m₂] =>
    match number? [h₁, h₂], number? [m₁, m₂] with
    | some h, some m => h ≤ 23 && m ≤ 59
    | _, _ => false
  | _ => false

/-- Hours and minutes, and seconds with an optional fraction if they are given. -/
def isTime (cs : List Char) : Bool :=
  isHourMinute (cs.take 5) &&
    match cs.drop 5 with
    | [] => true
    | ':' :: s₁ :: s₂ :: fraction =>
      (number? [s₁, s₂]).any (· ≤ 60) &&
        match fraction with
        | [] => true
        | '.' :: ds => !ds.isEmpty && ds.all Char.isDigit
        | _ => false
    | _ => false

/-- A time, alone or with its distance from universal time. -/
def isOffsetTime (cs : List Char) : Bool :=
  let isMark (c : Char) : Bool := c = 'Z' || c = 'z' || c = '+' || c = '-'
  isTime (cs.takeWhile (!isMark ·)) &&
    match cs.dropWhile (!isMark ·) with
    | [] => true
    | ['Z'] => true
    | ['z'] => true
    | '+' :: offset => isHourMinute offset
    | '-' :: offset => isHourMinute offset
    | _ => false

def isMoment (cs : List Char) : Bool :=
  isTime cs ||
    isDate (cs.take 10) &&
      match cs.drop 10 with
      | [] => true
      | c :: time => (c = 'T' || c = 't' || c = ' ') && isOffsetTime time

def scalarOf? (cs : List Char) : Option Scalar :=
  if cs = "true".toList then some (.boolean true)
  else if cs = "false".toList then some (.boolean false)
  else match integer? cs with
    | some n => some (.integer n)
    | none =>
      if isReal cs then some .real
      else if isMoment cs then some .moment
      else none

def isScalarChar (c : Char) : Bool :=
  c.isAlphanum || c = '+' || c = '-' || c = '.' || c = ':' || c = '_'

/-- The longest run of scalar characters; a date may be followed by a blank and a time. -/
def readScalar (cs : List Char) : Option (Scalar × List Char) :=
  let word := cs.takeWhile isScalarChar
  match cs.dropWhile isScalarChar with
  | ' ' :: c :: rest =>
    if isDate word && c.isDigit then
      let word := word ++ ' ' :: (c :: rest).takeWhile isScalarChar
      (scalarOf? word).map fun s ↦ (s, (c :: rest).dropWhile isScalarChar)
    else (scalarOf? word).map fun s ↦ (s, ' ' :: c :: rest)
  | rest => (scalarOf? word).map fun s ↦ (s, rest)

end PipelineFusion.Toml
