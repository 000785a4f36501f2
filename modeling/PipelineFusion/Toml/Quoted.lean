/-!
# TOML strings

A string is written in the plainest of four quotings that can hold it: basic, literal, and the long
forms of both, which may span lines.  Reading takes all four, with any escape of the format; a long
string may end in up to two quotes of its own before the closing three.
-/

namespace PipelineFusion.Toml

inductive Quoting where
  | basic
  | literal
  | longBasic
  | longLiteral
  deriving DecidableEq, Repr

/-- Controls other than tab and line feed have no place in any string unless they are escaped. -/
def isControl (c : Char) : Bool :=
  c.toNat < 32 && c != '\t' && c != '\n' || c.toNat == 127

/-- The longest run of `c`, the first one being longer by `n`. -/
def longestRun (c : Char) : Nat → List Char → Nat
  | n, [] => n
  | n, d :: ds => if d = c then longestRun c (n + 1) ds else max n (longestRun c 0 ds)

def Quoting.choose (cs : List Char) : Quoting :=
  let control := cs.any isControl
  let slash := cs.contains '\\'
  let line := cs.contains '\n'
  let singles := longestRun '\'' 0 cs
  let doubles := longestRun '"' 0 cs
  if !control && !slash && doubles = 0 && !line then .basic
  else if !control && singles = 0 && !line then .literal
  else if !control && !slash && doubles ≤ 2 then .longBasic
  else if !control && singles ≤ 2 then .longLiteral
  else if line then .longBasic
  else .basic

def upperHex (n : Nat) : Char := "0123456789ABCDEF".toList.getD n '0'

/-- The escape of a character that is neither a quote nor a line feed. -/
def escapeChar (c : Char) : List Char :=
  if c = '\\' then ['\\', '\\']
  else if c = '\t' then ['\\', 't']
  else if c = '\r' then ['\\', 'r']
  else if c.toNat = 8 then ['\\', 'b']
  else if c.toNat = 12 then ['\\', 'f']
  else if c.toNat < 32 ∨ c.toNat = 127 then
    ['\\', 'u', '0', '0', upperHex (c.toNat / 16), upperHex (c.toNat % 16)]
  else [c]

def escapeBasic : List Char → List Char
  | [] => []
  | c :: cs =>
    if c = '"' then '\\' :: '"' :: escapeBasic cs
    else if c = '\n' then '\\' :: 'n' :: escapeBasic cs
    else escapeChar c ++ escapeBasic cs

/-- In a long string line feeds stand for themselves, and so do quotes while there are no more than
two in a row; `run` counts those just written. -/
def escapeLong : Nat → List Char → List Char
  | _, [] => []
  | run, c :: cs =>
    if c = '"' then
      if run < 2 then '"' :: escapeLong (run + 1) cs else '\\' :: '"' :: escapeLong 0 cs
    else if c = '\n' then '\n' :: escapeLong 0 cs
    else escapeChar c ++ escapeLong 0 cs

/-- A long string that holds a line feed starts on a line of its own. -/
def opening (cs : List Char) : List Char := if cs.contains '\n' then ['\n'] else []

def tripleDouble : List Char := ['"', '"', '"']

def tripleSingle : List Char := ['\'', '\'', '\'']

def writeAs (q : Quoting) (cs : List Char) : List Char :=
  match q with
  | .basic => '"' :: escapeBasic cs ++ ['"']
  | .literal => '\'' :: cs ++ ['\'']
  | .longBasic => tripleDouble ++ opening cs ++ escapeLong 0 cs ++ tripleDouble
  | .longLiteral => tripleSingle ++ opening cs ++ cs ++ tripleSingle

def write (cs : List Char) : List Char := writeAs (.choose cs) cs

/-! ## Reading -/

/-- Characters that stand for themselves on one line. -/
def isPlain (c : Char) : Bool := c = '\t' || 32 ≤ c.toNat && c.toNat != 127

def hexDigit? (c : Char) : Option Nat :=
  if '0' ≤ c ∧ c ≤ '9' then some (c.toNat - 48)
  else if 'a' ≤ c ∧ c ≤ 'f' then some (c.toNat - 87)
  else if 'A' ≤ c ∧ c ≤ 'F' then some (c.toNat - 55)
  else none

def scalar? (digits : List Char) : Option Char := do
  let n ← digits.foldlM (fun n c ↦ (hexDigit? c).map (n * 16 + ·)) 0
  if n < 0xD800 ∨ 0xDFFF < n ∧ n < 0x110000 then some (Char.ofNat n) else none

def shortEscape? (c : Char) : Option Char :=
  match c with
  | 'b' => some (Char.ofNat 8)
  | 't' => some '\t'
  | 'n' => some '\n'
  | 'f' => some (Char.ofNat 12)
  | 'r' => some '\r'
  | 'e' => some (Char.ofNat 27)
  | '"' => some '"'
  | '\\' => some '\\'
  | _ => none

/-- Puts a character in front of what was read, if both are there. -/
def push (c : Option Char) (r : Option (List Char × List Char)) : Option (List Char × List Char) :=
  match c, r with
  | some c, some (s, rest) => some (c :: s, rest)
  | _, _ => none

/-- A basic string after its quote. -/
def readBasic : List Char → Option (List Char × List Char)
  | [] => none
  | '"' :: rest => some ([], rest)
  | '\\' :: 'x' :: a :: b :: rest => push (scalar? [a, b]) (readBasic rest)
  | '\\' :: 'u' :: a :: b :: c :: d :: rest => push (scalar? [a, b, c, d]) (readBasic rest)
  | '\\' :: 'U' :: a :: b :: c :: d :: e :: f :: g :: h :: rest =>
    push (scalar? [a, b, c, d, e, f, g, h]) (readBasic rest)
  | '\\' :: c :: rest => push (shortEscape? c) (readBasic rest)
  | c :: rest => if isPlain c && c != '\\' then push (some c) (readBasic rest) else none

def readLiteral : List Char → Option (List Char × List Char)
  | [] => none
  | c :: rest =>
    if c = '\'' then some ([], rest)
    else if isPlain c then push (some c) (readLiteral rest)
    else none

def isGap (c : Char) : Bool := c = ' ' || c = '\t'

/-- After a backslash: do only gaps stand between here and the end of the line? -/
def endsLine (cs : List Char) : Bool :=
  match cs.dropWhile isGap with
  | '\n' :: _ => true
  | '\r' :: '\n' :: _ => true
  | _ => false

/-- A long basic string after its quotes.  `skipping` is set behind a backslash that ends its line:
all gaps and line ends that follow are left out. -/
def readLongBasic : Bool → List Char → Option (List Char × List Char)
  | _, [] => none
  | _, '"' :: '"' :: '"' :: '"' :: '"' :: rest => some (['"', '"'], rest)
  | _, '"' :: '"' :: '"' :: '"' :: rest => some (['"'], rest)
  | _, '"' :: '"' :: '"' :: rest => some ([], rest)
  | _, '\\' :: 'x' :: a :: b :: rest => push (scalar? [a, b]) (readLongBasic false rest)
  | _, '\\' :: 'u' :: a :: b :: c :: d :: rest =>
    push (scalar? [a, b, c, d]) (readLongBasic false rest)
  | _, '\\' :: 'U' :: a :: b :: c :: d :: e :: f :: g :: h :: rest =>
    push (scalar? [a, b, c, d, e, f, g, h]) (readLongBasic false rest)
  | _, '\\' :: c :: rest =>
    if isGap c || c = '\n' || c = '\r' then
      if endsLine (c :: rest) then readLongBasic true (c :: rest) else none
    else push (shortEscape? c) (readLongBasic false rest)
  | skipping, '\r' :: '\n' :: rest =>
    if skipping then readLongBasic true rest
    else push (some '\r') (push (some '\n') (readLongBasic false rest))
  | skipping, c :: rest =>
    if skipping && (isGap c || c = '\n') then readLongBasic true rest
    else if (isPlain c || c = '\n') && c != '\\' then push (some c) (readLongBasic false rest)
    else none

def readLongLiteral : List Char → Option (List Char × List Char)
  | [] => none
  | '\'' :: '\'' :: '\'' :: '\'' :: '\'' :: rest => some (['\'', '\''], rest)
  | '\'' :: '\'' :: '\'' :: '\'' :: rest => some (['\''], rest)
  | '\'' :: '\'' :: '\'' :: rest => some ([], rest)
  | '\r' :: '\n' :: rest => push (some '\r') (push (some '\n') (readLongLiteral rest))
  | c :: rest => if isPlain c || c = '\n' then push (some c) (readLongLiteral rest) else none

/-- A line end right after the opening quotes is not part of the string. -/
def dropFirstLine : List Char → List Char
  | '\n' :: cs => cs
  | '\r' :: '\n' :: cs => cs
  | cs => cs

/-- A string in one of the two one-line forms. -/
def readShort : List Char → Option (List Char × List Char)
  | '"' :: cs => readBasic cs
  | '\'' :: cs => readLiteral cs
  | _ => none

def read : List Char → Option (List Char × List Char)
  | '"' :: '"' :: '"' :: cs => readLongBasic false (dropFirstLine cs)
  | '\'' :: '\'' :: '\'' :: cs => readLongLiteral (dropFirstLine cs)
  | cs => readShort cs

end PipelineFusion.Toml
