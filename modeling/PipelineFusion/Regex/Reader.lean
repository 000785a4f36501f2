import PipelineFusion.Regex.Syntax

/-!
# Reading expressions

The notation: literals, `.`, `^`, `$`, classes in brackets with ranges, nesting and set operations,
groups with names and flags, choice, repetition, and escapes.  What the notation has no meaning for
is refused: look-around, back-references, named properties, and expressions that unfold to too many
states.
-/

namespace PipelineFusion.Regex

structure Flags where
  ignoreCase : Bool := false
  multiLine : Bool := false
  dotAll : Bool := false
  carriage : Bool := false
  ascii : Bool := false
  verbose : Bool := false

def isBlank (c : Char) : Bool := Letter.within Letter.spaces c.toNat

/-- Drops blanks and comments; the flag says whether a comment is open. -/
def dropRemarks : Bool → List Char → List Char
  | _, [] => []
  | true, c :: cs => dropRemarks (c != '\n') cs
  | false, c :: cs =>
    if c = '#' then dropRemarks true cs
    else if isBlank c then dropRemarks false cs
    else c :: cs

def Flags.skip (flags : Flags) (cs : List Char) : List Char :=
  if flags.verbose then dropRemarks false cs else cs

/-- Case is ignored within ASCII when only ASCII letters count as letters. -/
def Flags.fold (flags : Flags) (c : CharClass) : CharClass :=
  if !flags.ignoreCase then c
  else if flags.ascii then .inter (.caseless c) .ascii
  else .caseless c

/-- A literal; a letter outside ASCII has no case to ignore among the ASCII letters. -/
def Flags.literal? (flags : Flags) (c : Char) : Option Regex :=
  if flags.ascii && flags.ignoreCase && 127 < c.toNat then none
  else some (.one (flags.fold (.single c)))

/-- Where only ASCII counts, a class that reaches the bytes above it is refused. -/
def Flags.bounded? (flags : Flags) (c : CharClass) : Option CharClass :=
  if !flags.ascii then some c
  else if (List.range 128).any fun i ↦ c.contains (128 + i) then none
  else some (.inter c .ascii)

def hexDigit? (c : Char) : Option Nat :=
  if '0' ≤ c ∧ c ≤ '9' then some (c.toNat - 48)
  else if 'a' ≤ c ∧ c ≤ 'f' then some (c.toNat - 87)
  else if 'A' ≤ c ∧ c ≤ 'F' then some (c.toNat - 55)
  else none

def scalar? (digits : List Char) : Option Char := do
  let n ← digits.foldlM (fun n c ↦ (hexDigit? c).map (n * 16 + ·)) 0
  if n < 0xD800 ∨ 0xDFFF < n ∧ n < 0x110000 then some (Char.ofNat n) else none

/-- A code point in braces, or in exactly `width` digits. -/
def readHex (width : Nat) : List Char → Option (Char × List Char)
  | '\x7b' :: cs =>
    match cs.dropWhile (· != '\x7d') with
    | _ :: rest =>
      let digits := cs.takeWhile (· != '\x7d')
      if digits.isEmpty then none else (scalar? digits).map fun c ↦ (c, rest)
    | [] => none
  | cs =>
    if cs.length < width then none else (scalar? (cs.take width)).map fun c ↦ (c, cs.drop width)

/-- What an escape stands for. -/
inductive Escaped where
  | char (c : Char)
  | charClass (c : CharClass)
  | look (l : Look)

def shorthand? (ascii : Bool) (c : Char) : Option CharClass :=
  match c with
  | 'd' => some (if ascii then .asciiDigit else .digit)
  | 's' => some (if ascii then .asciiSpace else .space)
  | 'w' => some (if ascii then .asciiWord else .word)
  | 'D' => some (.complement (if ascii then .asciiDigit else .digit))
  | 'S' => some (.complement (if ascii then .asciiSpace else .space))
  | 'W' => some (.complement (if ascii then .asciiWord else .word))
  | _ => none

def control? (c : Char) : Option Char :=
  match c with
  | 'a' => some (Char.ofNat 7)
  | 'f' => some (Char.ofNat 12)
  | 't' => some '\t'
  | 'n' => some '\n'
  | 'r' => some '\r'
  | 'v' => some (Char.ofNat 11)
  | _ => none

/-- Every ASCII sign may be escaped; the two angle brackets then mark the ends of words. -/
def isSign (c : Char) : Bool :=
  c.toNat < 128 && !c.isAlphanum && c != '<' && c != '>'

def namedBorder? (name : String) : Option Border :=
  match name with
  | "start" => some .start
  | "end" => some .finish
  | "start-half" => some .startHalf
  | "end-half" => some .finishHalf
  | _ => none

/-- After `\b`: a border may be named in braces.  Braces that cannot open a name are left alone. -/
def readBorder (ascii : Bool) (cs : List Char) : Option (Escaped × List Char) :=
  match cs with
  | '\x7b' :: rest =>
    let isNameChar (c : Char) : Bool := c.isAlpha || c = '-'
    let name := rest.takeWhile isNameChar
    if name.isEmpty then some (.look (.border .edge ascii), cs)
    else match rest.dropWhile isNameChar with
      | '\x7d' :: rest =>
        (namedBorder? (String.ofList name)).map fun b ↦ (.look (.border b ascii), rest)
      | _ => none
  | _ => some (.look (.border .edge ascii), cs)

/-- What follows a backslash. -/
def readEscape (ascii : Bool) : List Char → Option (Escaped × List Char)
  | [] => none
  | 'x' :: cs => do
    let (c, rest) ← readHex 2 cs
    if ascii && 127 < c.toNat && cs.head? != some '\x7b' then none else some (.char c, rest)
  | 'u' :: cs => (readHex 4 cs).map fun r ↦ (.char r.1, r.2)
  | 'U' :: cs => (readHex 8 cs).map fun r ↦ (.char r.1, r.2)
  | 'A' :: cs => some (.look .textStart, cs)
  | 'z' :: cs => some (.look .textEnd, cs)
  | 'b' :: cs => readBorder ascii cs
  | 'B' :: cs => some (.look (.border .inside ascii), cs)
  | '<' :: cs => some (.look (.border .start ascii), cs)
  | '>' :: cs => some (.look (.border .finish ascii), cs)
  | c :: cs =>
    match shorthand? ascii c, control? c with
    | some s, _ => some (.charClass s, cs)
    | none, some c => some (.char c, cs)
    | none, none => if isSign c then some (.char c, cs) else none

/-! ## Classes in brackets -/

def posix? (name : String) : Option CharClass :=
  match name with
  | "alnum" => some (.ofRanges [(48, 57), (65, 90), (97, 122)])
  | "alpha" => some (.ofRanges [(65, 90), (97, 122)])
  | "ascii" => some .ascii
  | "blank" => some (.ofRanges [(9, 9), (32, 32)])
  | "cntrl" => some (.ofRanges [(0, 31), (127, 127)])
  | "digit" => some .asciiDigit
  | "graph" => some (.range 33 126)
  | "lower" => some (.range 97 122)
  | "print" => some (.range 32 126)
  | "punct" => some (.ofRanges [(33, 47), (58, 64), (91, 96), (123, 126)])
  | "space" => some .asciiSpace
  | "upper" => some (.range 65 90)
  | "word" => some .asciiWord
  | "xdigit" => some (.ofRanges [(48, 57), (65, 70), (97, 102)])
  | _ => none

/-- A named class such as `[:alpha:]` or `[:^alpha:]`, after its first bracket. -/
def readPosix? : List Char → Option (CharClass × List Char)
  | ':' :: cs =>
    let (negated, cs) := match cs with
      | '^' :: cs => (true, cs)
      | cs => (false, cs)
    match cs.dropWhile (· != ':') with
    | ':' :: ']' :: rest =>
      (posix? (String.ofList (cs.takeWhile (· != ':')))).map fun c ↦
        (if negated then .complement c else c, rest)
    | _ => none
  | _ => none

inductive SetOperation where
  | intersection
  | difference
  | symmetric

/-- Operands are folded before they are combined. -/
def combine (flags : Flags) : Option (SetOperation × CharClass) → CharClass → CharClass
  | none, b => b
  | some (.intersection, a), b => .inter (flags.fold a) (flags.fold b)
  | some (.difference, a), b => .inter (flags.fold a) (.complement (flags.fold b))
  | some (.symmetric, a), b =>
    .union (.inter (flags.fold a) (.complement (flags.fold b)))
      (.inter (flags.fold b) (.complement (flags.fold a)))

/-- One member of a class: a character, plain or escaped, or a shorthand. -/
def readMember (flags : Flags) : List Char → Option (Escaped × List Char)
  | [] => none
  | '\\' :: cs => readEscape flags.ascii cs
  | c :: cs => some (.char c, cs)

def memberClass? (flags : Flags) : Escaped → Option CharClass
  | .char c => if flags.ascii && 127 < c.toNat then none else some (.single c)
  | .charClass c => some c
  | .look _ => none

/-- A member, or a range between two characters.  A dash before the closing bracket or before
another dash is no range. -/
def readSpan (flags : Flags) (cs : List Char) : Option (CharClass × List Char) := do
  let (first, cs) ← readMember flags cs
  match flags.skip cs with
  | [] => none
  | '-' :: rest =>
    let rest := flags.skip rest
    if rest.head? = some ']' ∨ rest.head? = some '-' then
      some (← memberClass? flags first, flags.skip cs)
    else
      let (last, rest) ← readMember flags rest
      let _ ← memberClass? flags first
      let _ ← memberClass? flags last
      match first, last with
      | .char a, .char b => if a ≤ b then some (.range a.toNat b.toNat, rest) else none
      | _, _ => none
  | rest => some (← memberClass? flags first, rest)

/-- Members up to the closing bracket.  `left` is the pending operation with its left operand. -/
def readMembers (flags : Flags) (nested : List Char → Option (CharClass × List Char)) :
    Nat → Option (SetOperation × CharClass) → CharClass → List Char →
      Option (CharClass × List Char)
  | 0, _, _, _ => none
  | bound + 1, left, found, cs =>
    let pending (op : SetOperation) := some (op, combine flags left found)
    match flags.skip cs with
    | [] => none
    | ']' :: cs => some (combine flags left found, cs)
    | '[' :: cs =>
      match readPosix? cs with
      | some (c, cs) => readMembers flags nested bound left (.union found c) cs
      | none => do
        let (c, cs) ← nested cs
        readMembers flags nested bound left (.union found c) cs
    | '&' :: '&' :: cs => readMembers flags nested bound (pending .intersection) .never cs
    | '-' :: '-' :: cs => readMembers flags nested bound (pending .difference) .never cs
    | '~' :: '~' :: cs => readMembers flags nested bound (pending .symmetric) .never cs
    | cs => do
      let (c, cs) ← readSpan flags cs
      readMembers flags nested bound left (.union found c) cs

def dash : CharClass := .single '-'

/-- A class after its opening bracket: dashes at the start are literal, and so is a closing bracket
that comes first. -/
def readClass (flags : Flags) : Nat → List Char → Option (CharClass × List Char)
  | 0, _ => none
  | room + 1, cs => do
    let cs := flags.skip cs
    let (negated, cs) := match cs with
      | '^' :: cs => (true, flags.skip cs)
      | cs => (false, cs)
    let (found, rest) := match cs with
      | '-' :: cs => (dash, cs.dropWhile (· = '-'))
      | ']' :: cs => (.single ']', cs)
      | cs => (.never, cs)
    let (c, rest) ← readMembers flags (readClass flags room) (rest.length + 1) none found rest
    let c := flags.fold c
    some (if negated then .complement c else c, rest)

/-! ## Repetition -/

/-- A count, which may have blanks around it and has to fit thirty-two bits. -/
def readCount (cs : List Char) : Option (Nat × List Char) :=
  let cs := cs.dropWhile isBlank
  let digits := cs.takeWhile Char.isDigit
  let n := digits.foldl (fun n c ↦ n * 10 + (c.toNat - 48)) 0
  if digits.isEmpty ∨ Nat.pow 2 32 ≤ n then none
  else some (n, (cs.dropWhile Char.isDigit).dropWhile isBlank)

/-- Bounds after an opening brace, which must not cross. -/
def readBounds (flags : Flags) (cs : List Char) : Option ((Nat × Option Nat) × List Char) := do
  let (least, cs) ← readCount (flags.skip cs)
  let (bounds, cs) ← match cs with
    | ',' :: cs =>
      match flags.skip cs with
      | '\x7d' :: cs => some ((least, none), '\x7d' :: cs)
      | cs => (readCount cs).map fun r ↦ ((least, some r.1), r.2)
    | cs => some ((least, some least), cs)
  match cs with
  | '\x7d' :: cs => if bounds.2.all (least ≤ ·) then some (bounds, cs) else none
  | _ => none

/-- A question mark after a repetition asks for few rounds, which does not bear on whether there is
a match. -/
def dropPreference (flags : Flags) (cs : List Char) : List Char :=
  match flags.skip cs with
  | '?' :: cs => cs
  | cs => cs

/-- Applies all repetition signs that follow an expression. -/
def readRepeats (flags : Flags) : Nat → Regex → List Char → Option (Regex × List Char)
  | 0, r, cs => some (r, cs)
  | bound + 1, r, cs =>
    match flags.skip cs with
    | '*' :: cs => readRepeats flags bound (.repeated r 0 none) (dropPreference flags cs)
    | '+' :: cs => readRepeats flags bound (.repeated r 1 none) (dropPreference flags cs)
    | '?' :: cs => readRepeats flags bound (.repeated r 0 (some 1)) (dropPreference flags cs)
    | '\x7b' :: cs => do
      let ((least, most), cs) ← readBounds flags cs
      readRepeats flags bound (.repeated r least most) (dropPreference flags cs)
    | cs => some (r, cs)

/-! ## Groups -/

/-- The flags in force and the group names already taken. -/
structure Context where
  flags : Flags := {}
  names : List String := []

def isNameStart (c : Char) : Bool :=
  c = '_' || c.isAlpha || 127 < c.toNat && CharClass.word.contains c.toNat

def isNameChar (c : Char) : Bool :=
  isNameStart c || c.isDigit || c = '.' || c = '[' || c = ']'

/-- A new name up to its closing angle bracket. -/
def readName (ctx : Context) (cs : List Char) : Option (Context × List Char) :=
  let name := cs.takeWhile (· != '>')
  let text := String.ofList name
  match cs.dropWhile (· != '>') with
  | _ :: rest =>
    if name.head?.any isNameStart && name.all isNameChar && !ctx.names.contains text then
      some ({ ctx with names := text :: ctx.names }, rest)
    else none
  | [] => none

def Flags.set? (flags : Flags) (on : Bool) (c : Char) : Option Flags :=
  match c with
  | 'i' => some { flags with ignoreCase := on }
  | 'm' => some { flags with multiLine := on }
  | 's' => some { flags with dotAll := on }
  | 'U' => some flags
  | 'u' => some { flags with ascii := !on }
  | 'R' => some { flags with carriage := on }
  | 'x' => some { flags with verbose := on }
  | _ => none

/-- Flag letters, those after a dash switched off.  A letter or a dash that comes twice is refused,
and so is a dash with nothing to switch off. -/
def readFlags (seen : List Char) (on : Bool) (flags : Flags) :
    List Char → Option (Flags × List Char)
  | [] => none
  | '-' :: cs =>
    if on ∧ cs.head? ≠ some ':' ∧ cs.head? ≠ some ')' then readFlags seen false flags cs else none
  | c :: cs =>
    if c = ':' ∨ c = ')' then some (flags, c :: cs)
    else if seen.contains c then none
    else match flags.set? on c with
      | some flags => readFlags (c :: seen) on flags cs
      | none => none

/-- What an opening parenthesis starts: a change of flags up to the end of the enclosing group, or a
group with the context of its body. -/
inductive Opening where
  | switch (flags : Flags)
  | group (ctx : Context)

def readOpening (ctx : Context) (cs : List Char) : Option (Opening × List Char) :=
  match ctx.flags.skip cs with
  | '?' :: 'P' :: '<' :: cs => (readName ctx cs).map fun r ↦ (.group r.1, r.2)
  | '?' :: '<' :: cs =>
    if cs.head? = some '=' ∨ cs.head? = some '!' then none
    else (readName ctx cs).map fun r ↦ (.group r.1, r.2)
  | '?' :: cs => do
    let (flags, rest) ← readFlags [] true ctx.flags cs
    match rest with
    | ')' :: rest => if cs.head? = some ')' then none else some (.switch flags, rest)
    | _ :: rest => some (.group { ctx with flags }, rest)
    | [] => none
  | cs => some (.group ctx, cs)

def dot? (flags : Flags) : Option CharClass :=
  if flags.ascii then none
  else if flags.dotAll then some (.range 0 0x10FFFF)
  else if flags.carriage then some (.complement (.ofRanges [(10, 10), (13, 13)]))
  else some (.complement (.single '\n'))

/-- One expression without its repetition signs, where no group opens. -/
def readAtom (flags : Flags) : List Char → Option (Regex × List Char)
  | [] => none
  | '.' :: cs => (dot? flags).map fun c ↦ (.one c, cs)
  | '^' :: cs =>
    some (.look (if flags.multiLine then .lineStart flags.carriage else .textStart), cs)
  | '$' :: cs =>
    some (.look (if flags.multiLine then .lineEnd flags.carriage else .textEnd), cs)
  | '[' :: cs => do
    let (c, cs) ← readClass flags 250 cs
    some (.one (← flags.bounded? c), cs)
  | '\\' :: cs => do
    match ← readEscape flags.ascii cs with
    | (.char c, cs) => some (← flags.literal? c, cs)
    | (.charClass c, cs) => some (.one (← flags.bounded? c), cs)
    | (.look l, cs) => some (.look l, cs)
  | c :: cs =>
    if c = '*' ∨ c = '+' ∨ c = '?' ∨ c = '\x7b' then none
    else (flags.literal? c).map fun r ↦ (r, cs)

/-- Reads up to the end of the enclosing group.  `choice` holds the finished alternatives and
`last` the sequence so far. -/
def readBody (group : Context → List Char → Option (Regex × Context × List Char)) :
    Nat → Context → Option Regex → Regex → List Char → Option (Regex × Context × List Char)
  | 0, _, _, _, _ => none
  | bound + 1, ctx, choice, last, cs =>
    let whole := match choice with
      | none => last
      | some r => .alt r last
    match ctx.flags.skip cs with
    | [] => some (whole, ctx, [])
    | ')' :: cs => some (whole, ctx, ')' :: cs)
    | '|' :: cs => readBody group bound ctx (some whole) .empty cs
    | '(' :: cs => do
      match ← readOpening ctx cs with
      | (.switch flags, cs) => readBody group bound { ctx with flags } choice last cs
      | (.group inner, cs) =>
        let (r, inner, cs) ← group inner cs
        match cs with
        | ')' :: cs =>
          let (r, cs) ← readRepeats ctx.flags cs.length r cs
          readBody group bound { ctx with names := inner.names } choice (.seq last r) cs
        | _ => none
    | cs => do
      let (r, cs) ← readAtom ctx.flags cs
      let (r, cs) ← readRepeats ctx.flags cs.length r cs
      readBody group bound ctx choice (.seq last r) cs

/-- Reads a body in which groups nest at most `room` deep. -/
def readNested : Nat → Context → List Char → Option (Regex × Context × List Char)
  | 0, _, _ => none
  | room + 1, ctx, cs => readBody (readNested room) (cs.length + 1) ctx none .empty cs

/-- About ten mebibytes of states. -/
def stateLimit : Nat := 327680

def ofString? (pattern : String) : Option Regex :=
  match readNested 250 {} pattern.toList with
  | some (r, _, []) => if r.states ≤ stateLimit then some r else none
  | _ => none

end PipelineFusion.Regex
