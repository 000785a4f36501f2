import PipelineFusion.Toml.Quoted
import PipelineFusion.Toml.Table

/-!
# Reading TOML

A document is a sequence of lines: headers, assignments, comments and empty lines.  An assignment
adds to the table of the last header before it.
-/

namespace PipelineFusion.Toml

/-- What is left after a comment, at its line end; `none` if the comment holds a control. -/
def dropComment : List Char → Option (List Char)
  | [] => some []
  | '\n' :: cs => some ('\n' :: cs)
  | '\r' :: '\n' :: cs => some ('\r' :: '\n' :: cs)
  | c :: cs => if isPlain c then dropComment cs else none

def dropGaps (cs : List Char) : List Char := cs.dropWhile isGap

/-- The end of a statement: gaps, perhaps a comment, and a line end unless the document ends. -/
def endLine (cs : List Char) : Option (List Char) := do
  let cs ← match dropGaps cs with
    | '#' :: cs => dropComment cs
    | cs => some cs
  match cs with
  | [] => some []
  | '\n' :: cs => some cs
  | '\r' :: '\n' :: cs => some cs
  | _ => none

/-- Gaps, line ends and comments between the entries of a bracket; `inside` is set in a comment. -/
def dropFiller : Bool → List Char → Option (List Char)
  | _, [] => some []
  | _, '\n' :: cs => dropFiller false cs
  | _, '\r' :: '\n' :: cs => dropFiller false cs
  | true, c :: cs => if isPlain c then dropFiller true cs else none
  | false, c :: cs =>
    if isGap c then dropFiller false cs
    else if c = '#' then dropFiller true cs
    else some (c :: cs)

/-! ## Keys -/

def isBare (c : Char) : Bool := c.isAlphanum || c = '_' || c = '-'

def readName : List Char → Option (String × List Char)
  | '"' :: cs => (readBasic cs).map fun r ↦ (String.ofList r.1, r.2)
  | '\'' :: cs => (readLiteral cs).map fun r ↦ (String.ofList r.1, r.2)
  | cs =>
    let name := cs.takeWhile isBare
    if name.isEmpty then none else some (String.ofList name, cs.dropWhile isBare)

/-- Names joined by dots: the path, and the name at its end. -/
def readKey : Nat → List Char → Option ((List String × String) × List Char)
  | 0, _ => none
  | bound + 1, cs => do
    let (name, cs) ← readName (dropGaps cs)
    match dropGaps cs with
    | '.' :: cs => do
      let ((path, last), cs) ← readKey bound cs
      some ((name :: path, last), cs)
    | cs => some (([], name), cs)

/-! ## Values -/

/-- Entries of an array up to its bracket; a comma may follow the last one. -/
def readEntries (value : List Char → Option (Item × List Char)) :
    Nat → List Char → Option (List Item × List Char)
  | 0, _ => none
  | bound + 1, cs => do
    match ← dropFiller false cs with
    | ']' :: cs => some ([], cs)
    | cs => do
      let (item, cs) ← value cs
      match ← dropFiller false cs with
      | ',' :: cs => do
        let (items, cs) ← readEntries value bound cs
        some (item :: items, cs)
      | ']' :: cs => some ([item], cs)
      | _ => none

/-- An assignment: a key, an equals sign and a value. -/
def readAssignment (value : List Char → Option (Item × List Char)) (cs : List Char) :
    Option ((List String × String) × Item × List Char) := do
  let (key, cs) ← readKey cs.length cs
  match cs with
  | '=' :: cs => do
    let (item, cs) ← value (dropGaps cs)
    some (key, item, cs)
  | _ => none

/-- Assignments of an inline table up to its brace. -/
def readFields (value : List Char → Option (Item × List Char)) :
    Nat → Fields → List Char → Option (Fields × List Char)
  | 0, _, _ => none
  | bound + 1, t, cs => do
    match ← dropFiller false cs with
    | '\x7d' :: cs => some (t, cs)
    | cs => do
      let ((path, key), item, cs) ← readAssignment value cs
      let t ← t.assign path key item
      match ← dropFiller false cs with
      | ',' :: cs => readFields value bound t cs
      | '\x7d' :: cs => some (t, cs)
      | _ => none

/-- A value in which brackets nest at most `room` deep. -/
def readValue : Nat → List Char → Option (Item × List Char)
  | 0, cs => readFlat cs
  | room + 1, cs =>
    match cs with
    | '[' :: cs => (readEntries (readValue room) cs.length cs).map fun r ↦ (.array r.1, r.2)
    | '\x7b' :: cs =>
      (readFields (readValue room) cs.length [] cs).map fun r ↦ (.table .inline r.1, r.2)
    | cs => readFlat cs
where
  /-- A string or a scalar. -/
  readFlat (cs : List Char) : Option (Item × List Char) :=
    if cs.head? = some '"' ∨ cs.head? = some '\'' then
      (read cs).map fun r ↦ (.text (String.ofList r.1), r.2)
    else (readScalar cs).map fun r ↦ (.scalar r.1, r.2)

/-! ## Documents -/

def nestingLimit : Nat := 80

/-- The table read so far, and the path of the header that assignments belong to. -/
structure Progress where
  root : Fields := []
  path : List String := []

/-- A header after its bracket: `close` brackets end it, and `extend` opens its table. -/
def readHeader (close : List Char) (extend : List String → String → Fields → Option Fields)
    (p : Progress) (cs : List Char) : Option (Progress × List Char) := do
  let ((path, key), cs) ← readKey cs.length cs
  if cs.take close.length = close then
    some (⟨← extend path key p.root, path ++ [key]⟩, ← endLine (cs.drop close.length))
  else none

/-- One line, which is not empty. -/
def readStatement (p : Progress) (cs : List Char) : Option (Progress × List Char) :=
  match cs with
  | '[' :: '[' :: cs => readHeader [']', ']'] Fields.openElement p cs
  | '[' :: cs => readHeader [']'] Fields.openTable p cs
  | cs => do
    let ((path, key), item, cs) ← readAssignment (readValue nestingLimit) cs
    let root ← p.root.alter false (fun _ t ↦ t.assign path key item) p.path false
    some (⟨root, p.path⟩, ← endLine cs)

/-- Reads line by line; each line takes at least one character. -/
def readLines : Nat → Progress → List Char → Option Fields
  | 0, _, _ => none
  | bound + 1, p, cs =>
    match dropGaps cs with
    | [] => some p.root
    | '\n' :: cs => readLines bound p cs
    | '#' :: cs => (endLine ('#' :: cs)).bind (readLines bound p)
    | '\r' :: '\n' :: cs => readLines bound p cs
    | cs => (readStatement p cs).bind fun r ↦ readLines bound r.1 r.2

/-- Reads a document, which may start with a byte order mark. -/
def readDocument (cs : List Char) : Option Fields :=
  let cs := if cs.head? = some (Char.ofNat 0xFEFF) then cs.tail else cs
  readLines (cs.length + 1) {} cs

end PipelineFusion.Toml
