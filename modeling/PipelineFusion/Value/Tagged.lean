import PipelineFusion.Json.Number
import PipelineFusion.Json.Quoted
import PipelineFusion.Value.Basic

/-!
# Values as tagged JSON

Each value is written under the name of its variant, `null` as the bare name.  Reading accepts any
spacing and any escapes, in objects with exactly one key, and refuses more than 127 brackets open
at once.
-/

namespace PipelineFusion.Value

open Json

def taggedWith (tag : String) (payload : List Char) : List Char :=
  '\x7b' :: quote tag.toList ++ ':' :: payload ++ ['\x7d']

mutual

def encode : Value → List Char
  | .null => quote "Null".toList
  | .bool b => taggedWith "Bool" (if b then "true" else "false").toList
  | .int n => taggedWith "Int" (toString n.toInt).toList
  | .float x => taggedWith "Float" (floatChars x)
  | .str s => taggedWith "String" (quote s.toList)
  | .list items => taggedWith "List" ('[' :: encodeAll items ++ [']'])

def encodeAll : List Value → List Char
  | [] => []
  | [v] => encode v
  | v :: w :: vs => encode v ++ ',' :: encodeAll (w :: vs)

end

def isSpace (c : Char) : Bool := c = ' ' || c = '\n' || c = '\t' || c = '\r'

def skipSpace (cs : List Char) : List Char := cs.dropWhile isSpace

/-- What follows the mark, which may have space before it. -/
def expect (mark : Char) (cs : List Char) : Option (List Char) :=
  match skipSpace cs with
  | c :: rest => if c = mark then some rest else none
  | [] => none

def readWord (word cs : List Char) : Option (List Char) :=
  let cs := skipSpace cs
  if cs.take word.length = word then some (cs.drop word.length) else none

def readString (cs : List Char) : Option (String × List Char) := do
  let (s, rest) ← unescape (← expect '"' cs)
  some (String.ofList s, rest)

/-- Entries up to the closing bracket, where a comma promises one more.  Every entry takes at least
one character, so the length of the text bounds their number. -/
def readItems (item : List Char → Option (Value × List Char)) :
    Nat → List Char → Option (List Value × List Char)
  | 0, _ => none
  | bound + 1, cs => do
    let (v, cs) ← item cs
    match skipSpace cs with
    | ',' :: cs => do
      let (vs, cs) ← readItems item bound cs
      some (v :: vs, cs)
    | ']' :: cs => some ([v], cs)
    | _ => none

def readList (item : List Char → Option (Value × List Char)) (cs : List Char) :
    Option (Value × List Char) := do
  let cs ← expect '[' cs
  match skipSpace cs with
  | ']' :: cs => some (.list [], cs)
  | cs =>
    let (vs, cs) ← readItems item cs.length cs
    some (.list vs, cs)

/-- What a variant holds; the name decides what may follow. -/
def readPayload (list : List Char → Option (Value × List Char)) (tag : String) (cs : List Char) :
    Option (Value × List Char) :=
  match tag with
  | "Null" => (readWord "null".toList cs).map fun cs ↦ (.null, cs)
  | "Bool" =>
    match readWord "true".toList cs with
    | some cs => some (.bool true, cs)
    | none => (readWord "false".toList cs).map fun cs ↦ (.bool false, cs)
  | "Int" => do
    let (n, cs) ← readNumber (skipSpace cs)
    some (.int (← n.toInt64?), cs)
  | "Float" => do
    let (n, cs) ← readNumber (skipSpace cs)
    some (.float n.toFloat, cs)
  | "String" => do
    let (s, cs) ← readString cs
    some (.str s, cs)
  | "List" => list cs
  | _ => none

/-- A bare name, or an object with one key; `list` reads what stands under the key of lists. -/
def readVariant (list : List Char → Option (Value × List Char)) (cs : List Char) :
    Option (Value × List Char) :=
  match skipSpace cs with
  | '\x7b' :: cs => do
    let (tag, cs) ← readString cs
    let (v, cs) ← readPayload list tag (← expect ':' cs)
    some (v, ← expect '\x7d' cs)
  | cs => do
    let (tag, cs) ← readString cs
    if tag = "Null" then some (.null, cs) else none

/-- Reads one value while at most `room` brackets may be open. -/
def readWithin : Nat → List Char → Option (Value × List Char)
  | 0, cs =>
    match skipSpace cs with
    | '"' :: _ => readVariant (fun _ ↦ none) cs
    | _ => none
  | 1, cs => readVariant (fun _ ↦ none) cs
  | room + 2, cs => readVariant (readList (readWithin room)) cs

def decode? (text : List Char) : Option Value :=
  match readWithin 127 text with
  | some (v, rest) => if (skipSpace rest).isEmpty then some v else none
  | none => none

def toTagged (v : Value) : String := String.ofList v.encode

def ofTagged? (text : String) : Option Value := decode? text.toList

end PipelineFusion.Value
