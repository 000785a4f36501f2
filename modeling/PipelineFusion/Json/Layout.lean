import PipelineFusion.Json.Quoted

/-!
# JSON documents

Documents are laid out with two blanks of indentation, one entry to a line; an empty list or object
stays on its line.
-/

namespace PipelineFusion

inductive Json where
  | boolean (b : Bool)
  | natural (n : Nat)
  | string (s : String)
  | array (items : List Json)
  | object (fields : List (String × Json))

namespace Json

def quoted (s : String) : String := String.ofList (quote s.toList)

def newline (depth : Nat) : String := String.ofList ('\n' :: List.replicate (2 * depth) ' ')

/-- Entries between brackets, each on a line of its own one step further in. -/
def block (opening closing : String) (depth : Nat) (entries : List String) : String :=
  if entries.isEmpty then opening ++ closing
  else
    let indented := newline (depth + 1)
    opening ++ indented ++ ("," ++ indented).intercalate entries ++ newline depth ++ closing

mutual

def pretty (depth : Nat) : Json → String
  | .boolean b => if b then "true" else "false"
  | .natural n => toString n
  | .string s => quoted s
  | .array items => block "[" "]" depth (prettyItems (depth + 1) items)
  | .object fields => block "\x7b" "\x7d" depth (prettyFields (depth + 1) fields)

def prettyItems (depth : Nat) : List Json → List String
  | [] => []
  | v :: vs => pretty depth v :: prettyItems depth vs

def prettyFields (depth : Nat) : List (String × Json) → List String
  | [] => []
  | (k, v) :: fields => (quoted k ++ ": " ++ pretty depth v) :: prettyFields depth fields

end

end Json
end PipelineFusion
