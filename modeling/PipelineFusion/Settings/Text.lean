import PipelineFusion.Settings.Basic
import PipelineFusion.Toml.Reader

/-!
# Settings as text

Settings are kept in a TOML document with one table for the optimizer and one for the log.  Reading
takes defaults for what is absent and passes over what it does not know; a record may also be given
as an array of its members in order.  Writing does not validate, reading does.
-/

namespace PipelineFusion

/-! ## Reading -/

namespace Toml.Item

def natural? : Item → Option Nat
  | .scalar (.integer n) => if 0 ≤ n ∧ n < Nat.pow 2 64 then some n.toNat else none
  | _ => none

def boolean? : Item → Option Bool
  | .scalar (.boolean b) => some b
  | _ => none

def text? : Item → Option String
  | .text s => some s
  | _ => none

def texts? : Item → Option (List String)
  | .array items => items.mapM text?
  | _ => none

/-- The members of a record, by name in a table and by position in an array. -/
def members? : Item → Option (String → Nat → Option Item)
  | .table _ t => some fun key _ ↦ Fields.get? key t
  | .array items => some fun _ i ↦ items[i]?
  | .tables elements => some fun _ i ↦ elements[i]?.map (.table .header)
  | _ => none

end Toml.Item

/-- An absent member has its default. -/
def readMember {α : Type} (read : Toml.Item → Option α) (default : α) :
    Option Toml.Item → Option α
  | none => some default
  | some item => read item

def OptimizerSettings.ofItem? (item : Toml.Item) : Option OptimizerSettings := do
  let member ← item.members?
  let d : OptimizerSettings := {}
  some
    { maxDepth := ← readMember Toml.Item.natural? d.maxDepth (member "max_depth" 0)
      enableTrace := ← readMember Toml.Item.boolean? d.enableTrace (member "enable_trace" 1)
      disabledRules := ← readMember Toml.Item.texts? d.disabledRules (member "disabled_rules" 2)
      effectPatterns :=
        ← readMember Toml.Item.texts? d.effectPatterns (member "effect_patterns" 3) }

def LogSettings.ofItem? (item : Toml.Item) : Option LogSettings := do
  let member ← item.members?
  let d : LogSettings := {}
  some
    { level := ← readMember Toml.Item.text? d.level (member "level" 0)
      dir := ← readMember Toml.Item.text? d.dir (member "dir" 1)
      file := ← readMember Toml.Item.text? d.file (member "file" 2)
      maxFileSize := ← readMember Toml.Item.natural? d.maxFileSize (member "max_file_size" 3)
      maxFiles := ← readMember Toml.Item.natural? d.maxFiles (member "max_files" 4) }

namespace Settings

def ofFields? (t : Toml.Fields) : Option Settings := do
  some
    { optimizer := ← readMember OptimizerSettings.ofItem? {} (t.get? "optimizer")
      log := ← readMember LogSettings.ofItem? {} (t.get? "log") }

def ofText (text : String) : Except Failure Settings :=
  match (Toml.readDocument text.toList).bind ofFields? with
  | some s => s.validate
  | none => .error (.config "配置文件无效")

/-- Reads the contents of a file, which are absent when there is no such file. -/
def load : Option ByteArray → Except Failure Settings
  | none => .error (.io "文件不存在")
  | some bytes =>
    match String.fromUTF8? bytes with
    | some text => ofText text
    | none => .error (.io "文件不是有效的 UTF-8")

/-! ## Writing -/

def textChars (s : String) : List Char := Toml.write s.toList

/-- Two or more entries stand on lines of their own, each with a comma. -/
def listChars : List String → List Char
  | [] => ['[', ']']
  | [s] => '[' :: textChars s ++ [']']
  | ss => '[' :: '\n' :: ss.flatMap (fun s ↦ "    ".toList ++ textChars s ++ [',', '\n']) ++ [']']

def line (key : String) (value : List Char) : List Char :=
  key.toList ++ " = ".toList ++ value ++ ['\n']

def naturalChars (n : Nat) : List Char := Nat.toDigits 10 n

def booleanChars (b : Bool) : List Char := (if b then "true" else "false").toList

def toChars (s : Settings) : List Char :=
  "[optimizer]\n".toList ++
    line "max_depth" (naturalChars s.optimizer.maxDepth) ++
    line "enable_trace" (booleanChars s.optimizer.enableTrace) ++
    line "disabled_rules" (listChars s.optimizer.disabledRules) ++
    line "effect_patterns" (listChars s.optimizer.effectPatterns) ++
    "\n[log]\n".toList ++
    line "level" (textChars s.log.level) ++
    line "dir" (textChars s.log.dir) ++
    line "file" (textChars s.log.file) ++
    line "max_file_size" (naturalChars s.log.maxFileSize) ++
    line "max_files" (naturalChars s.log.maxFiles)

def toText (s : Settings) : String := String.ofList s.toChars

end Settings
end PipelineFusion
