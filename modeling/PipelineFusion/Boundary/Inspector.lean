import PipelineFusion.Boundary.Basic
import PipelineFusion.Regex.Reader
import PipelineFusion.Regex.Search

/-!
# Call inspection

A call is judged by its base name, without qualifiers and in lower case, against two built-in lists.
Extra patterns are searched for in the call as it is written, and mark it as an external effect.
-/

namespace PipelineFusion

namespace Call

/-- Input and output, nondeterminism, and asynchronous waiting. -/
def effects : List String :=
  ["print", "println", "eprint", "eprintln", "log", "write", "read", "flush", "open", "fetch",
    "send", "recv", "query", "now", "current_time", "current_timestamp", "rand", "random", "uuid",
    "await", "spawn", "sleep", "yield"]

/-- Hidden state. -/
def holders : List String := ["counter", "accumulate", "cache", "memo", "memoize"]

def isSeparator (c : Char) : Bool := c = ':' || c = '.'

/-- The part after the last separator, with ASCII letters in lower case. -/
def base (call : String) : String :=
  String.ofList ((call.toList.reverse.takeWhile (!isSeparator ·)).reverse.map Char.toLower)

def builtin (call : String) : Boundary :=
  let name := base call
  if effects.contains name then .opaqueEffect
  else if holders.contains name then .staged
  else .fullyFusable

end Call

structure Inspector where
  patterns : List Regex := []

namespace Inspector

/-- `none` when one of the patterns cannot be read. -/
def ofPatterns? (patterns : List String) : Option Inspector :=
  (patterns.mapM Regex.ofString?).map Inspector.mk

def boundary (i : Inspector) (call : String) : Boundary :=
  let known := Call.builtin call
  if known = .opaqueEffect then known
  else if i.patterns.any (·.isMatch call) then .opaqueEffect
  else known

/-- The strictest boundary of the calls declared on the node itself. -/
def inspect (i : Inspector) (node : Node) : Boundary :=
  (node.calls.map i.boundary).foldl max .fullyFusable

end Inspector
end PipelineFusion
