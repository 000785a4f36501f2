import PipelineFusion.Failure

/-!
# Settings

What a user may set for the optimizer and for the log, and the values that hold otherwise.  Counts
and sizes are natural numbers below `2 ^ 64`.
-/

namespace PipelineFusion

structure OptimizerSettings where
  maxDepth : Nat := 100
  enableTrace : Bool := false
  disabledRules : List String := []
  effectPatterns : List String := []
  deriving DecidableEq, Repr, Inhabited

structure LogSettings where
  level : String := "info"
  dir : String := "logs"
  file : String := "streamfuse"
  maxFileSize : Nat := 104857600
  maxFiles : Nat := 5
  deriving DecidableEq, Repr, Inhabited

structure Settings where
  optimizer : OptimizerSettings := {}
  log : LogSettings := {}
  deriving DecidableEq, Repr, Inhabited

/-- A log needs at least one file, and room in it. -/
def Settings.validate (s : Settings) : Except Failure Settings :=
  if s.log.maxFiles = 0 then .error (.config "log.max_files 必须大于 0")
  else if s.log.maxFileSize = 0 then .error (.config "log.max_file_size 必须大于 0")
  else .ok s

end PipelineFusion
