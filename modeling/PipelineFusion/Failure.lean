import PipelineFusion.Rule.Error

/-!
# Failures

What can go wrong outside of a plan, with the texts that a user sees.
-/

namespace PipelineFusion

inductive Failure where
  | fusion (cause : FusionError)
  | config (reason : String)
  | io (reason : String)
  | logging (reason : String)
  deriving DecidableEq, Repr

def Failure.message : Failure → String
  | .fusion cause => "重写错误: " ++ cause.message
  | .config reason => "配置错误: " ++ reason
  | .io reason => "IO错误: " ++ reason
  | .logging reason => "日志错误: " ++ reason

end PipelineFusion
