/-!
# Refused fusions

Why a rule cannot fuse a span.
-/

namespace PipelineFusion

inductive FusionError where
  | failed (reason : String)
  | unsupportedNode (what : String)
  | invalidPlan (reason : String)
  deriving DecidableEq, Repr

def FusionError.message : FusionError → String
  | .failed reason => "重写失败: " ++ reason
  | .unsupportedNode what => "不支持的节点类型: " ++ what
  | .invalidPlan reason => "无效的计划结构: " ++ reason

end PipelineFusion
