import PipelineFusion.Proofs.Optimizer.Derivation

/-!
# Warnings

A run keeps a log.  It warns of rules that refuse the spans they find, which does not happen, and of
its budget that has run out before the plan was in normal form.
-/

namespace PipelineFusion

/-- The warnings among the lines of a log. -/
def warnings (log : List LogLine) : List LogLine := log.filter fun line ↦ line.level = .warn

theorem warnings_append (log log' : List LogLine) :
    warnings (log ++ log') = warnings log ++ warnings log' :=
  List.filter_append log log'

theorem Session.warnings_write_debug (s : Session) (text : String) :
    warnings (s.write .debug text).log = warnings s.log := by
  rw [write, warnings_append]
  exact List.append_nil (warnings s.log)

namespace Optimizer

theorem warnings_consider (o : Optimizer) (position : Nat) (window : Plan) (s : Session) :
    warnings (o.consider position window s).log = warnings s.log := by
  unfold consider
  split
  · exact s.warnings_write_debug _
  · rw [refusals_eq_nil, Session.warn, warnings_append]
    exact List.append_nil (warnings s.log)

/-- A pass warns of nothing. -/
theorem warnings_sweep (o : Optimizer) (position : Nat) (plan : Plan) (s : Session) :
    warnings (o.sweep position plan s).2.log = warnings s.log := by
  fun_induction sweep o position plan s with
  | case1 position s => rfl
  | case2 position s node rest hspent => rfl
  | case3 position s node rest hspent s' hit hnext ih =>
      have happly : warnings (s'.apply position (node :: rest) hit).log = warnings s'.log :=
        s'.warnings_write_debug _
      rw [ih, happly]
      exact o.warnings_consider position (node :: rest) s
  | case4 position s rest hspent stage purity rest' s'' s' hnext hrest ih =>
      rw [hrest] at ih
      exact ih.trans (o.warnings_consider position _ s)
  | case5 position s rest hspent mode left right purity left' s₁ right' s₂ hright rest' s₃ hrest s'
      hnext hleft ihl ihr ih =>
      rw [hleft] at ihl
      rw [hright] at ihr
      rw [hrest] at ih
      calc
        warnings s₃.log = warnings s₂.log := ih
        _ = warnings s₁.log := ihr
        _ = warnings s'.log := ihl
        _ = warnings s.log := o.warnings_consider position _ s

theorem warnings_pass (o : Optimizer) (plan : Plan) (s : Session) :
    warnings (o.pass plan s).2.log = warnings s.log :=
  o.warnings_sweep 0 plan s.resetLocal

theorem warnings_settle (o : Optimizer) (current : Plan) (done : Nat) (s : Session) :
    warnings (o.settle current done s).2.2.log = warnings s.log := by
  fun_induction settle o current done s with
  | case1 current done s hspent => rfl
  | case2 current done s hspent next s' hpass hsame =>
      have hlog := o.warnings_pass current s
      rw [hpass] at hlog
      exact (s'.warnings_write_debug _).trans hlog
  | case3 current done s hspent next s' hpass hdiffers hsmaller ih =>
      have hlog := o.warnings_pass current s
      rw [hpass] at hlog
      exact ih.trans hlog
  | case4 current done s hspent next s' hpass hdiffers hsmaller =>
      have hlog := o.warnings_pass current s
      rwa [hpass] at hlog

/-- The warning of a run whose budget has run out. -/
def exhaustion (o : Optimizer) (plan : Plan) : LogLine :=
  ⟨.warn, "重写总步数上限 " ++ toString (o.cap plan) ++ " 已耗尽，返回当前最优计划: " ++
    (o.optimize plan).explain⟩

/-- A run that is exhausted says so; other warnings there are none. -/
theorem warnings_run (o : Optimizer) (plan : Plan) :
    warnings (o.run plan).log =
      if (o.run plan).exhausted then [o.exhaustion plan] else [] := by
  have hsettle : warnings (o.settle plan 0 (o.fresh plan)).2.2.log = [] :=
    o.warnings_settle plan 0 (o.fresh plan)
  have hlog : (o.run plan).log =
      (if (o.run plan).exhausted = true then
        (o.settle plan 0 (o.fresh plan)).2.2.write .warn (o.exhaustion plan).text
      else (o.settle plan 0 (o.fresh plan)).2.2).log := rfl
  rw [hlog]
  split
  · rw [Session.write, warnings_append, hsettle]
    rfl
  · exact hsettle

end Optimizer
end PipelineFusion
