import PipelineFusion.Proofs.Optimizer.Passes
import PipelineFusion.Proofs.Rule.Wall

/-!
# Locality

A pass does to the chains before and behind a wall, and to the child plans of a wall that is a
branch, what passes over these alone do.  Round by round this makes a run over the whole chain the
runs over its parts side by side.
-/

namespace PipelineFusion
namespace Optimizer

variable {o : Optimizer} {p q r front back : Plan} {b b' b'' : Budget} {wall : Node}

/-! ## Passes over a wall -/

/-- What one pass makes of a node that no rule takes. -/
def onceInside (o : Optimizer) : Node → Node
  | .leaf stage purity => .leaf stage purity
  | .branch mode left right purity => .branch mode (o.once left) (o.once right) purity

def stepsOnceInside (o : Optimizer) : Node → Nat
  | .leaf _ _ => 0
  | .branch _ left right _ => o.stepsOnce left + o.stepsOnce right

/-- A pass goes over what stands before a wall as if nothing came behind. -/
theorem Sweeps.append_wall (hwall : o.classifier.IsWall wall) (h : o.Sweeps p b q b')
    (hback : o.Sweeps (wall :: back) b' r b'') : o.Sweeps (p ++ wall :: back) b (q ++ r) b'' := by
  induction h with
  | nil b => exact hback
  | spent plan hspent =>
      obtain ⟨rfl, rfl⟩ := hback.eq_of_isExhausted hspent
      exact .spent _ hspent
  | @hit window q b b' hit hspent hlocal htakes _ ih =>
      have hle := (hit?_le htakes).2.1
      have hrest := ih hback
      refine .hit hspent hlocal ((hit?_append_wall hwall window back).trans htakes) ?_
      rw [List.take_append_of_le_length hle, List.drop_append_of_le_length hle]
      exact hrest
  | leaf stage purity hspent hnone _ ih =>
      rw [← hit?_append_wall hwall _ back] at hnone
      exact .leaf stage purity hspent hnone (ih hback)
  | branch mode purity hspent hnone hleft hright _ _ _ ih =>
      rw [← hit?_append_wall hwall _ back] at hnone
      exact .branch mode purity hspent hnone hleft hright (ih hback)

/-- The node of a position that is left stays, and the chain behind it is swept as by a pass of its
own. -/
theorem exists_sweeps_cons {node : Node} (hnone : b.isLocalExhausted = true ∨
      o.hit? (node :: back) = none)
    (hstarts : o.Starts b.resetLocal (Plan.total (node :: back))) :
    ∃ b', o.Sweeps (node :: back) b (o.onceInside node :: o.once back) b' ∧
      b'.steps = b.steps + (o.stepsOnceInside node + o.stepsOnce back) := by
  have hroom : b.steps + Plan.total (node :: back) ≤ b.cap := hstarts.room
  have hpos := node.total_pos
  rw [Plan.total_cons] at hroom hstarts
  have hspent : b.isExhausted = false := Budget.isExhausted_eq_false_iff.2 (by omega)
  cases node with
  | leaf stage purity =>
      obtain ⟨b', hback, hsteps, -⟩ :=
        exists_sweeps_once (hstarts.mono (Nat.le_add_left (back.total + 0) _))
      refine ⟨b', .leaf stage purity hspent hnone hback, ?_⟩
      rw [stepsOnceInside, Nat.zero_add]
      exact hsteps
  | branch mode left right purity =>
      have hfirst : o.Starts b.enterChild.resetLocal
          (Plan.total left + (Plan.total right + (back.total + 0))) := by
        refine ⟨hstarts.perPosition_eq, rfl, ?_⟩
        rw [Node.total] at hroom
        change b.steps + _ ≤ b.cap
        omega
      obtain ⟨bl, hleft, hl, hsecond⟩ := exists_sweeps_once hfirst
      obtain ⟨br, hright, hr, hthird⟩ := exists_sweeps_once hsecond
      have hthird : o.Starts br.leaveChild.resetLocal (back.total + 0) :=
        ⟨hthird.perPosition_eq, rfl, hthird.room⟩
      obtain ⟨b', hback, hsteps, -⟩ := exists_sweeps_once hthird
      have hsweeps := Sweeps.branch mode purity hspent hnone hleft hright hback
      rw [hleft.rebuild_eq hright] at hsweeps
      refine ⟨b', hsweeps, ?_⟩
      simp only [Budget.enterChild, Budget.leaveChild, Budget.resetLocal] at hl hr hsteps
      rw [stepsOnceInside]
      omega

theorem once_append_wall (hwall : o.classifier.IsWall wall) (front back : Plan) :
    o.once (front ++ wall :: back) = o.once front ++ o.onceInside wall :: o.once back ∧
      o.stepsOnce (front ++ wall :: back) =
        o.stepsOnce front + (o.stepsOnceInside wall + o.stepsOnce back) := by
  have hstarts := o.starts_ample (front ++ wall :: back)
  obtain ⟨b, hfront, hsteps, hstarts'⟩ :=
    exists_sweeps_once (Plan.total_append front (wall :: back) ▸ hstarts)
  obtain ⟨b', hback, hsteps'⟩ := exists_sweeps_cons (Or.inr (hit?_wall hwall back)) hstarts'
  obtain ⟨hplan, htotal⟩ := (hfront.append_wall hwall hback).eq_once hstarts
  exact ⟨hplan.symm, by omega⟩

/-! ## Rounds -/

theorem isWall_onceInside (hwall : o.classifier.IsWall wall) :
    o.classifier.IsWall (o.onceInside wall) := by
  cases wall with
  | leaf stage purity => exact hwall
  | branch mode left right purity => trivial

theorem iterate_onceInside_branch (mode : Mode) (left right : Plan) (purity : Purity) (n : Nat) :
    o.onceInside^[n] (.branch mode left right purity) =
      .branch mode (o.once^[n] left) (o.once^[n] right) purity := by
  induction n generalizing left right with
  | zero => rfl
  | succ n ih => exact ih (o.once left) (o.once right)

theorem isWall_iterate_onceInside (hwall : o.classifier.IsWall wall) (n : Nat) :
    o.classifier.IsWall (o.onceInside^[n] wall) :=
  Function.Iterate.rec o.classifier.IsWall hwall (fun _ ↦ isWall_onceInside) n

theorem iterate_once_append_wall (hwall : o.classifier.IsWall wall) (front back : Plan) (n : Nat) :
    o.once^[n] (front ++ wall :: back) =
      o.once^[n] front ++ o.onceInside^[n] wall :: o.once^[n] back := by
  induction n generalizing front wall back with
  | zero => rfl
  | succ n ih =>
      rw [Function.iterate_succ_apply, (once_append_wall hwall front back).1]
      exact ih (isWall_onceInside hwall) (o.once front) (o.once back)

theorem stepsOnce_iterate_append_wall (hwall : o.classifier.IsWall wall) (front back : Plan)
    (n : Nat) :
    o.stepsOnce (o.once^[n] (front ++ wall :: back)) = o.stepsOnce (o.once^[n] front) +
      (o.stepsOnceInside (o.onceInside^[n] wall) + o.stepsOnce (o.once^[n] back)) := by
  rw [iterate_once_append_wall hwall]
  exact (once_append_wall (isWall_iterate_onceInside hwall n) _ _).2

/-! ## Runs -/

/-- The wall with its child plans optimized. -/
def optimizeInside (o : Optimizer) : Node → Node
  | .leaf stage purity => .leaf stage purity
  | .branch mode left right purity => .branch mode (o.optimize left) (o.optimize right) purity

/-- The number of steps that the runs over the child plans take. -/
def rulesAppliedInside (o : Optimizer) : Node → Nat
  | .leaf _ _ => 0
  | .branch _ left right _ => (o.run left).rulesApplied + (o.run right).rulesApplied

/-- The number of passes until the child plans come to rest. -/
def iterationsInside (o : Optimizer) : Node → Nat
  | .leaf _ _ => 1
  | .branch _ left right _ => max (o.run left).iterations (o.run right).iterations

theorem comesToRest_inside (hdepth : 1 ≤ o.maxDepth)
    (hself : ∀ v ∈ wall.initial, (v == v) = true) (hcount : wall.total ≤ maxCount) :
    ComesToRest (fun n ↦ o.onceInside^[n] wall)
      (fun n ↦ o.stepsOnceInside (o.onceInside^[n] wall)) (o.iterationsInside wall)
      (o.optimizeInside wall) (o.rulesAppliedInside wall) := by
  cases wall with
  | leaf stage purity =>
      have hfixed : ∀ n, o.onceInside^[n] (.leaf stage purity) = .leaf stage purity :=
        Function.iterate_fixed rfl
      simp only [hfixed]
      exact .of_idle _
  | branch mode left right purity =>
      simp only [Node.initial, List.forall_mem_append] at hself
      rw [Node.total] at hcount
      have hleft := o.roomy_fresh hdepth (Plan.beq_self_iff.2 hself.1) (by omega)
      have hright := o.roomy_fresh hdepth (Plan.beq_self_iff.2 hself.2) (by omega)
      simp only [iterate_onceInside_branch]
      exact (comesToRest hleft).join (comesToRest hright) (Node.branch mode · · purity)

/-- Optimizing is local to the chains between walls: these come out as they do alone, and so do the
child plans of a wall.  The steps add up, and the passes go on until the last part is at rest.  The
number of nodes is taken to be a machine word, as it is for every plan that fits in memory. -/
theorem optimize_append_wall (o : Optimizer) (front back : Plan) (wall : Node)
    (hwall : o.classifier.IsWall wall) (hdepth : 1 ≤ o.maxDepth)
    (hself : (front ++ wall :: back == front ++ wall :: back) = true)
    (hcount : Plan.total (front ++ wall :: back) ≤ maxCount) :
    o.optimize (front ++ wall :: back) =
        o.optimize front ++ o.optimizeInside wall :: o.optimize back ∧
      (o.run (front ++ wall :: back)).rulesApplied =
        (o.run front).rulesApplied + (o.rulesAppliedInside wall + (o.run back).rulesApplied) ∧
      (o.run (front ++ wall :: back)).iterations =
        max (o.run front).iterations (max (o.iterationsInside wall) (o.run back).iterations) := by
  have hwhole := comesToRest (o.roomy_fresh hdepth hself hcount)
  simp only [stepsOnce_iterate_append_wall hwall] at hwhole
  simp only [iterate_once_append_wall hwall] at hwhole
  rw [Plan.beq_self_iff, Plan.initial_append, Plan.initial_cons] at hself
  simp only [List.forall_mem_append] at hself
  obtain ⟨hselfFront, hselfWall, hselfBack⟩ := hself
  rw [Plan.total_append, Plan.total_cons] at hcount
  have hfront := comesToRest (o.roomy_fresh hdepth (Plan.beq_self_iff.2 hselfFront) (by omega))
  have hinside := comesToRest_inside hdepth hselfWall (by omega)
  have hback := comesToRest (o.roomy_fresh hdepth (Plan.beq_self_iff.2 hselfBack) (by omega))
  have hparts := hfront.join (hinside.join hback List.cons) List.append
  obtain ⟨hiterations, hplan, hsteps⟩ := hwhole.unique hparts
  exact ⟨hplan, hsteps, hiterations⟩

/-- Hands each value to the outside before it passes it on. -/
def printing : Node :=
  .leaf (.map ⟨.written 4, { label := "print", calls := ["println"] }, fun x ↦ x⟩) .io

theorem optimize_lagged_printing_lagged :
    ({} : Optimizer).optimize (Plan.lagged ++ printing :: Plan.lagged) =
        ({} : Optimizer).optimize Plan.lagged ++ printing ::
          ({} : Optimizer).optimize Plan.lagged ∧
      (({} : Optimizer).run (Plan.lagged ++ printing :: Plan.lagged)).rulesApplied =
        (({} : Optimizer).run Plan.lagged).rulesApplied +
          (({} : Optimizer).run Plan.lagged).rulesApplied := by
  have hwall : ({} : Optimizer).classifier.IsWall printing := Or.inl (by decide +kernel)
  have h := optimize_append_wall {} Plan.lagged Plan.lagged printing hwall (by decide)
    (by decide +kernel) (by decide +kernel)
  refine ⟨h.1, h.2.1.trans ?_⟩
  rw [printing, rulesAppliedInside, Nat.zero_add]

end Optimizer
end PipelineFusion
