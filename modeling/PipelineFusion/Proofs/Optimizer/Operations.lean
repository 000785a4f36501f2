import Mathlib.Algebra.GroupWithZero.Nat
import PipelineFusion.Proofs.Optimizer.Derivation

/-!
# Operations on budgets

A run records steps in its budget, starts over at each position, and enters and leaves child plans.
Whatever it does, steps only add up, so a budget that is exhausted stays so.  What a pass does with
the budget, and thereby what becomes of the budget and of the plan, is determined.
-/

namespace PipelineFusion
namespace Budget

inductive Op where
  | record (rule : String) (span : Plan) (replacement : Node)
  | resetLocal
  | enterChild
  | leaveChild

def perform (b : Budget) : Op → Budget
  | .record rule span replacement => b.record rule span replacement
  | .resetLocal => b.resetLocal
  | .enterChild => b.enterChild
  | .leaveChild => b.leaveChild

/-- One operation after another. -/
def performAll (b : Budget) (ops : List Op) : Budget := ops.foldl perform b

def Op.isRecord : Op → Bool
  | .record _ _ _ => true
  | _ => false

/-- What is done at a branch, with what is done in its child plans and behind it. -/
def Op.atBranch (left right rest : List Op) : List Op :=
  .enterChild :: .resetLocal :: left ++ .resetLocal :: right ++ .leaveChild :: .resetLocal :: rest

/-- The number of steps among some operations. -/
def records (ops : List Op) : Nat := ops.countP Op.isRecord

@[simp] theorem performAll_nil (b : Budget) : b.performAll [] = b := rfl

@[simp] theorem performAll_cons (b : Budget) (op : Op) (ops : List Op) :
    b.performAll (op :: ops) = (b.perform op).performAll ops := rfl

theorem performAll_append (b : Budget) (ops ops' : List Op) :
    b.performAll (ops ++ ops') = (b.performAll ops).performAll ops' :=
  List.foldl_append

theorem performAll_atBranch (b : Budget) (left right rest : List Op) :
    b.performAll (Op.atBranch left right rest) =
      ((b.enterChild.resetLocal.performAll left).resetLocal.performAll
        right).leaveChild.resetLocal.performAll rest := by
  simp [Op.atBranch, performAll_append, perform]

@[simp] theorem records_nil : records [] = 0 := rfl

@[simp] theorem records_append (ops ops' : List Op) :
    records (ops ++ ops') = records ops + records ops' :=
  List.countP_append

theorem records_flatten (passes : List (List Op)) :
    records passes.flatten = (passes.map records).sum :=
  List.countP_flatten

theorem steps_perform (b : Budget) (op : Op) : (b.perform op).steps = b.steps + records [op] := by
  cases op <;> rfl

theorem perPosition_perform (b : Budget) (op : Op) :
    (b.perform op).perPosition = b.perPosition := by
  cases op <;> rfl

theorem cap_perform (b : Budget) (op : Op) : (b.perform op).cap = b.cap := by
  cases op <;> rfl

theorem tracing_perform (b : Budget) (op : Op) : (b.perform op).tracing = b.tracing := by
  cases op <;> rfl

theorem steps_performAll (b : Budget) (ops : List Op) :
    (b.performAll ops).steps = b.steps + records ops := by
  induction ops generalizing b with
  | nil => rfl
  | cons op ops ih =>
      have hcons : records (op :: ops) = records [op] + records ops := records_append [op] ops
      rw [performAll_cons, ih, steps_perform, hcons, Nat.add_assoc]

/-- What no operation changes is not changed by several of them. -/
theorem performAll_invariant {A : Type} {view : Budget → A}
    (h : ∀ b op, view (b.perform op) = view b) (b : Budget) (ops : List Op) :
    view (b.performAll ops) = view b := by
  induction ops generalizing b with
  | nil => rfl
  | cons op ops ih => rw [performAll_cons, ih, h]

theorem perPosition_performAll (b : Budget) (ops : List Op) :
    (b.performAll ops).perPosition = b.perPosition :=
  performAll_invariant perPosition_perform b ops

theorem cap_performAll (b : Budget) (ops : List Op) : (b.performAll ops).cap = b.cap :=
  performAll_invariant cap_perform b ops

theorem tracing_performAll (b : Budget) (ops : List Op) :
    (b.performAll ops).tracing = b.tracing :=
  performAll_invariant tracing_perform b ops

theorem isExhausted_performAll {b : Budget} (h : b.isExhausted = true) (ops : List Op) :
    (b.performAll ops).isExhausted = true := by
  rw [isExhausted, decide_eq_true_eq] at h ⊢
  rw [steps_performAll, cap_performAll]
  exact Nat.le_trans h (Nat.le_add_right b.steps (records ops))

/-- A budget that is not exhausted in the end was not at any moment before. -/
theorem isExhausted_performAll_take {b : Budget} {ops : List Op}
    (h : (b.performAll ops).isExhausted = false) (n : Nat) :
    (b.performAll (ops.take n)).isExhausted = false := by
  apply Bool.eq_false_iff.2
  intro hspent
  have hend := isExhausted_performAll hspent (ops.drop n)
  rw [← performAll_append, List.take_append_drop, h] at hend
  cases hend

end Budget

/-! ## Passes -/

/-- How a hit is entered in the budget. -/
def Hit.op (hit : Hit) (window : Plan) : Budget.Op :=
  .record hit.rule.name (window.take hit.length) hit.replacement

namespace Optimizer

/-- What a pass over a chain makes of the chain, and what it does with the budget. -/
inductive Performs (o : Optimizer) : Plan → Budget → List Budget.Op → Plan → Prop
  | nil (b : Budget) : Performs o [] b [] []
  | spent (plan : Plan) {b : Budget} (hspent : b.isExhausted = true) : Performs o plan b [] plan
  | hit {window q : Plan} {b : Budget} {hit : Hit} {ops : List Budget.Op}
      (hspent : b.isExhausted = false) (hlocal : b.isLocalExhausted = false)
      (htakes : o.Takes window hit)
      (h : Performs o (hit.replacement :: window.drop hit.length) (b.perform (hit.op window))
        ops q) :
      Performs o window b (hit.op window :: ops) q
  | leaf {rest rest' : Plan} {b : Budget} {ops : List Budget.Op} (stage : Stage) (purity : Purity)
      (hspent : b.isExhausted = false)
      (hnone : b.isLocalExhausted = true ∨ o.hit? (.leaf stage purity :: rest) = none)
      (h : Performs o rest b.resetLocal ops rest') :
      Performs o (.leaf stage purity :: rest) b (.resetLocal :: ops)
        (.leaf stage purity :: rest')
  | branch {left left' right right' rest rest' : Plan} {b bl br : Budget}
      {opsl opsr ops : List Budget.Op} (mode : Mode) (purity : Purity)
      (hspent : b.isExhausted = false)
      (hnone : b.isLocalExhausted = true ∨
        o.hit? (.branch mode left right purity :: rest) = none)
      (hleft : Performs o left b.enterChild.resetLocal opsl left')
      (hbl : bl = b.enterChild.resetLocal.performAll opsl)
      (hright : Performs o right bl.resetLocal opsr right')
      (hbr : br = bl.resetLocal.performAll opsr)
      (hrest : Performs o rest br.leaveChild.resetLocal ops rest') :
      Performs o (.branch mode left right purity :: rest) b
        (Budget.Op.atBranch opsl opsr ops)
        ((Node.branch mode left right purity).rebuild left' right' :: rest')

variable {o : Optimizer} {p q : Plan} {b b' : Budget} {ops : List Budget.Op}

theorem Performs.sweeps (h : o.Performs p b ops q) : o.Sweeps p b q (b.performAll ops) := by
  induction h with
  | nil b => exact .nil b
  | spent plan hspent => exact .spent plan hspent
  | hit hspent hlocal htakes _ ih => exact .hit hspent hlocal htakes ih
  | leaf stage purity hspent hnone _ ih => exact .leaf stage purity hspent hnone ih
  | branch mode purity hspent hnone _ hbl _ hbr _ ihl ihr ih =>
      rw [← hbl] at ihl
      rw [← hbr] at ihr
      rw [Budget.performAll_atBranch, ← hbl, ← hbr]
      exact .branch mode purity hspent hnone ihl ihr ih

theorem Sweeps.exists_performs (h : o.Sweeps p b q b') :
    ∃ ops, o.Performs p b ops q ∧ b' = b.performAll ops := by
  induction h with
  | nil b => exact ⟨[], .nil b, rfl⟩
  | spent plan hspent => exact ⟨[], .spent plan hspent, rfl⟩
  | hit hspent hlocal htakes _ ih =>
      obtain ⟨ops, hperforms, hbudget⟩ := ih
      exact ⟨_, .hit hspent hlocal htakes hperforms, hbudget⟩
  | leaf stage purity hspent hnone _ ih =>
      obtain ⟨ops, hperforms, hbudget⟩ := ih
      exact ⟨_, .leaf stage purity hspent hnone hperforms, hbudget⟩
  | branch mode purity hspent hnone _ _ _ ihl ihr ih =>
      obtain ⟨opsl, hleft, hbl⟩ := ihl
      obtain ⟨opsr, hright, hbr⟩ := ihr
      obtain ⟨ops, hrest, hbudget⟩ := ih
      refine ⟨_, .branch mode purity hspent hnone hleft hbl hright hbr hrest, ?_⟩
      rw [Budget.performAll_atBranch, ← hbl, ← hbr]
      exact hbudget

/-- What a pass does with the budget is determined. -/
theorem Performs.unique (h : o.Performs p b ops q) {ops' : List Budget.Op} {q' : Plan}
    (h' : o.Performs p b ops' q') : ops' = ops ∧ q' = q := by
  -- Window and budget decide how a pass begins, so only one case of the second is left in each.
  induction h generalizing ops' q' with
  | nil b =>
      cases h' with
      | nil => exact ⟨rfl, rfl⟩
      | spent _ hspent => exact ⟨rfl, rfl⟩
      | hit _ _ htakes _ => exact absurd rfl htakes.ne_nil
  | spent plan hspent => cases h' <;> simp_all
  | hit hspent hlocal htakes _ ih =>
      cases h' with
      | nil => exact absurd rfl htakes.ne_nil
      | spent _ hspent' => simp [hspent] at hspent'
      | hit _ _ htakes' h' =>
          obtain rfl := Option.some.inj (htakes.symm.trans htakes')
          obtain ⟨rfl, rfl⟩ := ih h'
          exact ⟨rfl, rfl⟩
      | leaf _ _ _ hnone _ => exact absurd hnone (htakes.stays hlocal)
      | branch _ _ _ hnone _ _ _ _ _ => exact absurd hnone (htakes.stays hlocal)
  | leaf stage purity hspent hnone _ ih =>
      cases h' with
      | spent _ hspent' => simp [hspent] at hspent'
      | hit _ hlocal htakes _ => exact absurd hnone (htakes.stays hlocal)
      | leaf _ _ _ _ h' =>
          obtain ⟨rfl, rfl⟩ := ih h'
          exact ⟨rfl, rfl⟩
  | branch mode purity hspent hnone _ hbl _ hbr _ ihl ihr ih =>
      cases h' with
      | spent _ hspent' => simp [hspent] at hspent'
      | hit _ hlocal htakes _ => exact absurd hnone (htakes.stays hlocal)
      | branch _ _ _ _ hleft hbl' hright hbr' hrest =>
          obtain ⟨rfl, rfl⟩ := ihl hleft
          obtain rfl := hbl'.trans hbl.symm
          obtain ⟨rfl, rfl⟩ := ihr hright
          obtain rfl := hbr'.trans hbr.symm
          obtain ⟨rfl, rfl⟩ := ih hrest
          exact ⟨rfl, rfl⟩

/-- What becomes of a chain and of a budget in a pass is determined. -/
theorem Sweeps.unique (h : o.Sweeps p b q b') {q' : Plan} {b'' : Budget}
    (h' : o.Sweeps p b q' b'') : q' = q ∧ b'' = b' := by
  obtain ⟨ops, hperforms, rfl⟩ := h.exists_performs
  obtain ⟨ops', hperforms', rfl⟩ := h'.exists_performs
  obtain ⟨rfl, rfl⟩ := hperforms.unique hperforms'
  exact ⟨rfl, rfl⟩

/-- The steps that are recorded lead from the chain to what becomes of it. -/
theorem Performs.exists_derives (h : o.Performs p b ops q) :
    ∃ as, Plan.Derives o.Takes b.depth p as q ∧ as.length = Budget.records ops := by
  obtain ⟨as, hderives, hadvances⟩ := h.sweeps.derives
  have hsteps := hadvances.steps_eq
  rw [Budget.steps_performAll] at hsteps
  exact ⟨as, hderives, (Nat.add_left_cancel hsteps).symm⟩

theorem Performs.records_add_total_le (h : o.Performs p b ops q) :
    Budget.records ops + q.total ≤ p.total := by
  obtain ⟨as, hderives, hlength⟩ := h.exists_derives
  rw [← hlength]
  exact (Takes.derives hderives).length_add_total_le

theorem Performs.records_pos (h : o.Performs p b ops q) (hne : q ≠ p) :
    0 < Budget.records ops := by
  obtain ⟨as, hderives, hlength⟩ := h.exists_derives
  rw [← hlength, List.length_pos_iff]
  rintro rfl
  exact hne hderives.eq_of_nil

end Optimizer
end PipelineFusion
