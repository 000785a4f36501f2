import Mathlib.Data.List.DropRight
import Mathlib.Data.List.Induction
import Mathlib.Order.Bounds.Image
import PipelineFusion.Proofs.Optimizer.Operations

/-!
# Accounting

Whatever is done with a fresh budget, in whatever order, what the budget shows is told by the
operations alone.  Steps are counted from the start of the run, and from the last start at a
position.  To leave a child plan at the top has no effect, so the depth is not the balance of all
operations: it is the greatest balance of the last ones, taken over all numbers of them.
-/

namespace PipelineFusion
namespace Budget

def Op.isReset : Op → Bool
  | .resetLocal => true
  | _ => false

def Op.isEnter : Op → Bool
  | .enterChild => true
  | _ => false

def Op.isLeave : Op → Bool
  | .leaveChild => true
  | _ => false

/-- The operations behind the last start at a position, or all of them if there is none. -/
def sinceReset (ops : List Op) : List Op := ops.rtakeWhile fun op ↦ !op.isReset

/-- How many more child plans are entered than left. -/
def balance (ops : List Op) : Int := ops.countP Op.isEnter - ops.countP Op.isLeave

/-- What the operations make of a fresh budget. -/
def replay (perPosition : Nat) (cap : Option Nat) (tracing : Bool) (ops : List Op) : Budget :=
  (start perPosition cap tracing).performAll ops

variable {b : Budget}

theorem performAll_concat (b : Budget) (ops : List Op) (op : Op) :
    b.performAll (ops ++ [op]) = (b.performAll ops).perform op :=
  performAll_append b ops [op]

/-! ## Steps at a position -/

theorem localSteps_perform (b : Budget) (op : Op) :
    (b.perform op).localSteps = if op.isReset then 0 else b.localSteps + records [op] := by
  cases op <;> rfl

theorem sinceReset_concat (ops : List Op) (op : Op) :
    sinceReset (ops ++ [op]) = if op.isReset then [] else sinceReset ops ++ [op] := by
  rw [sinceReset, List.rtakeWhile_concat]
  cases op.isReset <;> rfl

theorem localSteps_performAll (h : b.localSteps = 0) (ops : List Op) :
    (b.performAll ops).localSteps = records (sinceReset ops) := by
  induction ops using List.reverseRecOn with
  | nil => exact h
  | append_singleton ops op ih =>
      rw [performAll_concat, localSteps_perform, sinceReset_concat]
      by_cases hreset : op.isReset = true
      · rw [if_pos hreset, if_pos hreset, records_nil]
      · rw [if_neg hreset, if_neg hreset, ih, records_append]

theorem isLocalExhausted_replay_iff (perPosition : Nat) (cap : Option Nat) (tracing : Bool)
    (ops : List Op) :
    (replay perPosition cap tracing ops).isLocalExhausted = true ↔
      perPosition ≤ records (sinceReset ops) := by
  have hlocal := localSteps_performAll (b := start perPosition cap tracing) rfl ops
  rw [isLocalExhausted, decide_eq_true_iff, replay, hlocal, perPosition_performAll]
  rfl

/-! ## Depth -/

theorem balance_append (ops ops' : List Op) :
    balance (ops ++ ops') = balance ops + balance ops' := by
  simp only [balance, List.countP_append]
  omega

/-- Nothing is above the top. -/
theorem depth_perform (b : Budget) (op : Op) :
    ((b.perform op).depth : Int) = max 0 (b.depth + balance [op]) := by
  cases op <;> simp [perform, record, resetLocal, enterChild, leaveChild, balance, Op.isEnter,
    Op.isLeave] <;> omega

/-- The last operations of a longer list are none, or those of the shorter one and one more. -/
theorem balances_concat (ops : List Op) (op : Op) :
    balance '' {s | s <:+ ops ++ [op]} =
      insert 0 ((· + balance [op]) '' (balance '' {s | s <:+ ops})) := by
  ext n
  constructor
  · rintro ⟨s, hs, rfl⟩
    rcases List.suffix_concat_iff.1 hs with rfl | ⟨t, rfl, ht⟩
    · exact Or.inl rfl
    · exact Or.inr ⟨balance t, ⟨t, ht, rfl⟩, (balance_append t [op]).symm⟩
  · rintro (rfl | ⟨_, ⟨t, ht, rfl⟩, rfl⟩)
    · exact ⟨[], List.nil_suffix, rfl⟩
    · exact ⟨t ++ [op], List.suffix_concat_iff.2 (Or.inr ⟨t, rfl, ht⟩), balance_append t [op]⟩

theorem isGreatest_depth (h : b.depth = 0) (ops : List Op) :
    IsGreatest (balance '' {s | s <:+ ops}) ((b.performAll ops).depth : Int) := by
  induction ops using List.reverseRecOn with
  | nil => simp [h, balance]
  | append_singleton ops op ih =>
      -- One more operation shifts all balances alike, and none at all have the balance zero.
      have hshift : Monotone fun n : Int ↦ n + balance [op] := by
        intro m n hle
        exact Int.add_le_add_right hle (balance [op])
      rw [performAll_concat, depth_perform, balances_concat]
      exact (hshift.map_isGreatest ih).insert 0

/-! ## Traces -/

theorem trace_record (h : b.tracing = true) (rule : String) (span : Plan) (replacement : Node) :
    (b.perform (.record rule span replacement)).trace =
      b.trace ++ [⟨rule, b.depth, span.explain, replacement.label⟩] := by
  rw [perform, record, h]
  rfl

/-- A step adds an entry to a trace that is kept; nothing else changes the trace. -/
theorem exists_trace_perform (b : Budget) (op : Op) :
    ∃ as, (b.perform op).trace = b.trace ++ as ∧
      as.length = if b.tracing then records [op] else 0 := by
  cases htracing : b.tracing with
  | false =>
      refine ⟨[], ?_, rfl⟩
      cases op <;> simp [perform, record, resetLocal, enterChild, leaveChild, htracing]
  | true =>
      cases op with
      | record rule span replacement =>
          exact ⟨_, trace_record htracing rule span replacement, rfl⟩
      | _ => exact ⟨[], (List.append_nil _).symm, rfl⟩

theorem exists_trace_performAll (b : Budget) (ops : List Op) :
    ∃ as, (b.performAll ops).trace = b.trace ++ as ∧
      as.length = if b.tracing then records ops else 0 := by
  induction ops generalizing b with
  | nil => exact ⟨[], (List.append_nil _).symm, by simp⟩
  | cons op ops ih =>
      obtain ⟨as, htrace, has⟩ := b.exists_trace_perform op
      obtain ⟨bs, htrace', hbs⟩ := ih (b.perform op)
      have hcons : records (op :: ops) = records [op] + records ops := records_append [op] ops
      refine ⟨as ++ bs, ?_, ?_⟩
      · rw [performAll_cons, htrace', htrace, List.append_assoc]
      · rw [List.length_append, has, hbs, tracing_perform, hcons]
        split <;> rfl

theorem length_trace_replay (perPosition : Nat) (cap : Option Nat) (tracing : Bool)
    (ops : List Op) :
    (replay perPosition cap tracing ops).trace.length = if tracing then records ops else 0 := by
  obtain ⟨as, htrace, has⟩ := (start perPosition cap tracing).exists_trace_performAll ops
  have hstart : (start perPosition cap tracing).trace = [] := rfl
  rw [replay, htrace, hstart, List.nil_append, has]
  rfl

/-- The entry of a step stands where the number of steps before it says, and carries the depth that
the operations before it have led to. -/
theorem getElem?_trace_replay (perPosition : Nat) (cap : Option Nat) (before after : List Op)
    (rule : String) (span : Plan) (replacement : Node) :
    (replay perPosition cap true
        (before ++ .record rule span replacement :: after)).trace[records before]? =
      some ⟨rule, (replay perPosition cap true before).depth, span.explain,
        replacement.label⟩ := by
  have hlength := length_trace_replay perPosition cap true before
  have htracing : (replay perPosition cap true before).tracing = true :=
    tracing_performAll _ before
  obtain ⟨as, htrace, -⟩ := ((replay perPosition cap true before).perform
    (.record rule span replacement)).exists_trace_performAll after
  rw [trace_record htracing, List.append_assoc] at htrace
  rw [if_pos rfl] at hlength
  rw [replay, performAll_append, performAll_cons, ← replay, htrace, ← hlength,
    List.getElem?_append_right (Nat.le_refl _), Nat.sub_self]
  rfl

/-! ## Any operations -/

/-- Whatever is done with a fresh budget, its steps are those recorded.  The cap is reached when
there are enough of them, and stays so; the budget of a position is spent when there are enough
since the last start, and children have no part in it.  The depth is the greatest balance of
children entered and left in the last operations, over all numbers of them.  A trace has one entry
for each step, in order and with the depth at that moment. -/
theorem replay_accounts (perPosition : Nat) (cap : Option Nat) (tracing : Bool) (ops : List Op) :
    (replay perPosition cap tracing ops).steps = records ops ∧
    ((replay perPosition cap tracing ops).isExhausted = true ↔
      cap.getD perPosition ≤ records ops) ∧
    (∀ more, (replay perPosition cap tracing ops).isExhausted = true →
      (replay perPosition cap tracing (ops ++ more)).isExhausted = true) ∧
    ((replay perPosition cap tracing ops).isLocalExhausted = true ↔
      perPosition ≤ records (sinceReset ops)) ∧
    (replay perPosition cap tracing (ops ++ [.enterChild])).isLocalExhausted =
      (replay perPosition cap tracing ops).isLocalExhausted ∧
    (replay perPosition cap tracing (ops ++ [.leaveChild])).isLocalExhausted =
      (replay perPosition cap tracing ops).isLocalExhausted ∧
    IsGreatest (balance '' {s | s <:+ ops}) (replay perPosition cap tracing ops).depth ∧
    (tracing = true →
      (replay perPosition cap tracing ops).trace.length = records ops ∧
      ∀ before rule span replacement after, ops = before ++ .record rule span replacement :: after →
        (replay perPosition cap tracing ops).trace[records before]? =
          some ⟨rule, (replay perPosition cap tracing before).depth, span.explain,
            replacement.label⟩) ∧
    (tracing = false → (replay perPosition cap tracing ops).trace = []) := by
  have hsteps : (replay perPosition cap tracing ops).steps = records ops :=
    (steps_performAll _ ops).trans (Nat.zero_add _)
  have hcap : (replay perPosition cap tracing ops).cap = cap.getD perPosition :=
    cap_performAll _ ops
  have hlength := length_trace_replay perPosition cap tracing ops
  refine ⟨hsteps, ?_, ?_, isLocalExhausted_replay_iff perPosition cap tracing ops, ?_, ?_,
    isGreatest_depth rfl ops, ?_, ?_⟩
  · rw [isExhausted, decide_eq_true_iff, hsteps, hcap]
  · intro more hspent
    rw [replay, performAll_append]
    exact isExhausted_performAll hspent more
  · rw [replay, performAll_concat]
    rfl
  · rw [replay, performAll_concat]
    rfl
  · rintro rfl
    refine ⟨hlength, ?_⟩
    rintro before rule span replacement after rfl
    exact getElem?_trace_replay perPosition cap before after rule span replacement
  · rintro rfl
    exact List.length_eq_zero_iff.1 hlength

def idle : Node := .branch .compose [] [] .pure

/-- Child plans are left as often as entered here, but twice in vain. -/
def wayward : List Op :=
  [.leaveChild, .enterChild, .record "first" [] idle, .leaveChild, .leaveChild, .enterChild,
    .enterChild, .resetLocal, .record "second" [] idle]

theorem replay_accounts_wayward :
    (replay 2 (some 2) true wayward).isExhausted = true ∧
    (replay 2 (some 2) true (wayward ++ [.resetLocal])).isExhausted = true ∧
    IsGreatest (balance '' {s | s <:+ wayward}) 2 ∧
    (replay 2 (some 2) true wayward).trace[1]? =
      some ⟨"second", 2, Plan.explain [], idle.label⟩ ∧
    (replay 2 none false wayward).trace = [] := by
  obtain ⟨-, hcap, hstays, -, -, -, hdepth, htrace, -⟩ := replay_accounts 2 (some 2) true wayward
  obtain ⟨-, -, -, -, -, -, -, -, hempty⟩ := replay_accounts 2 none false wayward
  have hspent := hcap.2 (by decide)
  have hentry := (htrace rfl).2 (wayward.take 8) "second" [] idle [] rfl
  exact ⟨hspent, hstays [.resetLocal] hspent, hdepth, hentry, hempty rfl⟩

end Budget
end PipelineFusion
