import PipelineFusion.Proofs.Plan.Flow

/-!
# Simulation with nested states

One plan simulates another when it gives the same outputs while each of its scan states holds one or
more states of the other plan, nested in pairs.  The nesting is fixed before the run, so the states
of the simulated plan can be read off at any time.  Simulation is reflexive and transitive, and it
passes from parts of a plan to the whole.
-/

namespace PipelineFusion

/-- How several states are nested in one: not at all, or in the two components of a pair. -/
inductive Nesting where
  | whole
  | pair (first second : Nesting)
  deriving DecidableEq, Repr

namespace Nesting

def size : Nesting → Nat
  | .whole => 1
  | .pair first second => first.size + second.size

def sizes : List Nesting → Nat
  | [] => 0
  | t :: ts => t.size + sizes ts

/-- The states nested in a value, from left to right. -/
def parts : Nesting → Value → List Value
  | .whole, v => [v]
  | .pair first second, v => first.parts v.intoPair.1 ++ second.parts v.intoPair.2

@[simp] theorem parts_whole (v : Value) : whole.parts v = [v] := rfl

@[simp] theorem parts_pair (s t : Nesting) (v : Value) :
    (pair s t).parts v = s.parts v.intoPair.1 ++ t.parts v.intoPair.2 := rfl

@[simp] theorem length_parts (t : Nesting) (v : Value) : (t.parts v).length = t.size := by
  induction t generalizing v with
  | whole => rfl
  | pair s t ihs iht => simp [ihs, iht, size]

end Nesting

/-- All states nested in a memory, with one nesting for each of its entries. -/
def unnest : List Nesting → List Value → List Value
  | t :: ts, v :: memory => t.parts v ++ unnest ts memory
  | _, _ => []

@[simp] theorem unnest_nil (memory : List Value) : unnest [] memory = [] := by
  cases memory <;> rfl

@[simp] theorem unnest_cons (t : Nesting) (ts : List Nesting) (v : Value) (memory : List Value) :
    unnest (t :: ts) (v :: memory) = t.parts v ++ unnest ts memory := rfl

theorem unnest_append {ts : List Nesting} {front : List Value} (h : front.length = ts.length)
    (us : List Nesting) (back : List Value) :
    unnest (ts ++ us) (front ++ back) = unnest ts front ++ unnest us back := by
  induction ts generalizing front with
  | nil =>
      obtain rfl := List.length_eq_zero_iff.1 h
      simp
  | cons t ts ih =>
      obtain ⟨v, front, rfl⟩ := List.exists_cons_of_length_eq_add_one h
      simp [ih (Nat.succ.inj h), List.append_assoc]

theorem length_unnest {ts : List Nesting} {memory : List Value} (h : memory.length = ts.length) :
    (unnest ts memory).length = Nesting.sizes ts := by
  induction ts generalizing memory with
  | nil => simp [Nesting.sizes]
  | cons t ts ih =>
      obtain ⟨v, memory, rfl⟩ := List.exists_cons_of_length_eq_add_one h
      simp [Nesting.sizes, ih (Nat.succ.inj h)]

theorem unnest_whole (memory : List Value) :
    unnest (List.replicate memory.length .whole) memory = memory := by
  induction memory with
  | nil => rfl
  | cons v memory ih => simp [List.replicate_succ, ih]

theorem Nesting.exists_graft (u : Nesting) {ts : List Nesting} (h : ts.length = u.size) :
    ∃ t : Nesting, ∀ v, t.parts v = unnest ts (u.parts v) := by
  induction u generalizing ts with
  | whole =>
      obtain ⟨t, rfl⟩ := List.length_eq_one_iff.1 h
      exact ⟨t, fun v ↦ by simp⟩
  | pair s u ihs ihu =>
      have hs : (ts.take s.size).length = s.size := by
        rw [List.length_take, h, size]
        omega
      have hu : (ts.drop s.size).length = u.size := by
        rw [List.length_drop, h, size]
        omega
      obtain ⟨first, hfirst⟩ := ihs hs
      obtain ⟨second, hsecond⟩ := ihu hu
      refine ⟨.pair first second, ?_⟩
      intro v
      have hlength : (s.parts v.intoPair.1).length = (ts.take s.size).length := by
        rw [length_parts, hs]
      rw [parts_pair, parts_pair, hfirst, hsecond, ← unnest_append hlength,
        List.take_append_drop]

theorem exists_unnest_unnest (us : List Nesting) {ts : List Nesting}
    (h : ts.length = Nesting.sizes us) :
    ∃ vs : List Nesting, vs.length = us.length ∧
      ∀ memory : List Value, memory.length = us.length →
        unnest vs memory = unnest ts (unnest us memory) := by
  induction us generalizing ts with
  | nil => exact ⟨[], rfl, fun memory _ ↦ by simp [List.length_eq_zero_iff.1 h]⟩
  | cons u us ih =>
      rw [Nesting.sizes] at h
      have hu : (ts.take u.size).length = u.size := by
        rw [List.length_take]
        omega
      have hus : (ts.drop u.size).length = Nesting.sizes us := by
        rw [List.length_drop]
        omega
      obtain ⟨t, ht⟩ := u.exists_graft hu
      obtain ⟨vs, hlength, hvs⟩ := ih hus
      refine ⟨t :: vs, by simp [hlength], ?_⟩
      intro memory hmemory
      obtain ⟨v, memory, rfl⟩ := List.exists_cons_of_length_eq_add_one hmemory
      have hparts : (u.parts v).length = (ts.take u.size).length := by
        rw [Nesting.length_parts, hu]
      rw [unnest_cons, unnest_cons, ht, hvs memory (Nat.succ.inj hmemory),
        ← unnest_append hparts, List.take_append_drop]

/-- The plan `q` gives the outputs of `p`, and its memory holds that of `p` in the given nesting. -/
structure Plan.Simulates (q p : Plan) (ts : List Nesting) : Prop where
  length_eq : ts.length = q.scans
  initial_eq : unnest ts q.initial = p.initial
  flow_eq : ∀ memory : List Value, memory.length = q.scans → ∀ batch : List Value,
    Plan.flow p (unnest ts memory) batch =
      (unnest ts (Plan.flow q memory batch).1, (Plan.flow q memory batch).2)

namespace Plan

theorem length_unnest_eq_scans {p q : Plan} {ts : List Nesting} (hlength : ts.length = q.scans)
    (hinitial : unnest ts q.initial = p.initial) {memory : List Value}
    (hmemory : memory.length = q.scans) : (unnest ts memory).length = p.scans := by
  have hq : q.initial.length = ts.length := hlength.symm
  rw [length_unnest (hmemory.trans hlength.symm), ← length_unnest hq, hinitial]
  rfl

namespace Simulates

variable {p q r p' q' : Plan} {ts us : List Nesting}

theorem refl (p : Plan) : p.Simulates p (List.replicate p.scans .whole) where
  length_eq := List.length_replicate
  initial_eq := unnest_whole p.initial
  flow_eq := by
    intro memory h batch
    have hflow := length_flow h batch
    have hwhole := unnest_whole (flow p memory batch).1
    rw [hflow] at hwhole
    rw [← h, unnest_whole, h, hwhole]

theorem length_unnest (h : q.Simulates p ts) {memory : List Value}
    (hmemory : memory.length = q.scans) : (unnest ts memory).length = p.scans :=
  length_unnest_eq_scans h.length_eq h.initial_eq hmemory

theorem trans (hqp : q.Simulates p ts) (hrq : r.Simulates q us) :
    ∃ vs, r.Simulates p vs := by
  have hinitial : r.initial.length = us.length := hrq.length_eq.symm
  have hlength : ts.length = Nesting.sizes us := by
    rw [hqp.length_eq, ← PipelineFusion.length_unnest hinitial, hrq.initial_eq]
    rfl
  obtain ⟨vs, hvs, hunnest⟩ := exists_unnest_unnest us hlength
  refine ⟨vs, hvs.trans hrq.length_eq, ?_, ?_⟩
  · rw [hunnest _ hinitial, hrq.initial_eq, hqp.initial_eq]
  · intro memory hmemory batch
    have hnext : (flow r memory batch).1.length = us.length :=
      (length_flow hmemory batch).trans hrq.length_eq.symm
    rw [hunnest _ (hmemory.trans hrq.length_eq.symm),
      hqp.flow_eq _ (hrq.length_unnest hmemory), hrq.flow_eq _ hmemory, hunnest _ hnext]

theorem append (h : q.Simulates p ts) (h' : q'.Simulates p' us) :
    (q ++ q').Simulates (p ++ p') (ts ++ us) where
  length_eq := by simp [h.length_eq, h'.length_eq]
  initial_eq := by
    have hinitial : q.initial.length = ts.length := h.length_eq.symm
    rw [initial_append, unnest_append hinitial, h.initial_eq, h'.initial_eq, ← initial_append]
  flow_eq := by
    intro memory hmemory batch
    rw [scans_append] at hmemory
    obtain ⟨front, back, rfl, hfront, hback⟩ := exists_split hmemory
    have hnext : (flow q front batch).1.length = ts.length :=
      (length_flow hfront batch).trans h.length_eq.symm
    rw [unnest_append (hfront.trans h.length_eq.symm), flow_append p p' (h.length_unnest hfront),
      h.flow_eq front hfront, h'.flow_eq back hback, flow_append q q' hfront,
      unnest_append hnext]

theorem of_singleton (hlength : ts.length = q.scans) (hinitial : unnest ts q.initial = p.initial)
    (hflow : ∀ memory : List Value, memory.length = q.scans → ∀ x,
      flow p (unnest ts memory) [x] =
        (unnest ts (flow q memory [x]).1, (flow q memory [x]).2)) : q.Simulates p ts where
  length_eq := hlength
  initial_eq := hinitial
  flow_eq := by
    intro memory hmemory batch
    have hp := length_unnest_eq_scans hlength hinitial hmemory
    rw [flow_eq_feedAll hp, flow_eq_feedAll hmemory]
    exact feedAll_simulation (I := fun m : List Value ↦ m.length = q.scans)
      (f := fun m x ↦ flow q m [x]) (fun m x hm ↦ length_flow hm [x])
      (fun m x hm ↦ hflow m hm x) hmemory batch

theorem branch (mode : Mode) (purity : Purity) (h : q.Simulates p ts)
    (h' : q'.Simulates p' us) :
    Simulates [.branch mode q q' purity] [.branch mode p p' purity] (ts ++ us) := by
  have happend := h.append h'
  cases mode with
  | compose =>
      -- A composed branch flows like its plans in a row.
      refine ⟨by simpa using happend.length_eq,
        by simpa [Node.initial] using happend.initial_eq, ?_⟩
      intro memory hmemory batch
      have hq : memory.length = scans (q ++ q') := by simpa using hmemory
      rw [flow_compose purity (happend.length_unnest hq), happend.flow_eq memory hq,
        flow_compose purity hq]
  | parallel =>
      refine of_singleton (by simpa using happend.length_eq)
        (by simpa [Node.initial] using happend.initial_eq) ?_
      intro memory hmemory x
      have hq : memory.length = q.scans + q'.scans := by simpa using hmemory
      obtain ⟨front, back, rfl, hfront, hback⟩ := exists_split hq
      have hp : (unnest ts front ++ unnest us back).length =
          (Node.branch .parallel p p' purity).scans := by
        simp [h.length_unnest hfront, h'.length_unnest hback]
      have hnext : (flow q front [x]).1.length = ts.length :=
        (length_flow hfront [x]).trans h.length_eq.symm
      rw [unnest_append (hfront.trans h.length_eq.symm), flow_singleton hp, feedAll_singleton,
        Node.feed_parallel (h.length_unnest hfront), h.flow_eq front hfront,
        h'.flow_eq back hback, flow_singleton (by simpa using hq), feedAll_singleton,
        Node.feed_parallel hfront, unnest_append hnext]

end Simulates
end Plan
end PipelineFusion
