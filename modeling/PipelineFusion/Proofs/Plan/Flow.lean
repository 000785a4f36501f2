import PipelineFusion.Plan.Runner

/-!
# Batches and single values

A chain may be fed stage by stage or value by value: both give the same outputs and leave the same
memory, as long as the memory has one entry for each scan.  An empty batch leaves a chain as it is,
so nothing is lost where a run stops early.  Hence the flow through a chain splits at every
position, and a composed branch flows like its two plans in a row.
-/

namespace PipelineFusion

section Feeding

variable {M N : Type}

@[simp] theorem feedAll_nil (feed : M → Value → M × List Value) (memory : M) :
    feedAll feed memory [] = (memory, []) := rfl

theorem feedAll_cons (feed : M → Value → M × List Value) (memory : M) (x : Value)
    (xs : List Value) :
    feedAll feed memory (x :: xs) =
      ((feedAll feed (feed memory x).1 xs).1,
        (feed memory x).2 ++ (feedAll feed (feed memory x).1 xs).2) := rfl

@[simp] theorem feedAll_singleton (feed : M → Value → M × List Value) (memory : M) (x : Value) :
    feedAll feed memory [x] = feed memory x := by
  simp [feedAll_cons]

theorem feedAll_append (feed : M → Value → M × List Value) (memory : M) (xs ys : List Value) :
    feedAll feed memory (xs ++ ys) =
      ((feedAll feed (feedAll feed memory xs).1 ys).1,
        (feedAll feed memory xs).2 ++ (feedAll feed (feedAll feed memory xs).1 ys).2) := by
  induction xs generalizing memory with
  | nil => simp
  | cons x xs ih => simp [feedAll_cons, ih, List.append_assoc]

theorem feedAll_stateless (f : Value → List Value) (memory : M) (xs : List Value) :
    feedAll (fun m x ↦ (m, f x)) memory xs = (memory, xs.flatMap f) := by
  induction xs with
  | nil => rfl
  | cons x xs ih => simp [feedAll_cons, ih]

theorem feedAll_invariant {I : M → Prop} {f : M → Value → M × List Value}
    (hkeep : ∀ m x, I m → I (f m x).1) {memory : M} (hm : I memory) (xs : List Value) :
    I (feedAll f memory xs).1 := by
  induction xs generalizing memory with
  | nil => exact hm
  | cons x xs ih => exact ih (hkeep memory x hm)

theorem feedAll_simulation {I : M → Prop} {φ : M → N} {f : M → Value → M × List Value}
    {g : N → Value → N × List Value} (hkeep : ∀ m x, I m → I (f m x).1)
    (hstep : ∀ m x, I m → g (φ m) x = (φ (f m x).1, (f m x).2))
    {memory : M} (hm : I memory) (xs : List Value) :
    feedAll g (φ memory) xs = (φ (feedAll f memory xs).1, (feedAll f memory xs).2) := by
  induction xs generalizing memory with
  | nil => rfl
  | cons x xs ih =>
      rw [feedAll_cons g, hstep memory x hm, ih (hkeep memory x hm), feedAll_cons f]

/-- Two feeds in a row: the second takes, value by value, what the first gives. -/
def feedBoth (f : M → Value → M × List Value) (g : N → Value → N × List Value)
    (memory : M × N) (x : Value) : (M × N) × List Value :=
  (((f memory.1 x).1, (feedAll g memory.2 (f memory.1 x).2).1),
    (feedAll g memory.2 (f memory.1 x).2).2)

theorem feedAll_feedBoth (f : M → Value → M × List Value) (g : N → Value → N × List Value)
    (memory : M × N) (xs : List Value) :
    feedAll (feedBoth f g) memory xs =
      (((feedAll f memory.1 xs).1, (feedAll g memory.2 (feedAll f memory.1 xs).2).1),
        (feedAll g memory.2 (feedAll f memory.1 xs).2).2) := by
  induction xs generalizing memory with
  | nil => rfl
  | cons x xs ih =>
      rw [feedAll_cons, ih, feedAll_cons f, feedAll_append]
      rfl

/-- What an empty batch leaves as it is may as well be fed with it. -/
theorem unlessEmpty_eq_of_nil {feed : M → List Value → M × List Value}
    (hnil : ∀ memory, feed memory [] = (memory, [])) : unlessEmpty feed = feed := by
  funext memory batch
  cases batch with
  | nil => exact (hnil memory).symm
  | cons x xs => rfl

end Feeding

namespace Plan

@[simp] theorem flow_nil (memory batch : List Value) : flow [] memory batch = (memory, batch) :=
  rfl

theorem flow_empty (p : Plan) (memory : List Value) : flow p memory [] = (memory, []) := by
  cases p with
  | nil => rfl
  | cons node rest =>
      have hrest : flow (node :: rest) memory [] =
          (memory.take node.scans ++ memory.drop node.scans, []) := rfl
      rw [hrest, List.take_append_drop]

theorem unlessEmpty_flow (p : Plan) : unlessEmpty (flow p) = flow p :=
  unlessEmpty_eq_of_nil p.flow_empty

theorem flow_cons (node : Node) (rest : Plan) {front back : List Value}
    (hfront : front.length = node.scans) (batch : List Value) :
    flow (node :: rest) (front ++ back) batch =
      ((feedAll node.feed front batch).1 ++ (flow rest back (feedAll node.feed front batch).2).1,
        (flow rest back (feedAll node.feed front batch).2).2) := by
  have htake : (front ++ back).take node.scans = front := List.take_left' hfront
  have hdrop : (front ++ back).drop node.scans = back := List.drop_left' hfront
  simp only [flow, unlessEmpty_flow, htake, hdrop]

@[simp] theorem initial_nil : initial [] = [] := rfl

@[simp] theorem initial_cons (node : Node) (rest : Plan) :
    initial (node :: rest) = node.initial ++ initial rest := rfl

@[simp] theorem initial_append (p q : Plan) : initial (p ++ q) = initial p ++ initial q := by
  induction p with
  | nil => rfl
  | cons node p ih => simp [ih, List.append_assoc]

@[simp] theorem scans_nil : scans [] = 0 := rfl

@[simp] theorem scans_cons (node : Node) (rest : Plan) :
    scans (node :: rest) = node.scans + scans rest := by
  simp [scans, Node.scans]

@[simp] theorem scans_append (p q : Plan) : scans (p ++ q) = scans p + scans q := by
  simp [scans]

theorem exists_split {n k : Nat} {memory : List Value} (h : memory.length = n + k) :
    ∃ front back, memory = front ++ back ∧ front.length = n ∧ back.length = k := by
  refine ⟨memory.take n, memory.drop n, (List.take_append_drop n memory).symm, ?_, ?_⟩
  · rw [List.length_take]
    omega
  · rw [List.length_drop]
    omega

end Plan

@[simp] theorem Node.scans_branch (mode : Mode) (left right : Plan) (purity : Purity) :
    (Node.branch mode left right purity).scans = Plan.scans left + Plan.scans right := by
  simp [Node.scans, Node.initial, Plan.scans]

theorem Stage.length_feed (stage : Stage) {purity : Purity} {memory : List Value}
    (h : memory.length = (Node.leaf stage purity).scans) (x : Value) :
    (stage.feed memory x).1.length = (Node.leaf stage purity).scans := by
  cases stage with
  | scan init step => rfl
  | map f => exact h
  | filter p => exact h
  | filterMap f => exact h
  | flatMap f => exact h

/-! ## Branches -/

namespace Node

variable {left right : Plan} {purity : Purity} {front back : List Value}

theorem feed_compose (hfront : front.length = Plan.scans left) (x : Value) :
    (Node.branch .compose left right purity).feed (front ++ back) x =
      ((Plan.flow left front [x]).1 ++
          (feedAll (fun m y ↦ Plan.flow right m [y]) back (Plan.flow left front [x]).2).1,
        (feedAll (fun m y ↦ Plan.flow right m [y]) back (Plan.flow left front [x]).2).2) := by
  have htake : (front ++ back).take (Plan.scans left) = front := List.take_left' hfront
  have hdrop : (front ++ back).drop (Plan.scans left) = back := List.drop_left' hfront
  simp only [feed, htake, hdrop]

theorem feed_parallel (hfront : front.length = Plan.scans left) (x : Value) :
    (Node.branch .parallel left right purity).feed (front ++ back) x =
      ((Plan.flow left front [x]).1 ++ (Plan.flow right back [x]).1,
        (Plan.flow left front [x]).2 ++ (Plan.flow right back [x]).2) := by
  have htake : (front ++ back).take (Plan.scans left) = front := List.take_left' hfront
  have hdrop : (front ++ back).drop (Plan.scans left) = back := List.drop_left' hfront
  simp only [feed, htake, hdrop]

end Node

/-! ## The memory keeps its length -/

namespace Plan

private theorem length_flow_cons {node : Node} {rest : Plan}
    (hnode : ∀ m x, m.length = node.scans → (node.feed m x).1.length = node.scans)
    (hrest : ∀ m xs, m.length = rest.scans → (flow rest m xs).1.length = rest.scans)
    {memory : List Value} (h : memory.length = scans (node :: rest)) (batch : List Value) :
    (flow (node :: rest) memory batch).1.length = scans (node :: rest) := by
  rw [scans_cons] at h ⊢
  obtain ⟨front, back, rfl, hfront, hback⟩ := exists_split h
  rw [flow_cons node rest hfront, List.length_append]
  have hone := feedAll_invariant (I := fun m : List Value ↦ m.length = node.scans) hnode hfront
    batch
  rw [hone, hrest back _ hback]

theorem length_flow {plan : Plan} {memory : List Value} (h : memory.length = plan.scans)
    (batch : List Value) : (flow plan memory batch).1.length = plan.scans := by
  induction plan using Plan.induction generalizing memory batch with
  | nil => exact h
  | leaf stage purity rest ih =>
      exact length_flow_cons (fun m x hm ↦ stage.length_feed hm x) (fun _ xs hm ↦ ih hm xs) h batch
  | branch mode left right purity rest ihl ihr ih =>
      refine length_flow_cons (fun m x hm ↦ ?_) (fun _ xs hm ↦ ih hm xs) h batch
      rw [Node.scans_branch] at hm ⊢
      obtain ⟨front, back, rfl, hfront, hback⟩ := exists_split hm
      cases mode with
      | compose =>
          have hright := feedAll_invariant (I := fun m : List Value ↦ m.length = scans right)
            (fun m y hm ↦ ihr hm [y]) hback (flow left front [x]).2
          rw [Node.feed_compose hfront, List.length_append, ihl hfront, hright]
      | parallel =>
          rw [Node.feed_parallel hfront, List.length_append, ihl hfront, ihr hback]

end Plan

namespace Plan

theorem flow_singleton {node : Node} {memory : List Value} (h : memory.length = node.scans)
    (batch : List Value) : flow [node] memory batch = feedAll node.feed memory batch := by
  have hone : flow [node] (memory ++ []) batch = _ := flow_cons node [] h batch
  simpa using hone

end Plan

theorem Node.length_feed {node : Node} {memory : List Value} (h : memory.length = node.scans)
    (x : Value) : (node.feed memory x).1.length = node.scans := by
  have hscans : Plan.scans [node] = node.scans := by simp
  rw [← feedAll_singleton node.feed, ← Plan.flow_singleton h, ← hscans]
  exact Plan.length_flow (h.trans hscans.symm) [x]

/-! ## Splitting chains and batches -/

namespace Plan

theorem flow_append (p q : Plan) {front back : List Value} (hfront : front.length = p.scans)
    (batch : List Value) :
    flow (p ++ q) (front ++ back) batch =
      ((flow p front batch).1 ++ (flow q back (flow p front batch).2).1,
        (flow q back (flow p front batch).2).2) := by
  induction p generalizing front batch with
  | nil =>
      obtain rfl := List.length_eq_zero_iff.1 hfront
      simp
  | cons node p ih =>
      rw [scans_cons] at hfront
      obtain ⟨one, more, rfl, hone, hmore⟩ := exists_split hfront
      rw [List.cons_append, List.append_assoc, flow_cons node _ hone, flow_cons node p hone,
        ih hmore, List.append_assoc]

/-- Stage by stage or value by value makes no difference. -/
theorem flow_eq_feedAll {plan : Plan} {memory : List Value} (h : memory.length = plan.scans)
    (batch : List Value) :
    flow plan memory batch = feedAll (fun m x ↦ flow plan m [x]) memory batch := by
  induction plan generalizing memory batch with
  | nil => simp [feedAll_stateless (fun x ↦ [x])]
  | cons node rest ih =>
      rw [scans_cons] at h
      obtain ⟨front, back, rfl, hfront, hback⟩ := exists_split h
      -- The chain steps like the node and the rest of the chain, side by side in memory.
      have hkeep : ∀ (m : List Value × List Value) x,
          m.1.length = node.scans ∧ m.2.length = scans rest →
          (feedBoth node.feed (fun m y ↦ flow rest m [y]) m x).1.1.length = node.scans ∧
            (feedBoth node.feed (fun m y ↦ flow rest m [y]) m x).1.2.length = scans rest := by
        rintro ⟨one, more⟩ x ⟨hone, hmore⟩
        refine ⟨Node.length_feed hone x, ?_⟩
        rw [feedBoth, ← ih hmore]
        exact length_flow hmore _
      have hstep : ∀ (m : List Value × List Value) x,
          m.1.length = node.scans ∧ m.2.length = scans rest →
          flow (node :: rest) (m.1 ++ m.2) [x] =
            ((feedBoth node.feed (fun m y ↦ flow rest m [y]) m x).1.1 ++
                (feedBoth node.feed (fun m y ↦ flow rest m [y]) m x).1.2,
              (feedBoth node.feed (fun m y ↦ flow rest m [y]) m x).2) := by
        rintro ⟨one, more⟩ x ⟨hone, hmore⟩
        rw [flow_cons node rest hone, feedAll_singleton, ih hmore]
        rfl
      have hmemory : (front, back).1.length = node.scans ∧ (front, back).2.length = scans rest :=
        ⟨hfront, hback⟩
      have hall := feedAll_simulation (φ := fun m : List Value × List Value ↦ m.1 ++ m.2)
        (g := fun m x ↦ flow (node :: rest) m [x]) hkeep hstep hmemory batch
      rw [hall, feedAll_feedBoth, flow_cons node rest hfront, ih hback]

/-- A composed branch flows like its left plan followed by its right one. -/
theorem flow_compose {left right : Plan} (purity : Purity) {memory : List Value}
    (h : memory.length = scans (left ++ right)) (batch : List Value) :
    flow [.branch .compose left right purity] memory batch = flow (left ++ right) memory batch := by
  have hscans : scans (left ++ right) = (Node.branch .compose left right purity).scans := by simp
  rw [flow_singleton (h.trans hscans), flow_eq_feedAll h]
  refine feedAll_simulation (I := fun m : List Value ↦ m.length = scans (left ++ right))
    (φ := id) (f := fun m x ↦ flow (left ++ right) m [x])
    (fun m x hm ↦ length_flow hm [x]) (fun m x hm ↦ ?_) h batch
  rw [scans_append] at hm
  obtain ⟨front, back, rfl, hfront, hback⟩ := exists_split hm
  rw [id, Node.feed_compose hfront, flow_append left right hfront, ← flow_eq_feedAll hback]
  rfl

end Plan
end PipelineFusion
