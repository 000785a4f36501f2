import Mathlib.Logic.Relation
import PipelineFusion.Boundary.Classifier
import PipelineFusion.Proofs.Plan.Simulation

/-!
# Events

The external effects of a plan are numbered depth first.  An event is a value that one of them is
handed.  An observed run is a run that also lists its events in the order in which they happen; the
values that flow and the states that scans reach are those of the run itself, and it stops early
where that does.

One plan shadows another when both have the same number of effects and, from related memories on,
give the same outputs and list the same events.
-/

namespace PipelineFusion

mutual

def Node.effects (c : Classifier) : Node → Nat
  | .leaf stage purity => if c.classify (.leaf stage purity) = .opaqueEffect then 1 else 0
  | .branch _ left right _ => Plan.effects c left + Plan.effects c right

/-- The number of leaves that are external effects. -/
def Plan.effects (c : Classifier) : Plan → Nat
  | [] => 0
  | node :: rest => Node.effects c node + Plan.effects c rest

end

/-- A value handed to the effect of the given number. -/
structure Event where
  effect : Nat
  value : Value

/-- The memory of a run and the events up to now. -/
structure Observation where
  memory : List Value
  events : List Event

/-- Two parts of a plan in turn: the first owns the first `n` states, the second goes on with what
comes out of the first. -/
def Observation.inTurn {X Y Z : Type} (f : Observation → X → Observation × Y)
    (g : Observation → Y → Observation × Z) (n : Nat) (s : Observation) (x : X) : Observation × Z :=
  let (a, y) := f ⟨s.memory.take n, s.events⟩ x
  let (b, z) := g ⟨s.memory.drop n, a.events⟩ y
  (⟨a.memory ++ b.memory, b.events⟩, z)

mutual

/-- Feeds a value to a node whose first effect has the given number. -/
def Node.observe (c : Classifier) (first : Nat) :
    Node → Observation → Value → Observation × List Value
  | .leaf stage purity, s, x =>
    let (memory, out) := stage.feed s.memory x
    let events :=
      if c.classify (.leaf stage purity) = .opaqueEffect then s.events ++ [⟨first, x⟩]
      else s.events
    (⟨memory, events⟩, out)
  | .branch .compose left right _, s, x =>
    s.inTurn (Plan.observe c first left)
      (feedAll fun s y ↦ Plan.observe c (first + Plan.effects c left) right s [y])
      (Plan.scans left) [x]
  | .branch .parallel left right _, s, x =>
    s.inTurn (Plan.observe c first left)
      (fun s out ↦
        let (s, more) := Plan.observe c (first + Plan.effects c left) right s [x]
        (s, out ++ more))
      (Plan.scans left) [x]

/-- Passes a batch through a chain whose first effect has the given number. -/
def Plan.observe (c : Classifier) (first : Nat) :
    Plan → Observation → List Value → Observation × List Value
  | [], s, batch => (s, batch)
  | node :: rest, s, batch =>
    s.inTurn (feedAll (Node.observe c first node))
      (unlessEmpty (Plan.observe c (first + Node.effects c node) rest)) node.scans batch

end

namespace Plan

variable (c : Classifier)

@[simp] theorem effects_nil : effects c [] = 0 := rfl

@[simp] theorem effects_cons (node : Node) (rest : Plan) :
    effects c (node :: rest) = node.effects c + effects c rest := rfl

@[simp] theorem effects_append (p q : Plan) :
    effects c (p ++ q) = effects c p + effects c q := by
  induction p with
  | nil => simp
  | cons node p ih => simp [ih, Nat.add_assoc]

theorem observe_nil (first : Nat) (s : Observation) (batch : List Value) :
    observe c first [] s batch = (s, batch) := rfl

/-- Nothing happens with an empty batch. -/
theorem observe_empty (p : Plan) (first : Nat) (s : Observation) :
    p.observe c first s [] = (s, []) := by
  cases p with
  | nil => rfl
  | cons node rest =>
      have hrest : observe c first (node :: rest) s [] =
          (⟨s.memory.take node.scans ++ s.memory.drop node.scans, s.events⟩, []) := rfl
      rw [hrest, List.take_append_drop]

/-- Where an observed run stops early, no event is left out. -/
theorem observe_cons (node : Node) (rest : Plan) (first : Nat) :
    observe c first (node :: rest) = fun s batch ↦
      s.inTurn (feedAll (node.observe c first)) (rest.observe c (first + node.effects c)) node.scans
        batch := by
  funext s batch
  rw [observe, unlessEmpty_eq_of_nil (observe_empty c rest _)]

end Plan

/-! ## An observed run is a run -/

/-- Without its events, the observed feed is the given one. -/
def Observation.Follows {X Y : Type} (g : Observation → X → Observation × Y)
    (f : List Value → X → List Value × Y) : Prop :=
  ∀ s x, f s.memory x = ((g s x).1.memory, (g s x).2)

section Following

variable {c : Classifier}

theorem Observation.Follows.feedAll {g : Observation → Value → Observation × List Value}
    {f : List Value → Value → List Value × List Value} (h : Follows g f) :
    Follows (PipelineFusion.feedAll g) (PipelineFusion.feedAll f) := by
  intro s xs
  exact feedAll_simulation (I := fun _ ↦ True) (φ := memory) (fun _ _ _ ↦ trivial)
    (fun s x _ ↦ h s x) trivial xs

theorem Plan.follows_cons {node : Node} {rest : Plan} {first : Nat}
    (hnode : Observation.Follows (node.observe c first) node.feed)
    (hrest : ∀ k, Observation.Follows (rest.observe c k) rest.flow) :
    Observation.Follows (Plan.observe c first (node :: rest)) (Plan.flow (node :: rest)) := by
  intro s batch
  have hfront := hnode.feedAll ⟨s.memory.take node.scans, s.events⟩ batch
  have hback := hrest (first + node.effects c) ⟨s.memory.drop node.scans,
    (feedAll (node.observe c first) ⟨s.memory.take node.scans, s.events⟩ batch).1.events⟩
  simp only [flow, observe_cons, unlessEmpty_flow, Observation.inTurn, hfront, hback]

theorem Plan.follows_observe (c : Classifier) (p : Plan) (first : Nat) :
    Observation.Follows (p.observe c first) p.flow := by
  induction p using Plan.induction generalizing first with
  | nil => exact fun s batch ↦ rfl
  | leaf stage purity rest ih => exact follows_cons (fun s x ↦ rfl) ih
  | branch mode left right purity rest ihl ihr ih =>
      refine follows_cons (fun s x ↦ ?_) ih
      have hleft := ihl first ⟨s.memory.take left.scans, s.events⟩ [x]
      cases mode with
      | compose =>
          have hvalue : Observation.Follows
              (fun s y ↦ right.observe c (first + left.effects c) s [y])
              (fun memory y ↦ right.flow memory [y]) :=
            fun s y ↦ ihr (first + left.effects c) s [y]
          have hright := hvalue.feedAll ⟨s.memory.drop left.scans,
            (left.observe c first ⟨s.memory.take left.scans, s.events⟩ [x]).1.events⟩
          simp only [Node.feed, Node.observe, Observation.inTurn, hleft, hright]
      | parallel =>
          have hright := ihr (first + left.effects c) ⟨s.memory.drop left.scans,
            (left.observe c first ⟨s.memory.take left.scans, s.events⟩ [x]).1.events⟩ [x]
          simp only [Node.feed, Node.observe, Observation.inTurn, hleft, hright]

/-! ## Plans without effects -/

/-- An observed feed that lists no events. -/
def Observation.Silent {X Y : Type} (g : Observation → X → Observation × Y) : Prop :=
  ∀ s x, (g s x).1.events = s.events

theorem Observation.Silent.feedAll {g : Observation → Value → Observation × List Value}
    (h : Silent g) : Silent (PipelineFusion.feedAll g) := by
  intro s xs
  exact feedAll_invariant (I := fun t ↦ t.events = s.events) (fun t x ht ↦ (h t x).trans ht) rfl xs

theorem Observation.Silent.inTurn {X Y Z : Type} {f : Observation → X → Observation × Y}
    {g : Observation → Y → Observation × Z} (hf : Silent f) (hg : Silent g) (n : Nat) :
    Silent fun s x ↦ s.inTurn f g n x :=
  fun _ _ ↦ (hg _ _).trans (hf _ _)

theorem Plan.silent_observe {p : Plan} (hp : p.effects c = 0) (first : Nat) :
    Observation.Silent (p.observe c first) := by
  induction p using Plan.induction generalizing first with
  | nil => exact fun s batch ↦ rfl
  | leaf stage purity rest ih =>
      rw [effects_cons, Nat.add_eq_zero_iff] at hp
      have hnode : Observation.Silent (Node.observe c first (.leaf stage purity)) := by
        intro s x
        have hquiet : c.classify (.leaf stage purity) ≠ .opaqueEffect := by
          intro hopaque
          rw [Node.effects, if_pos hopaque] at hp
          exact absurd hp.1 Nat.one_ne_zero
        simp only [Node.observe, if_neg hquiet]
      rw [observe_cons]
      exact hnode.feedAll.inTurn (ih hp.2 _) _
  | branch mode left right purity rest ihl ihr ih =>
      rw [effects_cons, Nat.add_eq_zero_iff, Node.effects, Nat.add_eq_zero_iff] at hp
      have hnode : Observation.Silent (Node.observe c first (.branch mode left right purity)) := by
        intro s x
        have hleft := ihl hp.1.1 first
        have hright := ihr hp.1.2 (first + left.effects c)
        cases mode with
        | compose =>
            have hvalue : Observation.Silent
                fun s y ↦ right.observe c (first + left.effects c) s [y] :=
              fun s y ↦ hright s [y]
            exact hleft.inTurn hvalue.feedAll left.scans s [x]
        | parallel => exact (hright _ [x]).trans (hleft _ [x])
      rw [observe_cons]
      exact hnode.feedAll.inTurn (ih hp.2 _) _

theorem Plan.observe_of_effects_eq_zero {p : Plan} (hp : p.effects c = 0) (first : Nat)
    (s : Observation) (batch : List Value) :
    p.observe c first s batch =
      (⟨(p.flow s.memory batch).1, s.events⟩, (p.flow s.memory batch).2) := by
  have hflow := follows_observe c p first s batch
  have hevents := silent_observe hp first s batch
  rw [hflow, ← hevents]

end Following

/-! ## Plans in lockstep -/

/-- From related states on, both feeds give the same output and go on to related states. -/
def Lockstep {M N X Y : Type} (R : M → N → Prop) (f : M → X → M × Y) (g : N → X → N × Y) : Prop :=
  ∀ m n x, R m n → R (f m x).1 (g n x).1 ∧ (f m x).2 = (g n x).2

theorem Lockstep.feedAll {M N : Type} {R : M → N → Prop} {f : M → Value → M × List Value}
    {g : N → Value → N × List Value} (h : Lockstep R f g) :
    Lockstep R (PipelineFusion.feedAll f) (PipelineFusion.feedAll g) := by
  intro m n xs hmn
  induction xs generalizing m n with
  | nil => exact ⟨hmn, rfl⟩
  | cons x xs ih =>
      obtain ⟨hnext, hout⟩ := h m n x hmn
      obtain ⟨hlast, hrest⟩ := ih _ _ hnext
      rw [feedAll_cons, feedAll_cons, hout, hrest]
      exact ⟨hlast, rfl⟩

namespace Observation

/-- The memories are related and the events are the same. -/
def Linked (R : List Value → List Value → Prop) (s t : Observation) : Prop :=
  R s.memory t.memory ∧ s.events = t.events

/-- Both memories are in two parts, related one by one. -/
def Beside (R S : List Value → List Value → Prop) (m m' : List Value) : Prop :=
  ∃ front back front' back', m = front ++ back ∧ m' = front' ++ back' ∧ R front front' ∧
    S back back'

theorem lockstep_inTurn {X Y Z : Type} {R S : List Value → List Value → Prop}
    {f f' : Observation → X → Observation × Y} {g g' : Observation → Y → Observation × Z}
    {n n' : Nat} (hlength : ∀ m m', R m m' → m.length = n ∧ m'.length = n')
    (hf : Lockstep (Linked R) f f') (hg : Lockstep (Linked S) g g') :
    Lockstep (Linked (Beside R S)) (fun s x ↦ s.inTurn f g n x) fun s x ↦ s.inTurn f' g' n' x := by
  rintro ⟨_, events⟩ ⟨_, _⟩ x ⟨⟨front, back, front', back', rfl, rfl, hR, hS⟩, rfl⟩
  obtain ⟨hn, hn'⟩ := hlength front front' hR
  obtain ⟨⟨hmemory, hevents⟩, hmiddle⟩ := hf ⟨front, events⟩ ⟨front', events⟩ x ⟨hR, rfl⟩
  obtain ⟨⟨hmemory', hevents'⟩, hout⟩ := hg _ _ (f ⟨front, events⟩ x).2
    (show Linked S ⟨back, (f ⟨front, events⟩ x).1.events⟩ ⟨back', (f' ⟨front', events⟩ x).1.events⟩
      from ⟨hS, hevents⟩)
  simp only [inTurn, List.take_left' hn, List.take_left' hn', List.drop_left' hn,
    List.drop_left' hn', ← hmiddle]
  exact ⟨⟨⟨_, _, _, _, rfl, rfl, hmemory, hmemory'⟩, hevents'⟩, hout⟩

/-- It does not matter how three parts in turn are taken together. -/
theorem inTurn_assoc {W X Y Z : Type} (f : Observation → W → Observation × X)
    (g : Observation → X → Observation × Y) (h : Observation → Y → Observation × Z) (n k : Nat)
    (s : Observation) (x : W) :
    s.inTurn (fun s x ↦ s.inTurn f g n x) h (n + k) x =
      s.inTurn f (fun s y ↦ s.inTurn g h k y) n x := by
  simp only [inTurn, List.take_take, List.drop_take, List.drop_drop, List.append_assoc,
    Nat.add_sub_cancel_left, Nat.min_eq_left (Nat.le_add_right n k)]

end Observation

theorem Plan.observe_append (c : Classifier) (p q : Plan) (first : Nat) (s : Observation)
    (batch : List Value) :
    (p ++ q).observe c first s batch =
      s.inTurn (p.observe c first) (q.observe c (first + p.effects c)) p.scans batch := by
  induction p generalizing first s batch with
  | nil => simp [Observation.inTurn, observe_nil]
  | cons node p ih =>
      have hrest : observe c (first + node.effects c) (p ++ q) =
          fun (s : Observation) xs ↦ s.inTurn (observe c (first + node.effects c) p)
            (observe c (first + node.effects c + effects c p) q) (scans p) xs := by
        funext s xs
        exact ih _ s xs
      rw [List.cons_append, observe_cons, observe_cons, hrest, effects_cons, scans_cons,
        ← Nat.add_assoc]
      exact (Observation.inTurn_assoc _ _ _ _ _ s batch).symm

/-- From memories related by `R` on, `q` gives the outputs of `p` and lists its events. -/
structure Plan.Shadows (c : Classifier) (q p : Plan) (R : List Value → List Value → Prop) :
    Prop where
  effects_eq : q.effects c = p.effects c
  initial : R q.initial p.initial
  length_eq : ∀ m m', R m m' → m.length = q.scans ∧ m'.length = p.scans
  lockstep : ∀ first, Lockstep (Observation.Linked R) (q.observe c first) (p.observe c first)

namespace Plan

theorem observe_singleton {c : Classifier} {node : Node} {memory : List Value}
    (h : memory.length = node.scans) (first : Nat) (events : List Event) (batch : List Value) :
    observe c first [node] ⟨memory, events⟩ batch =
      feedAll (node.observe c first) ⟨memory, events⟩ batch := by
  simp [observe_cons, observe_nil, Observation.inTurn, List.take_of_length_le (Nat.le_of_eq h),
    List.drop_of_length_le (Nat.le_of_eq h)]

namespace Shadows

open Observation

variable {c : Classifier} {p q r p' q' : Plan} {R S : List Value → List Value → Prop}

theorem refl (c : Classifier) (p : Plan) :
    p.Shadows c p fun m m' ↦ m = m' ∧ m.length = p.scans where
  effects_eq := rfl
  initial := ⟨rfl, rfl⟩
  length_eq := by
    rintro m _ ⟨rfl, h⟩
    exact ⟨h, h⟩
  lockstep := by
    rintro first ⟨m, events⟩ ⟨_, _⟩ batch ⟨⟨rfl, hm⟩, rfl⟩
    have hflow := follows_observe c p first ⟨m, events⟩ batch
    have hlength := length_flow hm batch
    rw [hflow] at hlength
    exact ⟨⟨⟨rfl, hlength⟩, rfl⟩, rfl⟩

theorem trans (h : q.Shadows c p R) (h' : r.Shadows c q S) :
    r.Shadows c p (Relation.Comp S R) where
  effects_eq := h'.effects_eq.trans h.effects_eq
  initial := ⟨q.initial, h'.initial, h.initial⟩
  length_eq := by
    rintro m m'' ⟨m', hS, hR⟩
    exact ⟨(h'.length_eq m m' hS).1, (h.length_eq m' m'' hR).2⟩
  lockstep := by
    rintro first ⟨m, events⟩ ⟨m'', _⟩ batch ⟨⟨m', hS, hR⟩, rfl⟩
    obtain ⟨⟨hS', hevents⟩, hout⟩ := h'.lockstep first ⟨m, events⟩ ⟨m', events⟩ batch ⟨hS, rfl⟩
    obtain ⟨⟨hR', hevents'⟩, hout'⟩ := h.lockstep first ⟨m', events⟩ ⟨m'', events⟩ batch ⟨hR, rfl⟩
    exact ⟨⟨⟨_, hS', hR'⟩, hevents.trans hevents'⟩, hout.trans hout'⟩

/-- Where there are no effects, it is enough to simulate. -/
theorem of_simulates {ts : List Nesting} (h : q.Simulates p ts) (hq : q.effects c = 0)
    (hp : p.effects c = 0) :
    q.Shadows c p fun m m' ↦ m.length = q.scans ∧ m' = unnest ts m where
  effects_eq := hq.trans hp.symm
  initial := ⟨rfl, h.initial_eq.symm⟩
  length_eq := by
    rintro m _ ⟨hm, rfl⟩
    exact ⟨hm, h.length_unnest hm⟩
  lockstep := by
    rintro first ⟨m, events⟩ ⟨_, _⟩ batch ⟨⟨hm, rfl⟩, rfl⟩
    rw [observe_of_effects_eq_zero hq, observe_of_effects_eq_zero hp, h.flow_eq m hm batch]
    exact ⟨⟨⟨length_flow hm batch, rfl⟩, rfl⟩, rfl⟩

theorem length_beside (h : q.Shadows c p R) (h' : q'.Shadows c p' S) (m m' : List Value)
    (hm : Beside R S m m') : m.length = q.scans + q'.scans ∧ m'.length = p.scans + p'.scans := by
  obtain ⟨front, back, front', back', rfl, rfl, hR, hS⟩ := hm
  rw [List.length_append, List.length_append, (h.length_eq _ _ hR).1, (h.length_eq _ _ hR).2,
    (h'.length_eq _ _ hS).1, (h'.length_eq _ _ hS).2]
  exact ⟨rfl, rfl⟩

theorem append (h : q.Shadows c p R) (h' : q'.Shadows c p' S) :
    (q ++ q').Shadows c (p ++ p') (Beside R S) where
  effects_eq := by rw [effects_append, effects_append, h.effects_eq, h'.effects_eq]
  initial := ⟨_, _, _, _, initial_append q q', initial_append p p', h.initial, h'.initial⟩
  length_eq := by
    rw [scans_append, scans_append]
    exact h.length_beside h'
  lockstep := by
    intro first s t batch hst
    rw [observe_append, observe_append, h.effects_eq]
    exact lockstep_inTurn h.length_eq (h.lockstep first) (h'.lockstep _) s t batch hst

theorem branch (mode : Mode) (purity : Purity) (h : q.Shadows c p R) (h' : q'.Shadows c p' S) :
    Shadows c [.branch mode q q' purity] [.branch mode p p' purity] (Beside R S) where
  effects_eq := by simp [Node.effects, h.effects_eq, h'.effects_eq]
  initial := ⟨_, _, _, _, by simp [Node.initial], by simp [Node.initial], h.initial, h'.initial⟩
  length_eq := by simpa using h.length_beside h'
  lockstep := by
    intro first
    have hnode : Lockstep (Linked (Beside R S))
        (Node.observe c first (.branch mode q q' purity))
        (Node.observe c first (.branch mode p p' purity)) := by
      intro s t x hst
      have hright := h'.lockstep (first + p.effects c)
      cases mode with
      | compose =>
          have hvalue : Lockstep (Linked S) (fun s y ↦ q'.observe c (first + p.effects c) s [y])
              (fun s y ↦ p'.observe c (first + p.effects c) s [y]) :=
            fun s t y ↦ hright s t [y]
          rw [Node.observe, Node.observe, h.effects_eq]
          exact lockstep_inTurn h.length_eq (h.lockstep first) hvalue.feedAll s t [x] hst
      | parallel =>
          have hvalue : Lockstep (Linked S)
              (fun s out ↦ ((q'.observe c (first + p.effects c) s [x]).1,
                out ++ (q'.observe c (first + p.effects c) s [x]).2))
              (fun s out ↦ ((p'.observe c (first + p.effects c) s [x]).1,
                out ++ (p'.observe c (first + p.effects c) s [x]).2)) := by
            intro s t out hst
            obtain ⟨hnext, hmore⟩ := hright s t [x] hst
            exact ⟨hnext, congrArg (out ++ ·) hmore⟩
          rw [Node.observe, Node.observe, h.effects_eq]
          exact lockstep_inTurn h.length_eq (h.lockstep first) hvalue s t [x] hst
    rintro ⟨m, events⟩ ⟨m', events'⟩ batch hst
    obtain ⟨hm, hm'⟩ := h.length_beside h' m m' hst.1
    rw [observe_singleton (by simpa using hm), observe_singleton (by simpa using hm')]
    exact hnode.feedAll _ _ batch hst

end Shadows
end Plan
end PipelineFusion
