import PipelineFusion.Proofs.Rule.Evidence

/-!
# Strictness

A branch is as strict as the strictest of its declared purity and its children, although the walk
over them may stop early.  One classifier is laxer than another if it finds no node stricter.  To
look at more calls, or for more patterns in them, never makes a classifier laxer.
-/

namespace PipelineFusion

/-! ## The order of boundaries -/

namespace Boundary

variable {a b x y : Boundary} {bs bs' : List Boundary}

theorem le_refl (a : Boundary) : a ≤ a := Nat.le_refl a.rank

theorem le_trans (h : a ≤ b) (h' : b ≤ x) : a ≤ x := Nat.le_trans h h'

theorem le_antisymm (h : a ≤ b) (h' : b ≤ a) : a = b := rank_injective (Nat.le_antisymm h h')

theorem fullyFusable_le (a : Boundary) : fullyFusable ≤ a := Nat.zero_le a.rank

theorem le_opaqueEffect (a : Boundary) : a ≤ opaqueEffect := by
  cases a <;> decide

@[simp] theorem opaqueEffect_max (b : Boundary) : max .opaqueEffect b = .opaqueEffect := by
  cases b <;> rfl

theorem max_comm (a b : Boundary) : max a b = max b a := by
  cases a <;> cases b <;> rfl

theorem le_max_left (a b : Boundary) : a ≤ max a b := by
  cases a <;> cases b <;> decide

theorem le_max_right (a b : Boundary) : b ≤ max a b := max_comm b a ▸ le_max_left b a

theorem max_eq_left_or_right (a b : Boundary) : max a b = a ∨ max a b = b := by
  cases a <;> cases b <;> decide

theorem eq_fullyFusable_of_le (h : a ≤ b) (hb : b = fullyFusable) : a = fullyFusable := by
  subst hb
  cases a with
  | fullyFusable => rfl
  | staged => exact absurd h (by decide)
  | opaqueEffect => exact absurd h (by decide)

theorem lt_of_le_of_lt {c : Boundary} (h : a ≤ b) (hb : b < c) : a < c := Nat.lt_of_le_of_lt h hb

theorem max_le_max (h : a ≤ b) (h' : x ≤ y) : max a x ≤ max b y := by
  have ha : a.rank ≤ b.rank := h
  have hx : x.rank ≤ y.rank := h'
  change (max a x).rank ≤ (max b y).rank
  rw [rank_max, rank_max]
  omega

theorem le_strictest (h : b ∈ bs) : b ≤ strictest bs := by
  induction h with
  | head bs =>
      rw [strictest_cons]
      exact le_max_left _ _
  | tail a _ ih =>
      rw [strictest_cons]
      exact le_trans ih (le_max_right _ _)

/-- The strictest of one boundary and several others is one of them. -/
theorem max_strictest_eq_or_mem (a : Boundary) (bs : List Boundary) :
    max a (strictest bs) = a ∨ max a (strictest bs) ∈ bs := by
  induction bs generalizing a with
  | nil => exact Or.inl (max_fullyFusable a)
  | cons b bs ih =>
      rw [strictest_cons, ← max_assoc]
      rcases ih (max a b) with heq | hmem
      · rw [heq]
        rcases max_eq_left_or_right a b with hmax | hmax
        · exact Or.inl hmax
        · rw [hmax]
          exact Or.inr List.mem_cons_self
      · exact Or.inr (List.mem_cons_of_mem b hmem)

theorem strictest_eq_of_perm (h : bs.Perm bs') : strictest bs = strictest bs' := by
  induction h with
  | nil => rfl
  | cons b _ ih => rw [strictest_cons, strictest_cons, ih]
  | swap a b bs =>
      rw [strictest_cons, strictest_cons, strictest_cons, strictest_cons, ← max_assoc,
        max_comm b a, max_assoc]
  | trans _ _ ih ih' => exact ih.trans ih'

theorem strictest_le_of_forall₂ (h : List.Forall₂ (· ≤ ·) bs bs') :
    strictest bs ≤ strictest bs' := by
  induction h with
  | nil => exact le_refl _
  | cons hab _ ih =>
      rw [strictest_cons, strictest_cons]
      exact max_le_max hab ih

theorem strictest_map_le {α : Type} {f g : α → Boundary} {xs : List α}
    (h : ∀ x ∈ xs, f x ≤ g x) : strictest (xs.map f) ≤ strictest (xs.map g) := by
  apply strictest_le_of_forall₂
  rw [List.forall₂_map_left_iff, List.forall₂_map_right_iff, List.forall₂_same]
  exact h

end Boundary

/-! ## Branches -/

namespace Classifier

/-- Nothing is missed when the walk stops at the first external effect. -/
theorem raise_eq (c : Classifier) (p : Plan) (b : Boundary) :
    c.raise p b = max b (.strictest (p.map c.classify)) := by
  induction p generalizing b with
  | nil =>
      rw [raise, List.map_nil, Boundary.strictest_nil, Boundary.max_fullyFusable]
  | cons node p ih =>
      rw [raise, List.map_cons, Boundary.strictest_cons]
      split
      · next hb => rw [hb, Boundary.opaqueEffect_max]
      · rw [ih, Boundary.max_assoc]

theorem own_branch (c : Classifier) (mode : Mode) (left right : Plan) (purity : Purity) :
    c.own (.branch mode left right purity) = .ofPurity purity := by
  rw [own]
  cases c.inspector with
  | none => rfl
  | some i => exact Boundary.max_fullyFusable _

theorem classify_branch (c : Classifier) (mode : Mode) (left right : Plan) (purity : Purity) :
    c.classify (.branch mode left right purity) =
      max (max (.ofPurity purity) (.strictest (left.map c.classify)))
        (.strictest (right.map c.classify)) := by
  rw [classify, raise_eq, raise_eq, own_branch]

/-! ## Laxer classifiers -/

/-- The first classifier is laxer: it finds no node stricter than the second does. -/
instance : LE Classifier := ⟨fun c d ↦ ∀ node, c.classify node ≤ d.classify node⟩

theorem le_of_judge_le {c d : Classifier} (h : ∀ calls, c.judge calls ≤ d.judge calls) : c ≤ d := by
  have hall : ∀ p : Plan, ∀ node ∈ p, c.classify node ≤ d.classify node := by
    intro p
    induction p using Plan.induction with
    | nil => simp
    | leaf stage purity rest ih =>
        refine List.forall_mem_cons.2 ⟨?_, ih⟩
        rw [classify_leaf, classify_leaf]
        exact Boundary.max_le_max (Boundary.le_refl _) (h _)
    | branch mode left right purity rest ihl ihr ih =>
        refine List.forall_mem_cons.2 ⟨?_, ih⟩
        rw [classify_branch, classify_branch]
        exact Boundary.max_le_max
          (Boundary.max_le_max (Boundary.le_refl _) (Boundary.strictest_map_le ihl))
          (Boundary.strictest_map_le ihr)
  intro node
  exact hall [node] node List.mem_cons_self

theorem declared_le (c : Classifier) : declared ≤ c :=
  le_of_judge_le fun _ ↦ Boundary.fullyFusable_le _

end Classifier

theorem Inspector.boundary_le {i j : Inspector} (h : i.patterns ⊆ j.patterns) (call : String) :
    i.boundary call ≤ j.boundary call := by
  unfold boundary
  by_cases hknown : Call.builtin call = .opaqueEffect
  · simp only [if_pos hknown]
    exact Boundary.le_refl _
  · simp only [if_neg hknown]
    by_cases hfound : i.patterns.any (·.isMatch call) = true
    · obtain ⟨pattern, hpattern, hmatch⟩ := List.any_eq_true.1 hfound
      have hfound' : j.patterns.any (·.isMatch call) = true :=
        List.any_eq_true.2 ⟨pattern, h hpattern, hmatch⟩
      rw [if_pos hfound, if_pos hfound']
      exact Boundary.le_refl _
    · rw [if_neg hfound]
      split
      · exact Boundary.le_opaqueEffect _
      · exact Boundary.le_refl _

theorem Classifier.inspect_le {i j : Inspector} (h : i.patterns ⊆ j.patterns) :
    (⟨some i⟩ : Classifier) ≤ ⟨some j⟩ :=
  le_of_judge_le fun _ ↦ Boundary.strictest_map_le fun call _ ↦ Inspector.boundary_le h call

end PipelineFusion
