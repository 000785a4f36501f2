import Mathlib
import PipelineFusion.Proofs.Boundary.Subtree

/-!
# Disguised calls

A call is judged by its base name, so neither a qualifier in front of it nor the case of its letters
can hide it.  Patterns see the call as it is written, but all they can do is to make it stricter.  A
leaf whose calls are disguised is thus at least as strict as the built-in lists have it for the plain
calls.
-/

namespace PipelineFusion

/-! ## Base names -/

namespace Call

/-- The part of a call after its last separator. -/
def name (call : String) : List Char := (call.toList.reverse.takeWhile (!isSeparator ·)).reverse

theorem base_eq_ofList (call : String) : base call = String.ofList ((name call).map Char.toLower) :=
  rfl

theorem isSeparator_iff {c : Char} : isSeparator c = true ↔ c = ':' ∨ c = '.' := by
  simp [isSeparator]

theorem isSeparator_of_isAlpha {c : Char} (h : c.isAlpha = true) : isSeparator c = false := by
  by_contra hseparator
  rcases isSeparator_iff.1 (Bool.of_not_eq_false hseparator) with rfl | rfl
  · exact absurd h (by decide)
  · exact absurd h (by decide)

@[simp] theorem isSeparator_toLower (c : Char) : isSeparator c.toLower = isSeparator c := by
  by_cases hupper : c.isUpper = true
  · have hletter : c.isAlpha = true := by rw [Char.isAlpha, hupper, Bool.true_or]
    have hlower : c.toLower.isAlpha = true := by rw [Char.isAlpha_toLower_eq_isAlpha, hletter]
    rw [isSeparator_of_isAlpha hletter, isSeparator_of_isAlpha hlower]
  · rw [Char.toLower_eq_of_not_isUpper hupper]

/-- Separators have no case, so the base name can as well be cut from the call in lower case. -/
theorem map_toLower_name (call : String) :
    (name call).map Char.toLower =
      ((call.toList.map Char.toLower).reverse.takeWhile (!isSeparator ·)).reverse := by
  have htest : (fun c ↦ !isSeparator c) ∘ Char.toLower = fun c ↦ !isSeparator c := by
    funext c
    simp
  calc (name call).map Char.toLower
    _ = ((call.toList.reverse.takeWhile (!isSeparator ·)).map Char.toLower).reverse :=
      List.map_reverse
    _ = ((call.toList.reverse.map Char.toLower).takeWhile (!isSeparator ·)).reverse := by
      rw [List.takeWhile_map, htest]
    _ = _ := by rw [List.map_reverse]

/-- The same letters, each of them in either case. -/
def Recased (call other : String) : Prop :=
  List.Forall₂ (fun a b : Char ↦ b = a ∨ b = a.toLower ∨ b = a.toUpper) call.toList other.toList

theorem Recased.map_toLower_eq {call other : String} (h : Recased call other) :
    call.toList.map Char.toLower = other.toList.map Char.toLower := by
  rw [← List.forall₂_eq_eq_eq, List.forall₂_map_left_iff, List.forall₂_map_right_iff]
  refine h.imp ?_
  rintro a b (rfl | rfl | rfl)
  · rfl
  · rw [Char.toLower_toLower_eq_toLower]
  · rw [Char.toLower_toUpper_eq_toLower]

theorem base_eq_of_recased {call other : String} (h : Recased call other) :
    base other = base call := by
  rw [base_eq_ofList, base_eq_ofList, map_toLower_name, map_toLower_name, h.map_toLower_eq]

theorem base_eq_of_toList_eq {call rest : String} (qualifier : List Char) {separator : Char}
    (hseparator : isSeparator separator = true)
    (h : call.toList = qualifier ++ separator :: rest.toList) : base call = base rest := by
  have hname : name call = name rest := by
    rw [name, h, List.reverse_append, List.reverse_cons, List.append_assoc, List.singleton_append,
      takeWhile_append_cons_of_neg (by simp [hseparator]), name]
  rw [base_eq_ofList, base_eq_ofList, hname]

theorem base_append_separator (qualifier call : String) {separator : String}
    (h : separator = ":" ∨ separator = ".") :
    base (qualifier ++ separator ++ call) = base call := by
  rcases h with rfl | rfl
  · exact base_eq_of_toList_eq qualifier.toList (show isSeparator ':' = true from rfl) (by simp)
  · exact base_eq_of_toList_eq qualifier.toList (show isSeparator '.' = true from rfl) (by simp)

/-- The second call is made from the first by putting qualifiers in front and changing the case of
letters, any number of times. -/
inductive Disguises : String → String → Prop
  | plain (call : String) : Disguises call call
  | qualified {call hidden separator : String} (qualifier : String)
      (hseparator : separator = ":" ∨ separator = ".") (h : Disguises call hidden) :
      Disguises call (qualifier ++ separator ++ hidden)
  | recased {call hidden other : String} (h : Disguises call hidden) (hcase : Recased hidden other) :
      Disguises call other

theorem Disguises.base_eq {call hidden : String} (h : Disguises call hidden) :
    base hidden = base call := by
  induction h with
  | plain => rfl
  | qualified qualifier hseparator _ ih => rw [base_append_separator qualifier _ hseparator, ih]
  | recased _ hcase ih => rw [base_eq_of_recased hcase, ih]

theorem recased_base (call : String) : Recased (base call) (String.ofList (name call)) := by
  rw [Recased, base_eq_ofList, String.toList_ofList, String.toList_ofList,
    List.forall₂_map_left_iff, List.forall₂_same]
  intro c _
  by_cases hupper : c.isUpper = true
  · have hlower : ¬ c.isLower = true := Char.not_isLower_of_isUpper hupper
    rw [Char.toUpper_toLower_eq_toUpper, Char.toUpper_eq_of_not_isLower hlower]
    exact Or.inr (Or.inr rfl)
  · exact Or.inl (Char.toLower_eq_of_not_isUpper hupper).symm

theorem eq_or_exists_qualifier (call : String) :
    call = String.ofList (name call) ∨ ∃ qualifier separator : String,
      (separator = ":" ∨ separator = ".") ∧
        call = qualifier ++ separator ++ String.ofList (name call) := by
  have hsplit : call.toList =
      (call.toList.reverse.dropWhile (!isSeparator ·)).reverse ++ name call := by
    rw [name, ← List.reverse_append, List.takeWhile_append_dropWhile, List.reverse_reverse]
  cases hrest : call.toList.reverse.dropWhile (!isSeparator ·) with
  | nil =>
      rw [hrest, List.reverse_nil, List.nil_append] at hsplit
      exact Or.inl (String.toList_inj.1 (hsplit.trans String.toList_ofList.symm))
  | cons separator more =>
      have hhead : isSeparator separator = true := by
        have hnot := List.head_dropWhile_not (!isSeparator ·) (l := call.toList.reverse)
          (by rw [hrest]; exact List.cons_ne_nil _ _)
        simpa [hrest] using hnot
      refine Or.inr ⟨String.ofList more.reverse, String.singleton separator, ?_, ?_⟩
      · rcases isSeparator_iff.1 hhead with rfl | rfl
        · exact Or.inl rfl
        · exact Or.inr rfl
      · apply String.toList_inj.1
        rw [hsplit, hrest]
        simp

/-- Every call is its base name in disguise. -/
theorem disguises_base (call : String) : Disguises (base call) call := by
  have hname := Disguises.recased (.plain _) (recased_base call)
  rcases eq_or_exists_qualifier call with heq | ⟨qualifier, separator, hseparator, heq⟩
  · rwa [← heq] at hname
  · have hqualified := hname.qualified qualifier hseparator
    rwa [← heq] at hqualified

end Call

/-! ## Boundaries of disguised calls -/

namespace Inspector

theorem boundary_of_no_patterns {i : Inspector} (hi : i.patterns = []) (call : String) :
    i.boundary call = Call.builtin call := by
  rw [boundary_eq_max, hi]
  exact Boundary.max_fullyFusable _

theorem boundary_eq_of_base_eq {i : Inspector} (hi : i.patterns = []) {call other : String}
    (h : Call.base other = Call.base call) : i.boundary other = i.boundary call := by
  rw [boundary_of_no_patterns hi, boundary_of_no_patterns hi, Call.builtin, Call.builtin, h]

theorem boundary_empty_le (i : Inspector) (call : String) :
    Inspector.boundary {} call ≤ i.boundary call :=
  boundary_le (List.nil_subset _) call

theorem boundary_eq_or (i : Inspector) (call : String) :
    i.boundary call = Inspector.boundary {} call ∨ i.boundary call = .opaqueEffect := by
  rw [boundary_eq_max i, boundary_of_no_patterns rfl]
  split
  · exact Or.inr (by rw [Boundary.max_comm, Boundary.opaqueEffect_max])
  · exact Or.inl (Boundary.max_fullyFusable _)

theorem boundary_le_of_disguises (i : Inspector) {call hidden : String}
    (h : Call.Disguises call hidden) : Inspector.boundary {} call ≤ i.boundary hidden := by
  rw [← boundary_eq_of_base_eq (i := {}) rfl h.base_eq]
  exact i.boundary_empty_le hidden

end Inspector

/-! ## Leaves with disguised calls -/

namespace Classifier

theorem classify_le_of_disguises (i : Inspector) {plain hidden : Stage} (purity : Purity)
    (h : List.Forall₂ Call.Disguises plain.declaration.calls hidden.declaration.calls) :
    builtin.classify (.leaf plain purity) ≤ classify ⟨some i⟩ (.leaf hidden purity) := by
  have hplain : builtin.judge plain.declaration.calls =
      .strictest (plain.declaration.calls.map (Inspector.boundary {})) :=
    judge_of_inspector rfl _
  have hhidden : judge ⟨some i⟩ hidden.declaration.calls =
      .strictest (hidden.declaration.calls.map i.boundary) :=
    judge_of_inspector rfl _
  have hcalls : Boundary.strictest (plain.declaration.calls.map (Inspector.boundary {})) ≤
      .strictest (hidden.declaration.calls.map i.boundary) := by
    apply Boundary.strictest_le_of_forall₂
    rw [List.forall₂_map_left_iff, List.forall₂_map_right_iff]
    exact h.imp fun _ _ ↦ i.boundary_le_of_disguises
  rw [classify_leaf, classify_leaf, hplain, hhidden]
  exact Boundary.max_le_max (Boundary.le_refl _) hcalls

/-- Without patterns, neither a qualifier nor a change of case changes the boundary of a call.
Patterns leave it as it is or make the call an external effect.  So a leaf with disguised calls is
no less strict than the built-in lists have it for the plain calls, of which those in lower case and
without qualifiers are an instance. -/
theorem disguise_hides_nothing (i : Inspector) :
    (i.patterns = [] →
      (∀ qualifier call : String, i.boundary (qualifier ++ ":" ++ call) = i.boundary call ∧
        i.boundary (qualifier ++ "." ++ call) = i.boundary call) ∧
      ∀ call other : String, Call.Recased call other → i.boundary other = i.boundary call) ∧
    (∀ call : String, Inspector.boundary {} call ≤ i.boundary call ∧
      (i.boundary call = Inspector.boundary {} call ∨ i.boundary call = .opaqueEffect)) ∧
    (∀ call : String, Call.Disguises (Call.base call) call) ∧
    ∀ (plain hidden : Stage) (purity : Purity),
      List.Forall₂ Call.Disguises plain.declaration.calls hidden.declaration.calls →
      builtin.classify (.leaf plain purity) ≤ classify ⟨some i⟩ (.leaf hidden purity) := by
  refine ⟨?_, fun call ↦ ⟨i.boundary_empty_le call, i.boundary_eq_or call⟩, Call.disguises_base,
    fun plain hidden purity ↦ classify_le_of_disguises i purity⟩
  intro hi
  refine ⟨fun qualifier call ↦ ⟨?_, ?_⟩, fun call other hcase ↦ ?_⟩
  · exact Inspector.boundary_eq_of_base_eq hi (Call.base_append_separator _ _ (.inl rfl))
  · exact Inspector.boundary_eq_of_base_eq hi (Call.base_append_separator _ _ (.inr rfl))
  · exact Inspector.boundary_eq_of_base_eq hi (Call.base_eq_of_recased hcase)

/-- Printing in capitals, and printing under a qualifier next to a call that a pattern finds. -/
theorem classify_disguised_println :
    Inspector.boundary {} "PrintLn" = .opaqueEffect ∧
      builtin.classify (.leaf (calling ["println", "tick"]) .pure) ≤
        classify ⟨some ⟨[.one .digit]⟩⟩
          (.leaf (calling ["std::io" ++ "." ++ "PrintLn", "v2" ++ ":" ++ "tick"]) .pure) := by
  have hcase : Call.Recased "println" "PrintLn" := by
    unfold Call.Recased
    decide
  have hprinting := ((disguise_hides_nothing {}).1 rfl).2 "println" "PrintLn" hcase
  have hhidden : List.Forall₂ Call.Disguises ["println", "tick"]
      ["std::io" ++ "." ++ "PrintLn", "v2" ++ ":" ++ "tick"] :=
    .cons (.qualified "std::io" (.inr rfl) (.recased (.plain _) hcase))
      (.cons (.qualified "v2" (.inl rfl) (.plain _)) .nil)
  refine ⟨hprinting.trans (by decide +kernel), ?_⟩
  exact (disguise_hides_nothing ⟨[.one .digit]⟩).2.2.2 _ _ .pure hhidden

end Classifier
end PipelineFusion
