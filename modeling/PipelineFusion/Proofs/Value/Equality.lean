import PipelineFusion.Value.Basic

/-!
# Equality of values

Equality of values is symmetric and transitive.  Only its floats can keep a value from being equal
to itself, when one of them is a NaN, or from being the same as a value that it equals, when one of
them is a zero.
-/

namespace PipelineFusion.Value

mutual

/-- All floats in a value, those in nested lists included. -/
def floats : Value → List Float
  | .float x => [x]
  | .list items => floatsAll items
  | _ => []

def floatsAll : List Value → List Float
  | [] => []
  | v :: vs => floats v ++ floatsAll vs

end

/-- Equal values are one and the same, or two floats, or two lists. -/
theorem same_cases {v w : Value} (h : same v w = true) :
    (v = w ∧ v.floats = [] ∧ v.asList? = none) ∨
    (∃ x y, v = .float x ∧ w = .float y ∧ Binary64.same x y = true) ∨
    ∃ vs ws, v = .list vs ∧ w = .list ws ∧ sameAll vs ws = true := by
  cases v with
  | null =>
      cases w with
      | null => exact Or.inl ⟨rfl, rfl, rfl⟩
      | _ => cases h
  | bool a =>
      cases w with
      | bool b => exact Or.inl ⟨congrArg bool (eq_of_beq h), rfl, rfl⟩
      | _ => cases h
  | int n =>
      cases w with
      | int k => exact Or.inl ⟨congrArg int (eq_of_beq h), rfl, rfl⟩
      | _ => cases h
  | float x =>
      cases w with
      | float y => exact Or.inr (Or.inl ⟨x, y, rfl, rfl, h⟩)
      | _ => cases h
  | str s =>
      cases w with
      | str t => exact Or.inl ⟨congrArg str (eq_of_beq h), rfl, rfl⟩
      | _ => cases h
  | list vs =>
      cases w with
      | list ws => exact Or.inr (Or.inr ⟨vs, ws, rfl, rfl, h⟩)
      | _ => cases h

theorem sameAll_cons_iff {v : Value} {vs ws : List Value} :
    sameAll (v :: vs) ws = true ↔
      ∃ w rest, ws = w :: rest ∧ same v w = true ∧ sameAll vs rest = true := by
  cases ws with
  | nil => simp [sameAll]
  | cons w rest => simp [sameAll, and_assoc]

theorem sameAll_nil_iff {ws : List Value} : sameAll [] ws = true ↔ ws = [] := by
  cases ws <;> simp [sameAll]

mutual

/-- A value equals itself unless it holds a NaN. -/
theorem same_self_iff (v : Value) :
    same v v = true ↔ ∀ x ∈ v.floats, Binary64.isNaN x = false := by
  cases v with
  | float x => simp [same, floats]
  | list items => exact sameAll_self_iff items
  | _ => simp [same, floats]

theorem sameAll_self_iff (vs : List Value) :
    sameAll vs vs = true ↔ ∀ x ∈ floatsAll vs, Binary64.isNaN x = false := by
  cases vs with
  | nil => simp [sameAll, floatsAll]
  | cons v vs =>
      rw [sameAll, Bool.and_eq_true, same_self_iff v, sameAll_self_iff vs, floatsAll,
        List.forall_mem_append]

end

mutual

theorem same_symm {v w : Value} (h : same v w = true) : same w v = true := by
  rcases same_cases h with ⟨rfl, -⟩ | ⟨x, y, rfl, rfl, hxy⟩ | ⟨vs, ws, rfl, rfl, hall⟩
  · exact h
  · exact (Binary64.same_comm y x).trans hxy
  · exact sameAll_symm hall

theorem sameAll_symm {vs ws : List Value} (h : sameAll vs ws = true) : sameAll ws vs = true := by
  cases vs with
  | nil =>
      obtain rfl := sameAll_nil_iff.1 h
      rfl
  | cons v vs =>
      obtain ⟨w, rest, rfl, hhead, hrest⟩ := sameAll_cons_iff.1 h
      exact sameAll_cons_iff.2 ⟨v, vs, rfl, same_symm hhead, sameAll_symm hrest⟩

end

mutual

theorem same_trans {u v w : Value} (huv : same u v = true) (hvw : same v w = true) :
    same u w = true := by
  rcases same_cases huv with ⟨rfl, -⟩ | ⟨x, y, rfl, rfl, hxy⟩ | ⟨us, vs, rfl, rfl, hall⟩
  · exact hvw
  · cases w with
    | float z => exact Binary64.same_trans hxy hvw
    | _ => cases hvw
  · cases w with
    | list ws => exact sameAll_trans hall hvw
    | _ => cases hvw

theorem sameAll_trans {us vs ws : List Value} (huv : sameAll us vs = true)
    (hvw : sameAll vs ws = true) : sameAll us ws = true := by
  cases us with
  | nil =>
      obtain rfl := sameAll_nil_iff.1 huv
      exact hvw
  | cons u us =>
      obtain ⟨v, vs, rfl, hhead, hrest⟩ := sameAll_cons_iff.1 huv
      obtain ⟨w, ws, rfl, hhead', hrest'⟩ := sameAll_cons_iff.1 hvw
      exact sameAll_cons_iff.2
        ⟨w, ws, rfl, same_trans hhead hhead', sameAll_trans hrest hrest'⟩

end

mutual

theorem eq_of_same {v w : Value} (h : same v w = true) (hfloats : v.floats = []) : v = w := by
  rcases same_cases h with ⟨rfl, -⟩ | ⟨x, y, rfl, rfl, -⟩ | ⟨vs, ws, rfl, rfl, hall⟩
  · rfl
  · cases hfloats
  · rw [eq_of_sameAll hall hfloats]

theorem eq_of_sameAll {vs ws : List Value} (h : sameAll vs ws = true)
    (hfloats : floatsAll vs = []) : vs = ws := by
  cases vs with
  | nil => exact (sameAll_nil_iff.1 h).symm
  | cons v vs =>
      obtain ⟨w, rest, rfl, hhead, hrest⟩ := sameAll_cons_iff.1 h
      rw [floatsAll, List.append_eq_nil_iff] at hfloats
      rw [eq_of_same hhead hfloats.1, eq_of_sameAll hrest hfloats.2]

end

end PipelineFusion.Value
