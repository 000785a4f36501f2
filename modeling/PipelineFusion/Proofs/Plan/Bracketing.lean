import PipelineFusion.Plan.Operator

/-!
# Bracketings

Brackets around a list say in which order its elements are put together, two at a time.  The
declarations of several operators come out of this just as if they were all fused at once, whatever
the brackets are.
-/

namespace PipelineFusion

/-- A single element, or two bracketed parts of a list. -/
inductive Bracketing (A : Type) where
  | single (a : A)
  | pair (first second : Bracketing A)

namespace Bracketing

variable {A : Type}

/-- The elements without the brackets. -/
def toList : Bracketing A → List A
  | .single a => [a]
  | .pair s t => s.toList ++ t.toList

/-- Puts the two parts of each bracket together, the innermost first. -/
def fold (f : A → A → A) : Bracketing A → A
  | .single a => a
  | .pair s t => f (s.fold f) (t.fold f)

theorem toList_ne_nil (t : Bracketing A) : t.toList ≠ [] := by
  induction t with
  | single a => exact List.cons_ne_nil a []
  | pair s t ihs _ => exact List.append_ne_nil_of_left_ne_nil ihs t.toList

theorem exists_toList_eq {as : List A} (hne : as ≠ []) : ∃ t : Bracketing A, t.toList = as := by
  induction as with
  | nil => exact absurd rfl hne
  | cons a as ih =>
      by_cases has : as = []
      · exact ⟨.single a, by rw [has, toList]⟩
      · obtain ⟨t, rfl⟩ := ih has
        exact ⟨.pair (.single a) t, List.singleton_append⟩

end Bracketing

namespace Declaration

variable {separator : String} {d e : Declaration} {ds es : List Declaration}

theorem fuseAll_singleton : fuseAll separator [d] = d := by
  simp [fuseAll]

theorem fuseAll_append (hds : ds ≠ []) (hes : es ≠ []) :
    fuseAll separator (ds ++ es) = (fuseAll separator ds).fuse separator (fuseAll separator es) := by
  have hfirst : ds.map label ≠ [] := by simpa using hds
  have hsecond : es.map label ≠ [] := by simpa using hes
  rw [fuseAll, List.map_append, String.intercalate_append_of_ne_nil hfirst hsecond,
    List.flatMap_append]
  rfl

theorem fuseAll_cons (hne : ds ≠ []) :
    fuseAll separator (d :: ds) = d.fuse separator (fuseAll separator ds) := by
  rw [← List.singleton_append, fuseAll_append (List.cons_ne_nil d []) hne, fuseAll_singleton]

theorem fuseAll_cons_congr (hnil : ds = [] ↔ es = [])
    (h : fuseAll separator ds = fuseAll separator es) :
    fuseAll separator (d :: ds) = fuseAll separator (d :: es) := by
  by_cases hds : ds = []
  · rw [hds, hnil.1 hds]
  · rw [fuseAll_cons hds, fuseAll_cons (mt hnil.2 hds), h]

theorem fuseAll_fuse : fuseAll separator (d.fuse separator e :: ds) =
    fuseAll separator (d :: e :: ds) := by
  simp [fuseAll, fuse, String.append_assoc]

/-- Declarations are fused two at a time as they are all at once. -/
theorem fold_fuse (separator : String) (t : Bracketing Declaration) :
    t.fold (fuse separator) = fuseAll separator t.toList := by
  induction t with
  | single d => exact fuseAll_singleton.symm
  | pair s t ihs iht =>
      rw [Bracketing.fold, Bracketing.toList, ihs, iht,
        fuseAll_append s.toList_ne_nil t.toList_ne_nil]

end Declaration
end PipelineFusion
