import Mathlib.Data.Nat.Log
import PipelineFusion.Proofs.Optimizer.Exhaustion
import PipelineFusion.Proofs.Optimizer.Locality
import PipelineFusion.Proofs.Optimizer.Visits
import PipelineFusion.Proofs.Plan.Bracketing

/-!
# Collapsing maps

At each position of a chain of maps a pass merges as many neighbours into the map that stands there
as the budget allows.  This leaves one map for every so many, so the number of passes that it takes
to get down to a single one is a logarithm.
-/

namespace PipelineFusion

/-! ## Passes by visits -/

namespace Optimizer

variable {o : Optimizer} {found window rest : Plan} {k : Nat} {b : Budget} {v : Visit}
  {node : Node}

theorem Lingers.add_total_le (h : o.Lingers found k window) : k + window.total ≤ found.total := by
  induction h with
  | refl => exact (Nat.zero_add found.total).le
  | step _ htakes ih =>
      have hlt := total_splice_lt htakes
      omega

theorem Lingers.head {hit : Hit} (htakes : o.Takes found hit)
    (h : o.Lingers (hit.replacement :: found.drop hit.length) k window) :
    o.Lingers found (k + 1) window := by
  induction h with
  | refl => exact .step .refl htakes
  | step _ htakes' ih => exact .step ih htakes'

/-- A pass with the budget for it takes the steps at the front before anything else. -/
theorem Lingers.exists_sweeps (h : o.Lingers found k window)
    (hlocal : b.localSteps + k ≤ b.perPosition) (hcap : b.steps + k ≤ b.cap) :
    ∃ c : Budget, c.perPosition = b.perPosition ∧ c.cap = b.cap ∧
      c.localSteps = b.localSteps + k ∧ c.steps = b.steps + k ∧
      ∀ q b', o.Sweeps window c q b' → o.Sweeps found b q b' := by
  induction h with
  | refl => exact ⟨b, rfl, rfl, rfl, rfl, fun q b' hsweeps ↦ hsweeps⟩
  | @step k window hit _ htakes ih =>
      obtain ⟨c, hposition, hcap', hlocal', hsteps, hsweeps⟩ := ih (by omega) (by omega)
      have hspent : c.isExhausted = false := Budget.isExhausted_eq_false_iff.2 (by omega)
      have hleft : c.isLocalExhausted = false := by
        rw [Budget.isLocalExhausted, decide_eq_false_iff_not]
        omega
      refine ⟨c.record hit.rule.name (window.take hit.length) hit.replacement, hposition, hcap',
        congrArg (· + 1) hlocal', congrArg (· + 1) hsteps, ?_⟩
      intro q b' hrest
      exact hsweeps q b' (.hit hspent hleft htakes hrest)

/-- A pass makes its first visit, then looks into the node that this leaves, and then goes over the
chain behind it as by itself. -/
theorem Keeps.exists_sweeps (h : o.Keeps v) (hleft : v.left = node :: rest)
    (hstarts : o.Starts b v.found.total) :
    ∃ b', o.Sweeps v.found b (o.onceInside node :: o.once rest) b' ∧
      b'.steps = b.steps + (v.steps + (o.stepsOnceInside node + o.stepsOnce rest)) := by
  obtain ⟨hposition, hlocal, hroom⟩ := hstarts
  have hle := h.steps_le
  have htotal := h.lingers.add_total_le
  rw [hleft] at htotal
  obtain ⟨c, hposition', hcap', hlocal', hsteps, hsweeps⟩ :=
    h.lingers.exists_sweeps (b := b) (by omega) (by omega)
  have hstarts' : o.Starts c.resetLocal (Plan.total (node :: rest)) := by
    refine ⟨hposition'.trans hposition, rfl, ?_⟩
    change c.steps + _ ≤ c.cap
    omega
  have hnone : c.isLocalExhausted = true ∨ o.hit? (node :: rest) = none := by
    rcases hle.eq_or_lt with hall | hlt
    · left
      rw [Budget.isLocalExhausted, decide_eq_true_iff]
      omega
    · right
      rw [← hleft]
      exact h.hit?_eq_none hlt
  obtain ⟨b', hrest, hsteps'⟩ := exists_sweeps_cons hnone hstarts'
  rw [← hleft] at hrest
  exact ⟨b', hsweeps _ b' hrest, by omega⟩

theorem Keeps.once_found (h : o.Keeps v) (hleft : v.left = node :: rest) :
    o.once v.found = o.onceInside node :: o.once rest ∧
      o.stepsOnce v.found = v.steps + (o.stepsOnceInside node + o.stepsOnce rest) := by
  have hstarts := o.starts_ample v.found
  obtain ⟨b', hsweeps, hsteps⟩ := h.exists_sweeps hleft hstarts
  obtain ⟨hplan, hcount⟩ := hsweeps.eq_once hstarts
  exact ⟨hplan.symm, by omega⟩

end Optimizer

/-! ## Bundles of maps -/

/-- A map with the purity that it is declared with. -/
structure Mapper where
  function : Operator (Value → Value)
  purity : Purity

namespace Mapper

def node (f : Mapper) : Node := .leaf (.map f.function) f.purity

def declaration (f : Mapper) : Declaration := f.function.declaration

/-- What two neighbouring maps are merged into. -/
def fuse (f g : Mapper) : Mapper :=
  ⟨f.function.fuse " >> " g.function fun x ↦ g.function.run (f.function.run x),
    f.purity.join g.purity⟩

/-- Each bundle is made of a map and as many as `d` of those behind it, merged one by one. -/
def bundle (d : Nat) : List Mapper → List Mapper
  | [] => []
  | f :: fs => (fs.take d).foldl fuse f :: bundle d (fs.drop d)
termination_by fs => fs.length
decreasing_by
  rw [List.length_drop, List.length_cons]
  omega

variable {c : Classifier} {d k n : Nat} {f g : Mapper} {fs gs : List Mapper}

theorem stage?_mapMap (f g : Mapper) :
    Merge.mapMap.stage? (.map f.function) (.map g.function) = some (.map (f.fuse g).function) :=
  rfl

/-! ### Numbers -/

theorem length_bundle_le_iff : (bundle d fs).length ≤ k ↔ fs.length ≤ k * (d + 1) := by
  fun_induction bundle d fs generalizing k with
  | case1 => simp
  | case2 f fs ih =>
      cases k with
      | zero => simp
      | succ k =>
          have hmul : (k + 1) * (d + 1) = k * (d + 1) + (d + 1) := Nat.succ_mul k (d + 1)
          rw [List.length_cons, Nat.add_le_add_iff_right, ih, List.length_drop, List.length_cons,
            hmul]
          omega

/-- Bundles of more than one make the chain shorter. -/
theorem length_bundle_eq_iff (hd : 1 ≤ d) : (bundle d fs).length = fs.length ↔ fs.length ≤ 1 := by
  have hzero : (bundle d fs).length ≤ 0 ↔ fs.length ≤ 0 * (d + 1) := length_bundle_le_iff
  have hone : (bundle d fs).length ≤ 1 ↔ fs.length ≤ 1 * (d + 1) := length_bundle_le_iff
  have hless : (bundle d fs).length ≤ fs.length - 1 ↔ fs.length ≤ (fs.length - 1) * (d + 1) :=
    length_bundle_le_iff
  have hmul : (fs.length - 1) * 2 ≤ (fs.length - 1) * (d + 1) :=
    Nat.mul_le_mul_left _ (Nat.succ_le_succ hd)
  omega

theorem length_iterate_bundle_le_iff :
    ((bundle d)^[n] fs).length ≤ k ↔ fs.length ≤ k * (d + 1) ^ n := by
  induction n generalizing fs with
  | zero => simp
  | succ n ih =>
      rw [Function.iterate_succ_apply, ih, length_bundle_le_iff, Nat.mul_assoc, ← Nat.pow_succ]

/-! ### Declarations -/

theorem declaration_foldl_fuse (ds : List Declaration) :
    Declaration.fuseAll " >> " ((gs.foldl fuse f).declaration :: ds) =
      Declaration.fuseAll " >> " (f.declaration :: (gs.map declaration ++ ds)) := by
  induction gs generalizing f with
  | nil => rfl
  | cons g gs ih =>
      rw [List.foldl_cons, ih]
      exact Declaration.fuseAll_fuse

theorem bundle_eq_nil_iff : bundle d fs = [] ↔ fs = [] := by
  cases fs with
  | nil => simp [bundle]
  | cons f fs => simp [bundle]

theorem declaration_bundle (d : Nat) (fs : List Mapper) :
    Declaration.fuseAll " >> " ((bundle d fs).map declaration) =
      Declaration.fuseAll " >> " (fs.map declaration) := by
  fun_induction bundle d fs with
  | case1 => rfl
  | case2 f fs ih =>
      have hnil : (bundle d (fs.drop d)).map declaration = [] ↔
          (fs.drop d).map declaration = [] := by
        rw [List.map_eq_nil_iff, List.map_eq_nil_iff, bundle_eq_nil_iff]
      calc
        _ = Declaration.fuseAll " >> "
              (((fs.take d).foldl fuse f).declaration :: (fs.drop d).map declaration) :=
          Declaration.fuseAll_cons_congr hnil ih
        _ = Declaration.fuseAll " >> "
              (f.declaration :: ((fs.take d).map declaration ++ (fs.drop d).map declaration)) :=
          declaration_foldl_fuse _
        _ = _ := by rw [← List.map_append, List.take_append_drop, List.map_cons]

theorem declaration_iterate_bundle (d n : Nat) (fs : List Mapper) :
    Declaration.fuseAll " >> " (((bundle d)^[n] fs).map declaration) =
      Declaration.fuseAll " >> " (fs.map declaration) := by
  induction n generalizing fs with
  | zero => rfl
  | succ n ih => exact (ih (bundle d fs)).trans (declaration_bundle d fs)

theorem iterate_bundle_ne_nil (hne : fs ≠ []) : (bundle d)^[n] fs ≠ [] :=
  Function.Iterate.rec (· ≠ []) hne (fun _ ↦ mt bundle_eq_nil_iff.1) n

/-! ### Boundaries -/

/-- Nothing keeps any of the maps from being merged. -/
def Free (c : Classifier) (fs : List Mapper) : Prop :=
  ∀ f ∈ fs, c.classify f.node = .fullyFusable

theorem Free.fuse (h : Free c (f :: g :: fs)) : Free c (f.fuse g :: fs) := by
  obtain ⟨hf, hrest⟩ := List.forall_mem_cons.1 h
  obtain ⟨hg, hfs⟩ := List.forall_mem_cons.1 hrest
  have hfuse := Merge.classify_of_stage? (stage?_mapMap f g) c f.purity g.purity
  refine List.forall_mem_cons.2 ⟨?_, hfs⟩
  exact hfuse.trans (Boundary.max_eq_fullyFusable_iff.2 ⟨hf, hg⟩)

theorem Free.foldl (h : Free c (f :: (gs ++ fs))) : Free c (gs.foldl Mapper.fuse f :: fs) := by
  induction gs generalizing f with
  | nil => exact h
  | cons g gs ih => exact ih h.fuse

theorem Free.bundle (h : Free c fs) : Free c (bundle d fs) := by
  fun_induction Mapper.bundle d fs with
  | case1 => exact h
  | case2 f fs ih =>
      rw [← List.take_append_drop d fs] at h
      obtain ⟨hfirst, hrest⟩ := List.forall_mem_cons.1 h.foldl
      exact List.forall_mem_cons.2 ⟨hfirst, ih hrest⟩

theorem Free.iterate_bundle (h : Free c fs) : Free c ((Mapper.bundle d)^[n] fs) :=
  Function.Iterate.rec (Free c) h (fun _ ↦ Free.bundle) n

end Mapper

/-! ## Passes over maps -/

namespace Optimizer

open Mapper

variable {o : Optimizer} {f g : Mapper} {fs : List Mapper} {rest : Plan} {k : Nat}

/-- Two maps are merged as such, although they are a segment as well. -/
theorem takes_mapMap (hrules : o.rules = Rule.all) (hfree : Free o.classifier (f :: g :: fs))
    (rest : Plan) :
    o.Takes (f.node :: g.node :: rest) ⟨.merge .mapMap, 2, (f.fuse g).node⟩ := by
  have hf := hfree f List.mem_cons_self
  have hg := hfree g (List.mem_cons_of_mem f List.mem_cons_self)
  have hadmits : Merge.mapMap.admits o.classifier f.node g.node = true := by
    refine Merge.admits_iff.2 ⟨rfl, rfl, ?_⟩
    rw [hf, hg]
    exact ⟨by decide, by decide, rfl, rfl⟩
  have hfirst : attempt? o.classifier (f.node :: g.node :: rest) (.merge .mapMap) =
      some ⟨.merge .mapMap, 2, (f.fuse g).node⟩ := by
    apply attempt?_eq_some_iff.2
    refine ⟨rfl, ?_, ?_⟩
    · exact Rule.merge_matchSpan_eq_some_iff.2 ⟨rfl, _, _, rest, rfl, hadmits⟩
    · exact Merge.fuse_eq_ok_iff.2 ⟨_, _, _, _, _, rfl, stage?_mapMap f g, rfl⟩
  rw [Takes, hit?, hrules, Rule.all, Merge.all, List.map_cons, List.cons_append,
    List.findSome?_cons, hfirst]

theorem lingers_maps (hrules : o.rules = Rule.all) (hfree : Free o.classifier (f :: fs))
    (hk : k ≤ fs.length) :
    o.Lingers ((f :: fs).map Mapper.node) k
      (((fs.take k).foldl fuse f :: fs.drop k).map Mapper.node) := by
  induction k generalizing f fs with
  | zero => exact .refl
  | succ k ih =>
      cases fs with
      | nil => simp at hk
      | cons g fs =>
          apply Lingers.head (takes_mapMap hrules hfree _)
          exact ih hfree.fuse (Nat.le_of_succ_le_succ hk)

theorem keeps_maps (hrules : o.rules = Rule.all) (hfree : Free o.classifier (f :: fs)) :
    o.Keeps ⟨(f :: fs).map Mapper.node, min o.maxDepth fs.length,
      ((fs.take o.maxDepth).foldl fuse f :: fs.drop o.maxDepth).map Mapper.node⟩ where
  lingers := by
    rcases Nat.le_total o.maxDepth fs.length with hle | hle
    · rw [Nat.min_eq_left hle]
      exact lingers_maps hrules hfree hle
    · have hall := lingers_maps hrules hfree (Nat.le_refl fs.length)
      rw [List.take_length, List.drop_length] at hall
      rw [Nat.min_eq_right hle, List.take_of_length_le hle, List.drop_of_length_le hle]
      exact hall
  steps_le := Nat.min_le_left _ _
  hit?_eq_none := by
    intro hlt
    dsimp only at hlt ⊢
    rw [List.drop_of_length_le (by omega)]
    exact hit?_of_length_lt_two (Nat.lt_succ_self 1)

theorem once_nil (o : Optimizer) : o.once [] = [] ∧ o.stepsOnce [] = 0 := by
  rw [once, stepsOnce, pass, sweep]
  exact ⟨rfl, rfl⟩

/-- A pass leaves a map for each bundle, and every map that is gone has taken one step. -/
theorem once_maps (hrules : o.rules = Rule.all) (hfree : Free o.classifier fs) :
    o.once (fs.map Mapper.node) = (bundle o.maxDepth fs).map Mapper.node ∧
      o.stepsOnce (fs.map Mapper.node) + (bundle o.maxDepth fs).length = fs.length := by
  fun_induction bundle o.maxDepth fs with
  | case1 => exact o.once_nil
  | case2 f fs ih =>
      have hrest : Free o.classifier (fs.drop o.maxDepth) := by
        intro g hg
        exact hfree g (List.mem_cons_of_mem f (List.mem_of_mem_drop hg))
      obtain ⟨hbundle, hcount⟩ := ih hrest
      obtain ⟨hplan, hsteps⟩ := (keeps_maps hrules hfree).once_found List.map_cons
      dsimp only at hplan hsteps
      have hinside : o.stepsOnceInside ((fs.take o.maxDepth).foldl fuse f).node = 0 := rfl
      rw [List.length_drop] at hcount
      constructor
      · rw [hplan, hbundle]
        rfl
      · rw [List.length_cons, List.length_cons]
        omega

theorem iterate_once_maps (hrules : o.rules = Rule.all) (hfree : Free o.classifier fs) (n : Nat) :
    o.once^[n] (fs.map Mapper.node) = ((bundle o.maxDepth)^[n] fs).map Mapper.node := by
  induction n generalizing fs with
  | zero => rfl
  | succ n ih =>
      rw [Function.iterate_succ_apply, (once_maps hrules hfree).1, ih hfree.bundle,
        Function.iterate_succ_apply]

theorem stepsOnce_iterate_maps (hrules : o.rules = Rule.all) (hfree : Free o.classifier fs)
    (n : Nat) :
    o.stepsOnce (o.once^[n] (fs.map Mapper.node)) + ((bundle o.maxDepth)^[n + 1] fs).length =
      ((bundle o.maxDepth)^[n] fs).length := by
  rw [iterate_once_maps hrules hfree, Function.iterate_succ_apply']
  exact (once_maps hrules hfree.iterate_bundle).2

/-- A pass over maps takes no step just when there is not more than one of them. -/
theorem stepsOnce_iterate_maps_eq_zero_iff (hrules : o.rules = Rule.all) (hdepth : 1 ≤ o.maxDepth)
    (hfree : Free o.classifier fs) (n : Nat) :
    o.stepsOnce (o.once^[n] (fs.map Mapper.node)) = 0 ↔ fs.length ≤ (o.maxDepth + 1) ^ n := by
  have hsteps := stepsOnce_iterate_maps hrules hfree n
  have hsame : ((bundle o.maxDepth)^[n + 1] fs).length = ((bundle o.maxDepth)^[n] fs).length ↔
      ((bundle o.maxDepth)^[n] fs).length ≤ 1 := by
    rw [Function.iterate_succ_apply']
    exact length_bundle_eq_iff hdepth
  rw [length_iterate_bundle_le_iff, Nat.one_mul] at hsame
  rw [← hsame]
  omega

theorem sum_stepsOnce_maps (hrules : o.rules = Rule.all) (hfree : Free o.classifier fs) (n : Nat) :
    ∑ i ∈ Finset.range n, o.stepsOnce (o.once^[i] (fs.map Mapper.node)) +
      ((bundle o.maxDepth)^[n] fs).length = fs.length := by
  induction n with
  | zero => simp
  | succ n ih =>
      have hsteps := stepsOnce_iterate_maps hrules hfree n
      rw [Finset.sum_range_succ]
      omega

/-! ## Runs over maps -/

theorem initial_maps (fs : List Mapper) : Plan.initial (fs.map Mapper.node) = [] := by
  induction fs with
  | nil => rfl
  | cons f fs ih =>
      rw [List.map_cons, Plan.initial_cons, ih]
      rfl

theorem total_maps (fs : List Mapper) : Plan.total (fs.map Mapper.node) = fs.length := by
  induction fs with
  | nil => rfl
  | cons f fs ih =>
      rw [List.map_cons, Plan.total_cons, ih, List.length_cons, Nat.add_comm]
      rfl

/-- With all rules, a chain of fully fusable maps is collapsed to a single map.  Its label is made
of their labels and its calls are their calls, in order.  Each map but one costs a step.  The number
of passes, besides the last one that finds nothing to do, is the least power to which one more than
the budget has to be raised to reach the number of maps.  That number is taken to be a machine word,
as it is for every plan that fits in memory. -/
theorem run_maps (o : Optimizer) (fs : List Mapper) (hrules : o.rules = Rule.all)
    (hdepth : 1 ≤ o.maxDepth) (hne : fs ≠ [])
    (hfree : ∀ f ∈ fs, o.classifier.classify f.node = .fullyFusable)
    (hcount : fs.length ≤ maxCount) :
    (∃ f : Mapper, o.optimize (fs.map Mapper.node) = [f.node] ∧
      f.declaration.label = " >> ".intercalate (fs.map fun g ↦ g.declaration.label) ∧
      f.declaration.calls = fs.flatMap fun g ↦ g.declaration.calls) ∧
    (o.run (fs.map Mapper.node)).rulesApplied = fs.length - 1 ∧
    (o.run (fs.map Mapper.node)).exhausted = false ∧
    (o.run (fs.map Mapper.node)).iterations = 1 + Nat.clog (o.maxDepth + 1) fs.length := by
  have hself : (fs.map Mapper.node == fs.map Mapper.node) = true := by
    rw [Plan.beq_self_iff, initial_maps]
    simp
  have htotal : Plan.total (fs.map Mapper.node) ≤ maxCount := (total_maps fs).trans_le hcount
  have hrest := comesToRest (o.roomy_fresh hdepth hself htotal)
  have hbase : 1 < o.maxDepth + 1 := Nat.lt_succ_of_le hdepth
  -- The passes that take steps are those that still find more than one map.
  have hpasses : ∀ n, (o.run (fs.map Mapper.node)).iterations ≤ n + 1 ↔
      Nat.clog (o.maxDepth + 1) fs.length ≤ n := by
    intro n
    rw [hrest.count_le_iff, stepsOnce_iterate_maps_eq_zero_iff hrules hdepth hfree,
      Nat.clog_le_iff_le_pow hbase]
  have hlast := (hpasses (Nat.clog (o.maxDepth + 1) fs.length)).2 (Nat.le_refl _)
  have hone : ((bundle o.maxDepth)^[Nat.clog (o.maxDepth + 1) fs.length] fs).length = 1 := by
    apply Nat.le_antisymm
    · rw [length_iterate_bundle_le_iff, Nat.one_mul]
      exact Nat.le_pow_clog hbase fs.length
    · exact List.length_pos_iff.2 (iterate_bundle_ne_nil hne)
  obtain ⟨f, hf⟩ := List.length_eq_one_iff.1 hone
  have hdeclaration := declaration_iterate_bundle o.maxDepth
    (Nat.clog (o.maxDepth + 1) fs.length) fs
  rw [hf, List.map_singleton, Declaration.fuseAll_singleton] at hdeclaration
  refine ⟨⟨f, ?_, ?_, ?_⟩, ?_, exhausted_run_eq_false hdepth hself htotal, ?_⟩
  · rw [hrest.last_eq _ hlast, iterate_once_maps hrules hfree, hf]
    rfl
  · rw [hdeclaration, Declaration.fuseAll, List.map_map]
    rfl
  · rw [hdeclaration, Declaration.fuseAll, List.flatMap_map]
  · have hsum := sum_stepsOnce_maps hrules hfree (Nat.clog (o.maxDepth + 1) fs.length)
    rw [← hrest.total_eq _ hlast] at hsum
    omega
  · have hpos := hrest.count_pos
    have hleast := (hpasses ((o.run (fs.map Mapper.node)).iterations - 1)).1 (by omega)
    omega

/-- Maps with the given labels that put each value into a list. -/
def wrappers (labels : List String) : List Mapper :=
  labels.map fun label ↦ ⟨⟨.written 5, { label }, fun x ↦ .list [x]⟩, .pure⟩

theorem run_wrappers :
    (∃ f : Mapper, ({ maxDepth := 1 } : Optimizer).optimize
        ((wrappers ["a", "b", "c", "d", "e"]).map Mapper.node) = [f.node] ∧
      f.declaration.label = "a >> b >> c >> d >> e") ∧
    (({ maxDepth := 1 } : Optimizer).run
      ((wrappers ["a", "b", "c", "d", "e"]).map Mapper.node)).rulesApplied = 4 ∧
    (({ maxDepth := 1 } : Optimizer).run
      ((wrappers ["a", "b", "c", "d", "e"]).map Mapper.node)).iterations = 4 := by
  obtain ⟨⟨f, hplan, hlabel, -⟩, hsteps, -, hpasses⟩ :=
    run_maps { maxDepth := 1 } (wrappers ["a", "b", "c", "d", "e"]) rfl (by decide) (by decide)
      (by decide +kernel) (by decide +kernel)
  refine ⟨⟨f, hplan, hlabel.trans (by decide +kernel)⟩, hsteps, ?_⟩
  rw [hpasses]
  decide +kernel

end Optimizer
end PipelineFusion
