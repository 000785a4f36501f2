import PipelineFusion.Proofs.Plan.Bracketing
import PipelineFusion.Proofs.Rule.Group
import PipelineFusion.Proofs.Rule.Refusal

/-!
# Bracketed spans

A span of maps is folded at once by the segment rule, or two nodes at a time by the rule that merges
two maps, in an order that brackets give.  Filters and partial maps have a merging rule of their own
as well.  Every such order makes a node of the same declaration and purity, with the same outputs,
as the segment rule does; only the origin of its operator tells the order.
-/

namespace PipelineFusion

/-- Only the label of a scan says more than its kind and its declaration. -/
theorem Node.label_eq {node : Node} (h : Segment.slot.accepts node.kind = true) :
    node.label = node.kind.name ++ "[" ++ node.declaration.label ++ "]" := by
  cases node with
  | leaf stage purity =>
      cases stage with
      | scan init step => cases h
      | _ => rfl
  | branch mode left right purity => cases mode <;> cases h

/-- Fuses the nodes two at a time, in the order that the brackets give. -/
def Rule.fuseStepwise (r : Rule) : Bracketing Node → Except FusionError Node
  | .single node => .ok node
  | .pair s t => do
    let a ← r.fuseStepwise s
    let b ← r.fuseStepwise t
    r.fuse [a, b]

theorem Rule.fuseStepwise_pair {r : Rule} {s t : Bracketing Node} {a b : Node}
    (ha : r.fuseStepwise s = .ok a) (hb : r.fuseStepwise t = .ok b) :
    r.fuseStepwise (.pair s t) = r.fuse [a, b] := by
  rw [fuseStepwise, ha, hb]
  rfl

/-! ## Rules for one kind -/

namespace Merge

/-- The rules for two stateless stages of one kind. -/
def uniform : List Merge := [.mapMap, .filterFilter, .filterMapChain]

theorem second_of_uniform : ∀ m ∈ uniform, m.second = m.first := by decide

theorem result_of_uniform : ∀ m ∈ uniform, m.result = m.first := by decide

theorem accepts_of_uniform : ∀ m ∈ uniform, Segment.slot.accepts m.first = true := by decide

theorem separator_of_uniform : ∀ m ∈ uniform, m.separator = Segment.separator m.first := by decide

end Merge

theorem Kind.ofSegment_of_forall {kinds : List Kind} {k : Kind} (hne : kinds ≠ [])
    (hk : k = .map ∨ k = .filter ∨ k = .filterMap) (h : ∀ x ∈ kinds, x = k) :
    ofSegment kinds = k := by
  obtain ⟨x, hx⟩ := List.exists_mem_of_ne_nil kinds hne
  rcases hk with rfl | rfl | rfl
  · exact ofSegment_eq_map_iff.2 h
  · exact (ofSegment_eq_filter_iff hne).2 h
  · have hmap : ¬ ∀ y ∈ kinds, y = .map := fun hall ↦ by simpa [h x hx] using hall x hx
    have hfilter : ¬ ∀ y ∈ kinds, y = .filter := fun hall ↦ by simpa [h x hx] using hall x hx
    rw [ofSegment, if_neg hmap, if_neg hfilter]

/-! ## Sums of spans -/

namespace Merge

/-- A node of the kind of the rule that is declared as a whole span and gives the outputs of it. -/
structure Sums (m : Merge) (span : Plan) (node : Node) : Prop where
  kind_eq : node.kind = m.first
  purity_eq : node.purity = (span.map Node.purity).foldl .join .pure
  declaration_eq : node.declaration = .fuseAll m.separator (span.map Node.declaration)
  exists_simulates : ∃ ts, Plan.Simulates [node] span ts

variable {m : Merge} {span xs ys : Plan} {a b node : Node}

theorem sums_singleton (h : node.kind = m.first) : m.Sums [node] node where
  kind_eq := h
  purity_eq := (Purity.pure_join node.purity).symm
  declaration_eq := Declaration.fuseAll_singleton.symm
  exists_simulates := ⟨_, .refl [node]⟩

/-- Two sums are merged into a sum of both spans. -/
theorem Sums.exists_fuse (hm : m ∈ uniform) (hxs : xs ≠ []) (hys : ys ≠ []) (ha : m.Sums xs a)
    (hb : m.Sums ys b) :
    ∃ node, m.fuse [a, b] = .ok node ∧ m.Sums (xs ++ ys) node := by
  have hkind : b.kind = m.second := hb.kind_eq.trans (second_of_uniform m hm).symm
  obtain ⟨node, hnode⟩ := exists_fuse_of_kind ha.kind_eq hkind
  refine ⟨node, hnode, ?_⟩
  obtain ⟨ts, hts⟩ := ha.exists_simulates
  obtain ⟨us, hus⟩ := hb.exists_simulates
  have hrule : (Rule.merge m).fuse [a, b] = .ok node := hnode
  obtain ⟨vs, hvs⟩ := Rule.exists_simulates_of_fuse hrule
  obtain ⟨s, p, t, q, u, hab, hu, rfl⟩ := fuse_eq_ok_iff.1 hnode
  obtain ⟨rfl, rfl⟩ : a = .leaf s p ∧ b = .leaf t q := by simpa using hab
  refine ⟨?_, ?_, ?_, (hts.append hus).trans hvs⟩
  · exact (kinds_of_stage? hu).2.2.trans (result_of_uniform m hm)
  · have hp : p = (xs.map Node.purity).foldl .join .pure := ha.purity_eq
    have hq : q = (ys.map Node.purity).foldl .join .pure := hb.purity_eq
    rw [Node.purity, hp, hq, List.map_append, List.foldl_append, ← Purity.foldl_join]
  · have hs : s.declaration = .fuseAll m.separator (xs.map Node.declaration) := ha.declaration_eq
    have ht : t.declaration = .fuseAll m.separator (ys.map Node.declaration) := hb.declaration_eq
    have hds : xs.map Node.declaration ≠ [] := by simpa using hxs
    have hes : ys.map Node.declaration ≠ [] := by simpa using hys
    rw [Node.declaration, declaration_of_stage? hu, hs, ht, List.map_append,
      Declaration.fuseAll_append hds hes]

/-- However a span is bracketed, it is merged into a sum of it. -/
theorem exists_fuseStepwise (hm : m ∈ uniform) (t : Bracketing Node)
    (hkinds : ∀ node ∈ t.toList, node.kind = m.first) :
    ∃ node, (Rule.merge m).fuseStepwise t = .ok node ∧ m.Sums t.toList node := by
  induction t with
  | single node => exact ⟨node, rfl, sums_singleton (hkinds node List.mem_cons_self)⟩
  | pair s t ihs iht =>
      obtain ⟨hs, ht⟩ := List.forall_mem_append.1 hkinds
      obtain ⟨a, hfirst, ha⟩ := ihs hs
      obtain ⟨b, hsecond, hb⟩ := iht ht
      rw [Rule.fuseStepwise_pair hfirst hsecond]
      exact ha.exists_fuse hm s.toList_ne_nil t.toList_ne_nil hb

/-- The segment rule folds a span of one kind to a sum of it. -/
theorem exists_segment_fuse (hm : m ∈ uniform) (hlength : 2 ≤ span.length)
    (hkinds : ∀ node ∈ span, node.kind = m.first) :
    ∃ node, Segment.fuse span = .ok node ∧ m.Sums span node := by
  have hstateless : ∀ node ∈ span, Segment.slot.accepts node.kind = true := by
    intro node hnode
    rw [hkinds node hnode]
    exact accepts_of_uniform m hm
  obtain ⟨node, hnode⟩ := Segment.exists_fuse_iff.2 ⟨hlength, hstateless⟩
  refine ⟨node, hnode, ?_⟩
  have hrule : Rule.segment.fuse span = .ok node := hnode
  have hsimulates := Rule.exists_simulates_of_fuse hrule
  obtain ⟨-, s, hs, rfl⟩ := Segment.fuse_eq_ok_iff.1 hnode
  have hfolds := Segment.folds_of_stage hs
  have hne : span ≠ [] := List.ne_nil_of_length_pos (Nat.zero_lt_of_lt hlength)
  have hkind : s.kind = m.first := by
    rw [← Segment.ofSegment_kinds_of_folds hne hfolds]
    apply Kind.ofSegment_of_forall
    · simpa using hne
    · exact Segment.accepts_iff.1 (accepts_of_uniform m hm)
    · exact List.forall_mem_map.2 hkinds
  refine ⟨hkind, rfl, ?_, hsimulates⟩
  rw [separator_of_uniform m hm, ← hkind]
  exact Segment.declaration_of_folds hfolds

theorem Sums.label_eq (hm : m ∈ uniform) (h : m.Sums span node) :
    node.label = m.first.name ++ "[" ++
      (Declaration.fuseAll m.separator (span.map Node.declaration)).label ++ "]" := by
  have haccepts := accepts_of_uniform m hm
  rw [← h.kind_eq] at haccepts
  rw [Node.label_eq haccepts, h.kind_eq, h.declaration_eq]

theorem Sums.calls_eq (h : m.Sums span node) :
    node.calls = (Declaration.fuseAll m.separator (span.map Node.declaration)).calls := by
  rw [Node.calls_eq, h.declaration_eq]

theorem Sums.responses_eq (h : m.Sums span node) (inputs : List Value) :
    (Runner.start [node]).responses inputs = (Runner.start span).responses inputs := by
  obtain ⟨ts, hsimulates⟩ := h.exists_simulates
  exact (Runner.mirrors_start hsimulates).responses_eq inputs

end Merge

namespace Segment

/-- Declarations come out alike when all of them are fused at once and when they are fused two at a
time, in any order.  So do spans of maps, of filters and of partial maps: whatever the brackets, the
merged node has the kind, the purity, the label and the calls of the folded one, and gives the same
outputs push by push. -/
theorem fuse_agrees_with_bracketings :
    (∀ (separator : String) (ds : List Declaration), ds ≠ [] →
      (∃ t : Bracketing Declaration, t.toList = ds) ∧
      ∀ t : Bracketing Declaration, t.toList = ds →
        t.fold (.fuse separator) = .fuseAll separator ds) ∧
    ∀ m ∈ Merge.uniform, ∀ span : Plan, 2 ≤ span.length → (∀ node ∈ span, node.kind = m.first) →
      ∃ folded, Rule.segment.fuse span = .ok folded ∧
        ∀ t : Bracketing Node, t.toList = span →
          ∃ merged, (Rule.merge m).fuseStepwise t = .ok merged ∧
            merged.kind = folded.kind ∧ merged.purity = folded.purity ∧
            merged.label = folded.label ∧ merged.calls = folded.calls ∧
            ∀ inputs : List Value,
              (Runner.start [merged]).responses inputs =
                (Runner.start [folded]).responses inputs := by
  refine ⟨?_, ?_⟩
  · intro separator ds hne
    refine ⟨Bracketing.exists_toList_eq hne, ?_⟩
    rintro t rfl
    exact Declaration.fold_fuse separator t
  · intro m hm span hlength hkinds
    obtain ⟨folded, hfolded, hsum⟩ := Merge.exists_segment_fuse hm hlength hkinds
    refine ⟨folded, hfolded, ?_⟩
    rintro t rfl
    obtain ⟨merged, hmerged, hsum'⟩ := Merge.exists_fuseStepwise hm t hkinds
    refine ⟨merged, hmerged, ?_, ?_, ?_, ?_, ?_⟩
    · rw [hsum'.kind_eq, hsum.kind_eq]
    · rw [hsum'.purity_eq, hsum.purity_eq]
    · rw [hsum'.label_eq hm, hsum.label_eq hm]
    · rw [hsum'.calls_eq, hsum.calls_eq]
    · intro inputs
      rw [hsum'.responses_eq, hsum.responses_eq]

/-- Filters that drop nulls; only the one in the middle has a label. -/
def sieve (label : String) (calls : List String) (purity : Purity) : Node :=
  .leaf (.filter ⟨.written 0, ⟨label, calls⟩, fun x ↦ !x.isNull⟩) purity

theorem fuse_agrees_with_bracketings_sieves :
    (Bracketing.pair (.single ⟨"a", ["f"]⟩) (.pair (.single ⟨"", []⟩) (.single ⟨"b", ["g"]⟩))).fold
        (Declaration.fuse "") = .fuseAll "" [⟨"a", ["f"]⟩, ⟨"", []⟩, ⟨"b", ["g"]⟩] ∧
    ∃ merged, (Rule.merge .filterFilter).fuseStepwise
        (.pair (.single (sieve "" ["f"] .pure))
          (.pair (.single (sieve "some" [] .io)) (.single (sieve "" ["g"] .pure)))) = .ok merged ∧
      merged.kind = .filter ∧ merged.purity = .io ∧ merged.label = "Filter[ && some && ]" ∧
      merged.calls = ["f", "g"] := by
  obtain ⟨hdeclarations, hspans⟩ := fuse_agrees_with_bracketings
  obtain ⟨folded, hfolded, hmerges⟩ := hspans .filterFilter (by decide)
    [sieve "" ["f"] .pure, sieve "some" [] .io, sieve "" ["g"] .pure] (by decide) (by decide)
  obtain ⟨merged, hmerged, hkind, hpurity, hlabel, hcalls, -⟩ := hmerges
    (.pair (.single (sieve "" ["f"] .pure))
      (.pair (.single (sieve "some" [] .io)) (.single (sieve "" ["g"] .pure)))) rfl
  cases hfolded
  refine ⟨(hdeclarations "" _ (by decide)).2 _ rfl, merged, hmerged, hkind, hpurity, ?_, hcalls⟩
  exact hlabel.trans (by decide +kernel)

end Segment
end PipelineFusion
