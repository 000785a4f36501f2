import Mathlib.Data.Set.Image
import Mathlib.Order.Bounds.Defs
import PipelineFusion.Rule.Pattern

/-!
# The language of a pattern

A pattern spells words of kinds: one kind for each slot, and any number of further kinds for the
last slot if it repeats.  From the front of a window a pattern takes the longest word that it
spells, although it never looks at more than one way to spell it.
-/

namespace PipelineFusion

theorem forall_mem_take_iff {A : Type} {p : A → Bool} {xs : List A} {n : Nat}
    (h : n ≤ xs.length) : (∀ x ∈ xs.take n, p x = true) ↔ n ≤ (xs.takeWhile p).length := by
  induction xs generalizing n with
  | nil =>
      obtain rfl := Nat.le_zero.1 h
      simp
  | cons x xs ih =>
      cases n with
      | zero => simp
      | succ n =>
          rw [List.take_succ_cons, List.forall_mem_cons, ih (Nat.le_of_succ_le_succ h)]
          by_cases hx : p x = true <;> simp [hx]

/-- The words of a row of slots.  Kind after kind goes to the first slot that is left, and to the
last one as often as wanted if it may be used again. -/
inductive Slot.Spells (again : Bool) : List Slot → List Kind → Prop
  | last {slot : Slot} {kind : Kind} (h : slot.accepts kind = true) : Spells again [slot] [kind]
  | more {slot : Slot} {kind : Kind} {word : List Kind} (hagain : again = true)
      (h : slot.accepts kind = true) (hword : Spells again [slot] word) :
      Spells again [slot] (kind :: word)
  | next {slot other : Slot} {slots : List Slot} {kind : Kind} {word : List Kind}
      (h : slot.accepts kind = true) (hword : Spells again (other :: slots) word) :
      Spells again (slot :: other :: slots) (kind :: word)

namespace Slot

variable {again : Bool} {slot last : Slot} {slots : List Slot} {kind : Kind} {word : List Kind}

theorem not_spells_nil (slots : List Slot) : ¬ Spells again slots [] := by
  intro h
  cases h

theorem spells_singleton_iff :
    Spells again [slot] (kind :: word) ↔
      slot.accepts kind = true ∧ ∀ k ∈ word, (again && slot.accepts k) = true := by
  induction word generalizing kind with
  | nil =>
      constructor
      · rintro (h | ⟨-, -, hword⟩)
        · exact ⟨h, by simp⟩
        · exact absurd hword (not_spells_nil _)
      · rintro ⟨h, -⟩
        exact .last h
  | cons next word ih =>
      constructor
      · rintro (_ | ⟨hagain, h, hword⟩)
        obtain ⟨hnext, hall⟩ := ih.1 hword
        exact ⟨h, List.forall_mem_cons.2 ⟨by simp [hagain, hnext], hall⟩⟩
      · rintro ⟨h, hall⟩
        obtain ⟨hnext, hrest⟩ := List.forall_mem_cons.1 hall
        rw [Bool.and_eq_true] at hnext
        exact .more hnext.1 h (ih.2 ⟨hnext.2, hrest⟩)

theorem spells_cons_iff {other : Slot} :
    Spells again (slot :: other :: slots) (kind :: word) ↔
      slot.accepts kind = true ∧ Spells again (other :: slots) word := by
  constructor
  · rintro (_ | _ | ⟨h, hword⟩)
    exact ⟨h, hword⟩
  · rintro ⟨h, hword⟩
    exact .next h hword

/-- Every slot has its kind, and all kinds behind these belong to the last slot. -/
theorem spells_iff (hlast : slots.getLast? = some last) :
    Spells again slots word ↔
      slots.length ≤ word.length ∧
      ((slots.zip word).all fun (slot, kind) ↦ slot.accepts kind) = true ∧
      ∀ k ∈ word.drop slots.length, (again && last.accepts k) = true := by
  induction slots generalizing word with
  | nil => cases hlast
  | cons slot slots ih =>
      cases word with
      | nil => simpa using not_spells_nil _
      | cons kind word =>
          cases slots with
          | nil =>
              obtain rfl : slot = last := by simpa using hlast
              rw [spells_singleton_iff]
              simp
          | cons other slots =>
              have hother : (other :: slots).getLast? = some last := by simpa using hlast
              rw [spells_cons_iff, ih hother]
              simp only [List.length_cons, Nat.add_le_add_iff_right, List.zip_cons_cons,
                List.all_cons, Bool.and_eq_true, List.drop_succ_cons]
              tauto

end Slot

namespace Pattern

def language (p : Pattern) : Set (List Kind) := {word | Slot.Spells p.repeatLast p.slots word}

variable {p : Pattern} {last : Slot} {window : List Kind} {n : Nat}

theorem span?_of_getLast?_eq_none (h : p.slots.getLast? = none) : p.span? window = none := by
  rw [span?, h]

theorem language_of_getLast?_eq_none (h : p.slots.getLast? = none) : p.language = ∅ := by
  rw [List.getLast?_eq_none_iff] at h
  apply Set.eq_empty_of_forall_notMem
  intro word hword
  rw [language, Set.mem_ofPred_eq, h] at hword
  cases hword

/-- The number of kinds behind the first ones that go to the last slot as well. -/
def surplus (p : Pattern) (last : Slot) (window : List Kind) : Nat :=
  ((window.drop p.slots.length).takeWhile fun k ↦ p.repeatLast && last.accepts k).length

theorem surplus_le (p : Pattern) (last : Slot) (window : List Kind) :
    p.surplus last window ≤ window.length - p.slots.length := by
  rw [surplus, ← List.length_drop]
  exact (List.takeWhile_sublist _).length_le

theorem span?_eq_some_iff (hlast : p.slots.getLast? = some last) :
    p.span? window = some n ↔
      p.slots.length ≤ window.length ∧
      ((p.slots.zip window).all fun (slot, kind) ↦ slot.accepts kind) = true ∧
      p.slots.length + p.surplus last window = n := by
  rw [span?, hlast, surplus]
  cases hrepeat : p.repeatLast
  · have hnone : (window.drop p.slots.length).takeWhile (fun _ ↦ false) = [] := by
      cases window.drop p.slots.length <;> rfl
    simp [hnone]
  · simp

/-- A prefix of the window is a word of the pattern if it covers the slots, its kinds fit them, and
it does not go beyond the run of kinds that fit the last slot. -/
theorem take_mem_language_iff (hlast : p.slots.getLast? = some last) (hn : n ≤ window.length) :
    window.take n ∈ p.language ↔
      p.slots.length ≤ n ∧
      ((p.slots.zip window).all fun (slot, kind) ↦ slot.accepts kind) = true ∧
      n ≤ p.slots.length + p.surplus last window := by
  rw [language, Set.mem_ofPred_eq, Slot.spells_iff hlast, List.length_take, Nat.min_eq_left hn,
    List.drop_take]
  apply and_congr_right
  intro hlength
  have hzip : p.slots.zip (window.take n) = p.slots.zip window := by
    have htake : (p.slots.zip window).take n = p.slots.zip window := by
      apply List.take_of_length_le
      rw [List.length_zip]
      exact (Nat.min_le_left _ _).trans hlength
    rw [← htake, List.zip, List.take_zipWith, List.take_of_length_le hlength]
  have hrest : n - p.slots.length ≤ (window.drop p.slots.length).length := by
    rw [List.length_drop]
    exact Nat.sub_le_sub_right hn _
  rw [hzip, forall_mem_take_iff hrest, surplus, Nat.sub_le_iff_le_add']

/-- The lengths of the words that the window starts with. -/
def lengths (p : Pattern) (window : List Kind) : Set Nat :=
  List.length '' {word ∈ p.language | word <+: window}

theorem mem_lengths_iff :
    n ∈ p.lengths window ↔ n ≤ window.length ∧ window.take n ∈ p.language := by
  constructor
  · rintro ⟨word, ⟨hword, hstart⟩, rfl⟩
    rw [← List.prefix_iff_eq_take.1 hstart]
    exact ⟨hstart.length_le, hword⟩
  · rintro ⟨hn, hword⟩
    exact ⟨window.take n, ⟨hword, List.take_prefix n window⟩, List.length_take_of_le hn⟩

theorem span?_eq_some_iff_isGreatest :
    p.span? window = some n ↔ IsGreatest (p.lengths window) n := by
  cases hlast : p.slots.getLast? with
  | none =>
      rw [span?_of_getLast?_eq_none hlast, lengths, language_of_getLast?_eq_none hlast]
      simp [IsGreatest]
  | some last =>
      constructor
      · intro h
        obtain ⟨hlength, hzip, rfl⟩ := (span?_eq_some_iff hlast).1 h
        have hle := (span?_le h).2
        refine ⟨mem_lengths_iff.2 ⟨hle, ?_⟩, ?_⟩
        · exact (take_mem_language_iff hlast hle).2 ⟨Nat.le_add_right _ _, hzip, Nat.le_refl _⟩
        · intro k hk
          obtain ⟨hk, hword⟩ := mem_lengths_iff.1 hk
          exact ((take_mem_language_iff hlast hk).1 hword).2.2
      · rintro ⟨hn, hgreatest⟩
        obtain ⟨hn, hword⟩ := mem_lengths_iff.1 hn
        obtain ⟨hlength, hzip, hle⟩ := (take_mem_language_iff hlast hn).1 hword
        have hspan : p.slots.length + p.surplus last window ≤ window.length := by
          have hsurplus := p.surplus_le last window
          omega
        have hlongest : p.slots.length + p.surplus last window ∈ p.lengths window :=
          mem_lengths_iff.2 ⟨hspan, (take_mem_language_iff hlast hspan).2
            ⟨Nat.le_add_right _ _, hzip, Nat.le_refl _⟩⟩
        exact (span?_eq_some_iff hlast).2
          ⟨hlength.trans hn, hzip, Nat.le_antisymm (hgreatest hlongest) hle⟩

theorem isSome_span?_iff : (p.span? window).isSome ↔ (p.lengths window).Nonempty := by
  constructor
  · intro h
    obtain ⟨n, hn⟩ := Option.isSome_iff_exists.1 h
    exact ⟨n, (span?_eq_some_iff_isGreatest.1 hn).1⟩
  · rintro ⟨n, hn⟩
    obtain ⟨hn, hword⟩ := mem_lengths_iff.1 hn
    cases hlast : p.slots.getLast? with
    | none =>
        rw [language_of_getLast?_eq_none hlast] at hword
        exact absurd hword (Set.notMem_empty _)
    | some last =>
        obtain ⟨hlength, hzip, -⟩ := (take_mem_language_iff hlast hn).1 hword
        rw [(span?_eq_some_iff hlast).2 ⟨hlength.trans hn, hzip, rfl⟩]
        rfl

/-- A pattern without slots matches nothing.  Any pattern matches just where the window starts with
one of its words, and then takes the longest of them. -/
theorem matchSpan_isGreatest (p : Pattern) (window : Plan) :
    (∀ again, matchSpan ⟨[], again⟩ window = none) ∧
    ((p.matchSpan window).isSome ↔ ∃ word ∈ p.language, word <+: window.map Node.kind) ∧
    ∀ n, p.matchSpan window = some n ↔
      IsGreatest (List.length '' {word ∈ p.language | word <+: window.map Node.kind}) n := by
  refine ⟨fun again ↦ span?_of_getLast?_eq_none rfl, ?_, fun n ↦ span?_eq_some_iff_isGreatest⟩
  rw [matchSpan, isSome_span?_iff, lengths, Set.image_nonempty]
  rfl

/-- The last slot goes on up to the scan, but not back to the filter in front. -/
example : span? ⟨[.single .filter, .multi [.map, .filterMap]], true⟩
    [.filter, .map, .filterMap, .map, .scan, .map] = some 4 := by decide

end Pattern
end PipelineFusion
