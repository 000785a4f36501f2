import PipelineFusion.Proofs.Json.Number
import PipelineFusion.Proofs.Json.Quoted
import PipelineFusion.Proofs.Value.Equality
import PipelineFusion.Value.Tagged

/-!
# Reading tagged values back

A value without floats is read back from its tagged form, as long as its lists do not nest so deep
that the brackets exceed their limit.  So no two such values have the same form.
-/

namespace PipelineFusion.Value

open Json

mutual

/-- How many lists stand in one another. -/
def depth : Value → Nat
  | .list items => depthAll items + 1
  | _ => 0

def depthAll : List Value → Nat
  | [] => 0
  | v :: vs => max (depth v) (depthAll vs)

end

/-! ## Tokens -/

theorem skipSpace_cons {c : Char} (h : isSpace c = false) (cs : List Char) :
    skipSpace (c :: cs) = c :: cs := by
  simp [skipSpace, h]

theorem expect_cons {c : Char} (h : isSpace c = false) (cs : List Char) :
    expect c (c :: cs) = some cs := by
  simp [expect, skipSpace_cons h]

theorem readString_quote (cs rest : List Char) :
    readString (quote cs ++ rest) = some (String.ofList cs, rest) := by
  have hquote : quote cs ++ rest = '"' :: (escape cs ++ '"' :: rest) := by simp [quote]
  rw [readString, hquote, expect_cons rfl]
  simp [unescape_escape]

theorem skipSpace_toString (i : Int) (rest : List Char) :
    skipSpace ((toString i).toList ++ rest) = (toString i).toList ++ rest := by
  rw [Decimal.toList_toString]
  split
  · obtain ⟨c, cs, hfront, hc⟩ := Decimal.exists_toDigits_eq_cons i.toNat
    have hspace : isSpace c = false := by
      rw [← Bool.not_eq_true]
      intro h
      simp only [isSpace, Bool.or_eq_true, decide_eq_true_eq] at h
      rcases h with ((rfl | rfl) | rfl) | rfl <;> cases hc
    rw [hfront]
    exact skipSpace_cons hspace _
  · exact skipSpace_cons rfl _

/-! ## Lists -/

theorem exists_encode_eq_cons (v : Value) :
    ∃ c cs, encode v = c :: cs ∧ (c = '"' ∨ c = '\x7b') := by
  cases v with
  | null => exact ⟨_, _, rfl, Or.inl rfl⟩
  | _ => exact ⟨_, _, rfl, Or.inr rfl⟩

theorem length_le_length_encodeAll (vs : List Value) : vs.length ≤ (encodeAll vs).length := by
  have hpos (v : Value) : 0 < (encode v).length := by
    obtain ⟨c, cs, htext, -⟩ := exists_encode_eq_cons v
    simp [htext]
  induction vs with
  | nil => exact Nat.zero_le _
  | cons v vs ih =>
      cases vs with
      | nil => exact hpos v
      | cons w vs =>
          have := hpos v
          simp only [encodeAll, List.length_append, List.length_cons] at ih ⊢
          omega

section Lists

variable {item : List Char → Option (Value × List Char)}

theorem readItems_encodeAll (v : Value) (vs : List Value)
    (h : ∀ w ∈ v :: vs, ∀ rest, item (encode w ++ rest) = some (w, rest)) {bound : Nat}
    (hbound : vs.length < bound) (rest : List Char) :
    readItems item bound (encodeAll (v :: vs) ++ ']' :: rest) = some (v :: vs, rest) := by
  induction vs generalizing v bound with
  | nil =>
      obtain ⟨bound, rfl⟩ := Nat.exists_eq_add_one_of_ne_zero (Nat.ne_zero_of_lt hbound)
      rw [encodeAll, readItems, h v List.mem_cons_self]
      simp [skipSpace_cons, isSpace]
  | cons w vs ih =>
      obtain ⟨bound, rfl⟩ := Nat.exists_eq_add_one_of_ne_zero (Nat.ne_zero_of_lt hbound)
      have hrest := ih w (fun u hu ↦ h u (List.mem_cons_of_mem v hu))
        (Nat.lt_of_succ_lt_succ hbound)
      rw [encodeAll, List.append_assoc, List.cons_append, readItems, h v List.mem_cons_self]
      simp [skipSpace_cons, isSpace, hrest]

theorem readList_cons {c : Char} {cs rest : List Char} {vs : List Value}
    (hspace : isSpace c = false) (hc : c ≠ ']')
    (h : readItems item (c :: cs).length (c :: cs) = some (vs, rest)) :
    readList item ('[' :: c :: cs) = some (.list vs, rest) := by
  rw [readList, expect_cons rfl]
  simp only [Option.bind_eq_bind, Option.bind_some, skipSpace_cons hspace]
  split
  · next heq => exact absurd (List.cons.inj heq).1 hc
  · rw [h, Option.bind_some]

theorem readList_encodeAll {items : List Value}
    (h : ∀ w ∈ items, ∀ rest, item (encode w ++ rest) = some (w, rest)) (rest : List Char) :
    readList item ('[' :: encodeAll items ++ ']' :: rest) = some (.list items, rest) := by
  cases items with
  | nil => rfl
  | cons v vs =>
      obtain ⟨c, cs, htext, hc⟩ := exists_encode_eq_cons v
      obtain ⟨tail, hfront⟩ : ∃ tail, encodeAll (v :: vs) = c :: tail := by
        cases vs with
        | nil => exact ⟨cs, by rw [encodeAll, htext]⟩
        | cons w vs => exact ⟨_, by rw [encodeAll, htext, List.cons_append]⟩
      have hbound : vs.length < (encodeAll (v :: vs) ++ ']' :: rest).length := by
        have hlength := length_le_length_encodeAll (v :: vs)
        simp only [List.length_append, List.length_cons] at hlength ⊢
        omega
      have hread := readItems_encodeAll v vs h hbound rest
      rw [hfront] at hread
      rw [hfront]
      rcases hc with rfl | rfl
      · exact readList_cons rfl (by decide) hread
      · exact readList_cons rfl (by decide) hread

end Lists

/-! ## Objects -/

section Objects

variable {list : List Char → Option (Value × List Char)} {tag : String} {payload rest : List Char}
  {v : Value}

theorem readVariant_taggedWith
    (h : readPayload list tag (payload ++ '\x7d' :: rest) = some (v, '\x7d' :: rest)) :
    readVariant list (taggedWith tag payload ++ rest) = some (v, rest) := by
  have htext : taggedWith tag payload ++ rest =
      '\x7b' :: (quote tag.toList ++ ':' :: (payload ++ '\x7d' :: rest)) := by
    simp [taggedWith]
  rw [readVariant, htext, skipSpace_cons rfl]
  simp [readString_quote, expect_cons, h, isSpace]

theorem readPayload_bool (b : Bool) :
    readPayload list "Bool" ((if b then "true" else "false").toList ++ rest) =
      some (.bool b, rest) := by
  cases b <;> rfl

theorem readPayload_int (n : Int64) :
    readPayload list "Int" ((toString n.toInt).toList ++ '\x7d' :: rest) =
      some (.int n, '\x7d' :: rest) := by
  have hrest : EndsNumber ('\x7d' :: rest) := endsRun_cons rfl rest
  obtain ⟨number, hread, hnumber⟩ := exists_readNumber_toString n hrest
  simp only [readPayload, skipSpace_toString, hread, Option.bind_eq_bind, Option.bind_some, hnumber]

theorem readPayload_str (s : String) :
    readPayload list "String" (quote s.toList ++ rest) = some (.str s, rest) := by
  simp [readPayload, readString_quote]

end Objects

/-! ## Values -/

theorem exists_readVariant_of_pos {room : Nat} (h : 0 < room) :
    ∃ list, ∀ text, readWithin room text = readVariant list text := by
  match room with
  | 1 => exact ⟨_, fun _ ↦ rfl⟩
  | room + 2 => exact ⟨_, fun _ ↦ rfl⟩

mutual

/-- Every list takes two brackets, its own and those of its tag, and any other value at most one. -/
theorem readWithin_encode (v : Value) {room : Nat} (hfloats : v.floats = [])
    (hroom : 2 * v.depth + 1 ≤ room) (rest : List Char) :
    readWithin room (encode v ++ rest) = some (v, rest) := by
  have hpos : 0 < room := by omega
  obtain ⟨list, hlist⟩ := exists_readVariant_of_pos hpos
  cases v with
  | null => rw [hlist]; rfl
  | bool b =>
      rw [hlist, encode]
      exact readVariant_taggedWith (readPayload_bool b)
  | int n =>
      rw [hlist, encode]
      exact readVariant_taggedWith (readPayload_int n)
  | float x => cases hfloats
  | str s =>
      rw [hlist, encode]
      exact readVariant_taggedWith (readPayload_str s)
  | list items =>
      rw [depth] at hroom
      obtain ⟨room, rfl⟩ := Nat.exists_eq_add_of_le' (show 2 ≤ room by omega)
      rw [readWithin, encode]
      apply readVariant_taggedWith
      have hitems : ∀ v ∈ items, ∀ rest, readWithin room (encode v ++ rest) = some (v, rest) :=
        forall_readWithin_encode items hfloats (by omega)
      have hread := readList_encodeAll hitems ('\x7d' :: rest)
      simpa [readPayload] using hread

theorem forall_readWithin_encode (vs : List Value) {room : Nat} (hfloats : floatsAll vs = [])
    (hroom : 2 * depthAll vs + 1 ≤ room) :
    ∀ v ∈ vs, ∀ rest, readWithin room (encode v ++ rest) = some (v, rest) := by
  cases vs with
  | nil => simp
  | cons v vs =>
      rw [floatsAll, List.append_eq_nil_iff] at hfloats
      rw [depthAll] at hroom
      exact List.forall_mem_cons.2
        ⟨readWithin_encode v hfloats.1 (by omega), forall_readWithin_encode vs hfloats.2 (by omega)⟩

end

theorem ofTagged?_toTagged {v : Value} (hfloats : v.floats = []) (hdepth : v.depth ≤ 63) :
    ofTagged? v.toTagged = some v := by
  have hread : readWithin 127 (encode v ++ []) = some (v, []) :=
    readWithin_encode v hfloats (by omega) []
  rw [List.append_nil] at hread
  simp [ofTagged?, toTagged, decode?, hread, skipSpace]

/-- The lists of a value may nest up to half of the limit on brackets.  Without floats it is then
read back from its form, which no other such value has. -/
theorem tagged_round_trip {v : Value} (hfloats : v.floats = []) (hdepth : v.depth ≤ 63) :
    ofTagged? v.toTagged = some v ∧
    ∀ w : Value, w.floats = [] → w.depth ≤ 63 → w.toTagged = v.toTagged → w = v := by
  refine ⟨ofTagged?_toTagged hfloats hdepth, ?_⟩
  intro w hfloats' hdepth' heq
  have hread := ofTagged?_toTagged hfloats' hdepth'
  rw [heq, ofTagged?_toTagged hfloats hdepth] at hread
  exact (Option.some.inj hread).symm

/-- Controls, a quote and the least integer, in nested lists. -/
def gnarled : Value :=
  .list [.int Int64.minValue, .list [.str "\"\\\n\x01é", .null, .list []], .bool false]

theorem tagged_round_trip_gnarled :
    gnarled.floats = [] ∧ gnarled.depth ≤ 63 ∧ ofTagged? gnarled.toTagged = some gnarled := by
  have hfloats : gnarled.floats = [] := rfl
  have hdepth : gnarled.depth ≤ 63 := by decide
  exact ⟨hfloats, hdepth, (tagged_round_trip hfloats hdepth).1⟩

end PipelineFusion.Value
