import PipelineFusion.Proofs.Decimal.Digits
import PipelineFusion.Proofs.Toml.Quoted
import PipelineFusion.Toml.Reader

/-!
# Reading TOML values back

Numbers, truth values, strings and arrays of strings are read back from their text, on one line or
on several.
-/

namespace PipelineFusion.Toml

variable {n room : Nat} {rest : List Char}

/-! ## Scalars -/

theorem digits?_eq_self {digits : List Char} (inside : Bool)
    (h : ∀ c ∈ digits, c.isDigit = true) (hne : inside = false → digits ≠ []) :
    digits? Char.isDigit inside digits = some digits := by
  induction digits generalizing inside with
  | nil =>
      cases inside with
      | false => exact absurd rfl (hne rfl)
      | true => rfl
  | cons c digits ih =>
      obtain ⟨hc, hall⟩ := List.forall_mem_cons.1 h
      rw [digits?, if_pos hc, ih true hall Bool.noConfusion]
      rfl

theorem whole?_toDigits (n : Nat) : whole? (Nat.toDigits 10 n) = some (Nat.toDigits 10 n) := by
  have hzero : ¬ ((Nat.toDigits 10 n).head? = some '0' ∧ 1 < (Nat.toDigits 10 n).length) := by
    rintro ⟨hhead, hlength⟩
    rw [Decimal.length_toDigits_of_head? hhead] at hlength
    exact absurd hlength (Nat.lt_irrefl 1)
  rw [whole?, digits?_eq_self false (fun c ↦ Decimal.isDigit_of_mem) fun _ ↦ Nat.toDigits_ne_nil]
  simp only [Option.bind_eq_bind, Option.bind_some, if_neg hzero]

theorem foldl_digitValue {digits : List Char} (h : ∀ c ∈ digits, c.isDigit = true) (init : Nat) :
    digits.foldl (fun n c ↦ n * 10 + digitValue c) init = Nat.ofDigitChars 10 digits init := by
  induction digits generalizing init with
  | nil => rfl
  | cons c digits ih =>
      obtain ⟨hc, hall⟩ := List.forall_mem_cons.1 h
      rw [List.foldl_cons, ih hall, Nat.ofDigitChars_cons, digitValue, if_pos hc, Nat.mul_comm]
      rfl

theorem ofDigits_toDigits (n : Nat) : ofDigits 10 (Nat.toDigits 10 n) = n := by
  rw [ofDigits, foldl_digitValue fun c ↦ Decimal.isDigit_of_mem, Nat.ofDigitChars_ten_toDigits]

theorem bounded?_natCast (h : n < Nat.pow 2 64) : bounded? (n : Int) = some (n : Int) := by
  have hlower : Int.pow 2 127 = 2 ^ 127 := rfl
  have hupper : Int.pow 2 128 = 2 ^ 128 := rfl
  have hword : Nat.pow 2 64 = 2 ^ 64 := rfl
  rw [bounded?, if_pos]
  rw [hlower, hupper]
  omega

theorem integer?_toDigits (h : n < Nat.pow 2 64) :
    integer? (Nat.toDigits 10 n) = some (n : Int) := by
  obtain ⟨c, cs, hfront, hc⟩ := Decimal.exists_toDigits_eq_cons n
  have hsign : splitSign (Nat.toDigits 10 n) = (false, Nat.toDigits 10 n) := by
    rw [hfront, splitSign]
    · rintro _ ⟨rfl⟩
      cases hc
    · rintro _ ⟨rfl⟩
      cases hc
  have hmark : ∀ mark, mark.isDigit = false → ∀ ds, Nat.toDigits 10 n ≠ '0' :: mark :: ds := by
    intro mark hmark ds heq
    have hdigit : mark.isDigit = true := Decimal.isDigit_of_mem (n := n) (by simp [heq])
    rw [hmark] at hdigit
    cases hdigit
  rw [integer?.eq_4 _ (hmark 'x' rfl) (hmark 'o' rfl) (hmark 'b' rfl), hsign]
  dsimp only
  rw [whole?_toDigits, Option.bind_eq_bind, Option.bind_some, ofDigits_toDigits,
    if_neg Bool.false_ne_true, bounded?_natCast h]

theorem scalarOf?_toDigits (h : n < Nat.pow 2 64) :
    scalarOf? (Nat.toDigits 10 n) = some (.integer n) := by
  have hword (word : List Char) (hword : ∃ c ∈ word, c.isDigit = false) :
      Nat.toDigits 10 n ≠ word := by
    rintro rfl
    obtain ⟨c, hc, hdigit⟩ := hword
    rw [Decimal.isDigit_of_mem hc] at hdigit
    cases hdigit
  rw [scalarOf?, if_neg (hword _ ⟨'t', by decide⟩), if_neg (hword _ ⟨'f', by decide⟩),
    integer?_toDigits h]

theorem readScalar_toDigits (h : n < Nat.pow 2 64) :
    readScalar (Nat.toDigits 10 n ++ '\n' :: rest) = some (.integer n, '\n' :: rest) := by
  have hchars : ∀ c ∈ Nat.toDigits 10 n, isScalarChar c = true := by
    intro c hc
    have hdigit : c.isDigit = true := Decimal.isDigit_of_mem hc
    simp [isScalarChar, Char.isAlphanum, hdigit]
  have hends : EndsRun isScalarChar ('\n' :: rest) := endsRun_cons rfl rest
  rw [readScalar]
  simp only [takeWhile_append_of_endsRun hchars hends, dropWhile_append_of_endsRun hchars hends,
    scalarOf?_toDigits h]
  rfl

/-! ## Values -/

theorem readValue_of_readFlat {c : Char} {cs : List Char} (hbracket : c ≠ '[')
    (hbrace : c ≠ '\x7b') (room : Nat) :
    readValue room (c :: cs) = readValue.readFlat (c :: cs) := by
  cases room with
  | zero => rfl
  | succ room =>
      rw [readValue]
      · rintro _ ⟨rfl⟩
        exact hbracket rfl
      · rintro _ ⟨rfl⟩
        exact hbrace rfl

theorem readValue_toDigits (h : n < Nat.pow 2 64) (room : Nat) :
    readValue room (Nat.toDigits 10 n ++ '\n' :: rest) =
      some (.scalar (.integer n), '\n' :: rest) := by
  have hread : readScalar (Nat.toDigits 10 n ++ '\n' :: rest) = some (.integer n, '\n' :: rest) :=
    readScalar_toDigits h
  obtain ⟨c, cs, hfront, hc⟩ := Decimal.exists_toDigits_eq_cons n
  have hne : ∀ d, d.isDigit = false → c ≠ d := by
    rintro _ hd rfl
    rw [hd] at hc
    cases hc
  rw [hfront, List.cons_append] at hread ⊢
  rw [readValue_of_readFlat (hne '[' rfl) (hne '\x7b' rfl), readValue.readFlat, if_neg, hread]
  · rfl
  · rintro (hquote | hquote)
    · exact hne '"' rfl (Option.some.inj hquote)
    · exact hne '\'' rfl (Option.some.inj hquote)

theorem readValue_boolean (b : Bool) (room : Nat) :
    readValue room ((if b then "true" else "false").toList ++ '\n' :: rest) =
      some (.scalar (.boolean b), '\n' :: rest) := by
  cases b <;> cases room <;> rfl

theorem exists_write_eq_cons (cs : List Char) :
    ∃ q tail, write cs = q :: tail ∧ (q = '"' ∨ q = '\'') := by
  rw [write]
  cases Quoting.choose cs with
  | basic => exact ⟨_, _, rfl, Or.inl rfl⟩
  | literal => exact ⟨_, _, rfl, Or.inr rfl⟩
  | longBasic => exact ⟨_, _, rfl, Or.inl rfl⟩
  | longLiteral => exact ⟨_, _, rfl, Or.inr rfl⟩

theorem readValue_write (s : String) (hdouble : rest.head? ≠ some '"')
    (hsingle : rest.head? ≠ some '\'') (room : Nat) :
    readValue room (write s.toList ++ rest) = some (.text s, rest) := by
  have hread := read_write s.toList hdouble hsingle
  obtain ⟨q, tail, hfront, hq⟩ := exists_write_eq_cons s.toList
  have hbracket : q ≠ '[' ∧ q ≠ '\x7b' := by rcases hq with rfl | rfl <;> decide
  rw [hfront, List.cons_append] at hread ⊢
  rw [readValue_of_readFlat hbracket.1 hbracket.2, readValue.readFlat, if_pos, hread,
    Option.map_some, String.ofList_toList]
  exact hq.imp (congrArg some) (congrArg some)

/-! ## Arrays -/

theorem dropFiller_write (cs rest : List Char) :
    dropFiller false (write cs ++ rest) = some (write cs ++ rest) := by
  obtain ⟨q, tail, hfront, hq⟩ := exists_write_eq_cons cs
  rw [hfront, List.cons_append]
  rcases hq with rfl | rfl <;> rfl

/-- Entries on lines of their own, each indented and with a comma. -/
def entryLines (ss : List String) : List Char :=
  ss.flatMap fun s ↦ "    ".toList ++ write s.toList ++ [',', '\n']

theorem length_le_length_entryLines (ss : List String) : ss.length ≤ (entryLines ss).length := by
  induction ss with
  | nil => exact Nat.le_refl 0
  | cons s ss ih =>
      simp only [entryLines, List.flatMap_cons, List.length_append, List.length_cons] at ih ⊢
      omega

section Entries

variable {text cs : List Char} {bound : Nat}

theorem readEntries_last (s : String)
    (htext : dropFiller false text = some (write s.toList ++ ']' :: rest)) :
    readEntries (readValue room) (bound + 1) text = some ([.text s], rest) := by
  have hread : readValue room (write s.toList ++ ']' :: rest) = some (.text s, ']' :: rest) :=
    readValue_write s (by simp) (by simp) room
  have hclose : dropFiller false (']' :: rest) = some (']' :: rest) := rfl
  obtain ⟨q, tail, hfront, hq⟩ := exists_write_eq_cons s.toList
  have hq' : q ≠ ']' := by rcases hq with rfl | rfl <;> decide
  rw [hfront, List.cons_append] at hread htext
  rw [readEntries, htext]
  simp [hq', hread, hclose]

theorem readEntries_cons (s : String) {items : List Item}
    (htext : dropFiller false text = some (write s.toList ++ ',' :: cs))
    (hitems : readEntries (readValue room) bound cs = some (items, rest)) :
    readEntries (readValue room) (bound + 1) text = some (.text s :: items, rest) := by
  have hread : readValue room (write s.toList ++ ',' :: cs) = some (.text s, ',' :: cs) :=
    readValue_write s (by simp) (by simp) room
  have hcomma : dropFiller false (',' :: cs) = some (',' :: cs) := rfl
  obtain ⟨q, tail, hfront, hq⟩ := exists_write_eq_cons s.toList
  have hq' : q ≠ ']' := by rcases hq with rfl | rfl <;> decide
  rw [hfront, List.cons_append] at hread htext
  rw [readEntries, htext]
  simp [hq', hread, hcomma, hitems]

theorem readEntries_entryLines (ss : List String) (hbound : ss.length < bound) :
    readEntries (readValue room) bound ('\n' :: (entryLines ss ++ ']' :: rest)) =
      some (ss.map .text, rest) := by
  obtain ⟨bound, rfl⟩ := Nat.exists_eq_add_one_of_ne_zero (Nat.ne_zero_of_lt hbound)
  induction ss generalizing bound with
  | nil => rfl
  | cons s ss ih =>
      have hbound' := Nat.lt_of_succ_lt_succ hbound
      obtain ⟨bound, rfl⟩ := Nat.exists_eq_add_one_of_ne_zero (Nat.ne_zero_of_lt hbound')
      have htext : '\n' :: (entryLines (s :: ss) ++ ']' :: rest) =
          "\n    ".toList ++ (write s.toList ++ ',' :: '\n' :: (entryLines ss ++ ']' :: rest)) := by
        simp [entryLines]
      rw [htext]
      exact readEntries_cons s (dropFiller_write _ _) (ih _ hbound')

theorem readValue_array {items : List Item}
    (h : readEntries (readValue room) cs.length cs = some (items, rest)) :
    readValue (room + 1) ('[' :: cs) = some (.array items, rest) := by
  rw [readValue, h]
  rfl

theorem readValue_array_nil : readValue (room + 1) ('[' :: ']' :: rest) = some (.array [], rest) :=
  readValue_array rfl

theorem readValue_array_singleton (s : String) :
    readValue (room + 1) ('[' :: (write s.toList ++ ']' :: rest)) =
      some (.array [.text s], rest) := by
  obtain ⟨bound, hbound⟩ : ∃ bound, (write s.toList ++ ']' :: rest).length = bound + 1 :=
    ⟨_, List.length_append ..⟩
  exact readValue_array (hbound ▸ readEntries_last s (dropFiller_write _ _))

theorem readValue_array_entryLines (ss : List String) :
    readValue (room + 1) ('[' :: '\n' :: (entryLines ss ++ ']' :: rest)) =
      some (.array (ss.map .text), rest) := by
  refine readValue_array (readEntries_entryLines ss ?_)
  have hlength := length_le_length_entryLines ss
  rw [List.length_cons, List.length_append]
  omega

end Entries

end PipelineFusion.Toml
