/-!
# Decimal digits

The decimal digits of a natural number have no superfluous zero in front, and they give the number
back.  Where they stand in a text they are found as its longest run of digits, as long as no digit
follows.
-/

namespace PipelineFusion

/-- Nothing at the front of the text has the property, so no run of it goes on here. -/
def EndsRun (p : Char → Bool) (text : List Char) : Prop := ∀ c ∈ text.head?, p c = false

section Runs

variable {p : Char → Bool} {word rest : List Char}

theorem endsRun_cons {c : Char} (h : p c = false) (text : List Char) : EndsRun p (c :: text) := by
  rintro _ ⟨rfl⟩
  exact h

theorem takeWhile_append_of_endsRun (h : ∀ c ∈ word, p c = true) (hrest : EndsRun p rest) :
    (word ++ rest).takeWhile p = word := by
  rw [List.takeWhile_append_of_pos h]
  cases rest with
  | nil => simp
  | cons c rest => simp [hrest c rfl]

theorem dropWhile_append_of_endsRun (h : ∀ c ∈ word, p c = true) (hrest : EndsRun p rest) :
    (word ++ rest).dropWhile p = rest := by
  rw [List.dropWhile_append_of_pos h]
  cases rest with
  | nil => rfl
  | cons c rest => simp [hrest c rfl]

end Runs

namespace Decimal

variable {n init : Nat} {digits : List Char}

theorem isDigit_of_mem {c : Char} (h : c ∈ Nat.toDigits 10 n) : c.isDigit = true :=
  Nat.isDigit_of_mem_toDigits (by decide) (by decide) h

theorem exists_toDigits_eq_cons (n : Nat) :
    ∃ c cs, Nat.toDigits 10 n = c :: cs ∧ c.isDigit = true := by
  obtain ⟨c, cs, h⟩ := List.exists_cons_of_ne_nil (Nat.toDigits_ne_nil (n := n) (b := 10))
  exact ⟨c, cs, h, isDigit_of_mem (h ▸ List.mem_cons_self)⟩

theorem head?_toDigits_ne_zero (h : 0 < n) : (Nat.toDigits 10 n).head? ≠ some '0' := by
  induction n using Nat.strongRecOn with
  | ind n ih =>
      by_cases hn : n < 10
      · have hdigit : ∀ n < 10, 0 < n → [Nat.digitChar n].head? ≠ some '0' := by decide
        rw [Nat.toDigits_of_lt_base hn]
        exact hdigit n hn h
      · have hhead := ih (n / 10) (by omega) (by omega)
        obtain ⟨c, cs, hfront, -⟩ := exists_toDigits_eq_cons (n / 10)
        rw [hfront] at hhead
        rw [Nat.toDigits_of_base_le (by decide) (by omega), hfront]
        exact hhead

/-- A zero stands in front only if it is the only digit. -/
theorem length_toDigits_of_head? (h : (Nat.toDigits 10 n).head? = some '0') :
    (Nat.toDigits 10 n).length = 1 := by
  cases n with
  | zero => rfl
  | succ n => exact absurd h (head?_toDigits_ne_zero (Nat.succ_pos n))

theorem toList_toString (i : Int) :
    (toString i).toList =
      if 0 ≤ i then Nat.toDigits 10 i.toNat else '-' :: Nat.toDigits 10 (-i).toNat := by
  rw [Int.toString_eq_repr, Int.repr_eq_if]
  split
  · rw [Nat.repr_eq_ofList_toDigits, String.toList_ofList]
  · simp [String.toList_append, Nat.repr_eq_ofList_toDigits]

theorem le_ofDigitChars (digits : List Char) (init : Nat) :
    init ≤ Nat.ofDigitChars 10 digits init := by
  rw [Nat.ofDigitChars_eq_ofDigitChars_zero]
  have hpos : 0 < 10 ^ digits.length := Nat.pow_pos (by decide)
  have hmul := Nat.le_mul_of_pos_left init hpos
  omega

end Decimal
end PipelineFusion
