import PipelineFusion.Json.Number
import PipelineFusion.Proofs.Decimal.Digits

/-!
# Reading integers back

An integer of the signed sixty-four bit range is read back from its digits.
-/

namespace PipelineFusion.Json

variable {n : Nat} {rest : List Char}

/-- All digits are kept as long as the whole number fits. -/
theorem absorb_eq {digits : List Char} (significand : Nat)
    (h : Nat.ofDigitChars 10 digits significand < Nat.pow 2 64) :
    absorb significand digits = (Nat.ofDigitChars 10 digits significand, []) := by
  induction digits generalizing significand with
  | nil => rfl
  | cons c digits ih =>
      have hnext : significand * 10 + (c.toNat - 48) =
          10 * significand + (c.toNat - '0'.toNat) := by
        rw [Nat.mul_comm]
        rfl
      rw [Nat.ofDigitChars_cons] at h ⊢
      have hle := Decimal.le_ofDigitChars digits (10 * significand + (c.toNat - '0'.toNat))
      rw [absorb, hnext, if_pos (Nat.lt_of_le_of_lt hle h), ih _ h]

/-- Nothing follows that could belong to a number. -/
def EndsNumber (rest : List Char) : Prop :=
  EndsRun (fun c ↦ isDigit c || c = '.' || c = 'e' || c = 'E') rest

theorem EndsNumber.endsRun (h : EndsNumber rest) : EndsRun isDigit rest := by
  intro c hc
  have hends := h c hc
  simp only [Bool.or_eq_false_iff] at hends
  exact hends.1.1.1

theorem readMagnitude_toDigits (minus : Bool) (hn : n < Nat.pow 2 64) (hrest : EndsNumber rest) :
    readMagnitude minus (Nat.toDigits 10 n ++ rest) =
      if minus = false then some (.natural n, rest)
      else if 0 < n ∧ n ≤ Nat.pow 2 63 then some (.negative n, rest)
      else some (.real (-Float.ofNat n), rest) := by
  have hdigits : ∀ c ∈ Nat.toDigits 10 n, isDigit c = true := fun c ↦ Decimal.isDigit_of_mem
  have hvalue : absorb 0 (Nat.toDigits 10 n) = (n, []) := by
    have hread : Nat.ofDigitChars 10 (Nat.toDigits 10 n) 0 = n := Nat.ofDigitChars_ten_toDigits
    rw [absorb_eq 0 (by rwa [hread]), hread]
  have hzero : ¬ ((Nat.toDigits 10 n).isEmpty = true ∨
      (Nat.toDigits 10 n).head? = some '0' ∧ 1 < (Nat.toDigits 10 n).length) := by
    rintro (hempty | ⟨hhead, hlength⟩)
    · exact Nat.toDigits_ne_nil (List.isEmpty_iff.1 hempty)
    · rw [Decimal.length_toDigits_of_head? hhead] at hlength
      exact absurd hlength (Nat.lt_irrefl 1)
  rw [readMagnitude, takeWhile_append_of_endsRun hdigits hrest.endsRun,
    dropWhile_append_of_endsRun hdigits hrest.endsRun, hvalue]
  have hmark : rest.head? ≠ some 'e' ∧ rest.head? ≠ some 'E' := by
    constructor <;> intro hhead <;> simpa using hrest _ hhead
  dsimp only
  rw [if_neg hzero]
  split
  · have hpoint := hrest '.' rfl
    simp at hpoint
  · rw [if_pos ⟨rfl, hmark⟩]

theorem readNumber_toDigits (hn : n < Nat.pow 2 64) (hrest : EndsNumber rest) :
    readNumber (Nat.toDigits 10 n ++ rest) = some (.natural n, rest) := by
  obtain ⟨c, cs, hfront, hc⟩ := Decimal.exists_toDigits_eq_cons n
  have hminus : c ≠ '-' := by
    rintro rfl
    cases hc
  have hread := readMagnitude_toDigits false hn hrest
  rw [if_pos rfl, hfront] at hread
  rw [hfront, List.cons_append, readNumber.eq_2 _ (by simpa using hminus)]
  exact hread

theorem readNumber_minus_toDigits (hpos : 0 < n) (hn : n ≤ Nat.pow 2 63)
    (hrest : EndsNumber rest) :
    readNumber ('-' :: Nat.toDigits 10 n ++ rest) = some (.negative n, rest) := by
  have hbound : n < Nat.pow 2 64 := Nat.lt_of_le_of_lt hn (by decide)
  rw [List.cons_append, readNumber, readMagnitude_toDigits true hbound hrest,
    if_neg (by decide), if_pos ⟨hpos, hn⟩]

/-- The text of an integer, in front of something that does not belong to it. -/
theorem exists_readNumber_toString (i : Int64) (hrest : EndsNumber rest) :
    ∃ number, readNumber ((toString i.toInt).toList ++ rest) = some (number, rest) ∧
      number.toInt64? = some i := by
  have hlower := i.le_toInt
  have hupper := i.toInt_lt
  have hword : (Nat.pow 2 63 : Int) = 2 ^ 63 := by decide
  rw [Decimal.toList_toString]
  split
  · next hsign =>
      obtain ⟨n, hn⟩ := Int.eq_ofNat_of_zero_le hsign
      have hbound : n < Nat.pow 2 63 := by omega
      rw [hn, Int.toNat_natCast]
      refine ⟨.natural n, readNumber_toDigits (Nat.lt_trans hbound (by decide)) hrest, ?_⟩
      rw [Number.toInt64?, if_pos hbound, ← Int64.ofInt_eq_ofNat, ← hn, Int64.ofInt_toInt]
  · next hsign =>
      obtain ⟨n, hn⟩ := Int.eq_ofNat_of_zero_le (a := -i.toInt) (by omega)
      have hpos : 0 < n := by omega
      have hbound : n ≤ Nat.pow 2 63 := by omega
      rw [hn, Int.toNat_natCast]
      refine ⟨.negative n, readNumber_minus_toDigits hpos hbound hrest, ?_⟩
      rw [Number.toInt64?, ← hn, Int.neg_neg, Int64.ofInt_toInt]

end PipelineFusion.Json
