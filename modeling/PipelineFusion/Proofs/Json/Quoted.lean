import PipelineFusion.Json.Quoted

/-!
# Reading quoted strings back

Whatever characters a string holds, it is read back from its JSON form.
-/

namespace PipelineFusion.Json

theorem hexValue?_lowerHex {n : Nat} (h : n < 16) : hexValue? (lowerHex n) = some n := by
  have hall : ∀ n < 16, hexValue? (lowerHex n) = some n := by decide
  exact hall n h

theorem codeUnit?_lowerHex {n : Nat} (h : n < 32) :
    codeUnit? '0' '0' (lowerHex (n / 16)) (lowerHex (n % 16)) = some n := by
  have hzero : hexValue? '0' = some 0 := rfl
  rw [codeUnit?, hzero, hexValue?_lowerHex (by omega), hexValue?_lowerHex (by omega)]
  exact congrArg some (by omega)

theorem unescape_shortEscape {mark c : Char} (hmark : mark ≠ 'u')
    (h : shortEscape? mark = some c) (tail : List Char) :
    unescape ('\\' :: mark :: tail) = (unescape tail).map fun r ↦ (c :: r.1, r.2) := by
  rw [unescape, h]
  intro _ _ _ _ _ hu
  exact absurd hu hmark

theorem unescape_longEscape {n : Nat} (h : n < 32) (tail : List Char) :
    unescape ('\\' :: 'u' :: '0' :: '0' :: lowerHex (n / 16) :: lowerHex (n % 16) :: tail) =
      (unescape tail).map fun r ↦ (Char.ofNat n :: r.1, r.2) := by
  have hlow : isLowSurrogate n = false := by
    simp only [isLowSurrogate, Bool.and_eq_false_iff, decide_eq_false_iff_not]
    omega
  have hhigh : isHighSurrogate n = false := by
    simp only [isHighSurrogate, Bool.and_eq_false_iff, decide_eq_false_iff_not]
    omega
  rw [unescape, codeUnit?_lowerHex h]
  simp [hlow, hhigh]

theorem unescape_plain {c : Char} (hquote : c ≠ '"') (hslash : c ≠ '\\') (h : 32 ≤ c.toNat)
    (tail : List Char) :
    unescape (c :: tail) = (unescape tail).map fun r ↦ (c :: r.1, r.2) := by
  rw [unescape, if_neg]
  · rintro (hcontrol | hc)
    · omega
    · exact hslash hc
  · exact hquote
  · intro _ _ _ _ _ hc
    exact absurd hc hslash
  · intro _ _ hc
    exact absurd hc hslash

theorem unescape_escapeChar (c : Char) (tail : List Char) :
    unescape (escapeChar c ++ tail) = (unescape tail).map fun r ↦ (c :: r.1, r.2) := by
  have hcode {n : Nat} (h : c.toNat = n) : c = Char.ofNat n := by rw [← h, Char.ofNat_toNat]
  unfold escapeChar
  split
  · next h => subst h; exact unescape_shortEscape (by decide) rfl tail
  split
  · next h => subst h; exact unescape_shortEscape (by decide) rfl tail
  split
  · next h => subst h; exact unescape_shortEscape (by decide) rfl tail
  split
  · next h => subst h; exact unescape_shortEscape (by decide) rfl tail
  split
  · next h => subst h; exact unescape_shortEscape (by decide) rfl tail
  split
  · next h => rw [hcode h]; exact unescape_shortEscape (by decide) rfl tail
  split
  · next h => rw [hcode h]; exact unescape_shortEscape (by decide) rfl tail
  split
  · next h => simpa [Char.ofNat_toNat] using unescape_longEscape h tail
  · next hquote hslash _ _ _ _ _ h => exact unescape_plain hquote hslash (Nat.not_lt.1 h) tail

theorem unescape_escape (cs rest : List Char) :
    unescape (escape cs ++ '"' :: rest) = some (cs, rest) := by
  induction cs with
  | nil => rw [escape, List.nil_append, unescape]
  | cons c cs ih => rw [escape, List.append_assoc, unescape_escapeChar, ih]; rfl

end PipelineFusion.Json
