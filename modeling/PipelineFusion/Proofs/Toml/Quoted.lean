import PipelineFusion.Toml.Quoted

/-!
# Reading TOML strings back

In whichever quoting a string is written, it is read back.  The long forms are the delicate ones:
quotes may stand for themselves in them, but never three in a row, so that the closing quotes are
found even where quotes of the string stand right before them.
-/

namespace PipelineFusion.Toml

/-! ## Escapes -/

/-- A reader that knows the escapes, and takes plain characters as they are. -/
structure Unescapes (read : List Char → Option (List Char × List Char)) : Prop where
  short : ∀ {mark c : Char}, shortEscape? mark = some c → ∀ tail,
    read ('\\' :: mark :: tail) = push (some c) (read tail)
  long : ∀ {n : Nat}, n < 128 → ∀ tail,
    read ('\\' :: 'u' :: '0' :: '0' :: upperHex (n / 16) :: upperHex (n % 16) :: tail) =
      push (some (Char.ofNat n)) (read tail)
  plain : ∀ {c : Char}, isPlain c = true → c ≠ '"' → c ≠ '\\' → ∀ tail,
    read (c :: tail) = push (some c) (read tail)

theorem hexDigit?_upperHex {n : Nat} (h : n < 16) : hexDigit? (upperHex n) = some n := by
  have hall : ∀ n < 16, hexDigit? (upperHex n) = some n := by decide
  exact hall n h

theorem scalar?_upperHex {n : Nat} (h : n < 128) :
    scalar? ['0', '0', upperHex (n / 16), upperHex (n % 16)] = some (Char.ofNat n) := by
  have hzero : hexDigit? '0' = some 0 := rfl
  have hvalue : n / 16 * 16 + n % 16 = n := Nat.div_add_mod' n 16
  have hrange : n < 0xD800 ∨ 0xDFFF < n ∧ n < 0x110000 := Or.inl (by omega)
  simp only [scalar?, List.foldlM_cons, List.foldlM_nil, hzero, Option.map_some,
    Option.bind_eq_bind, Option.bind_some, hexDigit?_upperHex (show n / 16 < 16 by omega),
    hexDigit?_upperHex (show n % 16 < 16 by omega), Nat.zero_mul, Nat.zero_add, hvalue,
    Option.pure_def, if_pos hrange]

theorem unescapes_readBasic : Unescapes readBasic where
  short := by
    intro mark c h tail
    rw [readBasic, h]
    · rintro _ _ _ rfl
      cases h
    · rintro _ _ _ _ _ rfl
      cases h
    · rintro _ _ _ _ _ _ _ _ _ rfl
      cases h
  long := by
    intro n h tail
    rw [readBasic, scalar?_upperHex h]
  plain := by
    intro c h hquote hslash tail
    rw [readBasic, if_pos]
    · simp [h, hslash]
    · exact hquote
    all_goals
      intros
      contradiction

theorem unescapes_readLongBasic : Unescapes (readLongBasic false) where
  short := by
    intro mark c h tail
    rw [readLongBasic, h, if_neg]
    · simp only [isGap, Bool.or_eq_true, decide_eq_true_eq]
      rintro (((rfl | rfl) | rfl) | rfl) <;> cases h
    · rintro _ _ _ rfl
      cases h
    · rintro _ _ _ _ _ rfl
      cases h
    · rintro _ _ _ _ _ _ _ _ _ rfl
      cases h
  long := by
    intro n h tail
    rw [readLongBasic, scalar?_upperHex h]
  plain := by
    intro c h hquote hslash tail
    have hreturn : c ≠ '\r' := by
      rintro rfl
      cases h
    rw [readLongBasic, Bool.false_and, if_neg Bool.false_ne_true, if_pos]
    · simp [h, hslash]
    all_goals
      intros
      contradiction

section EscapeChar

variable {c : Char}

theorem Unescapes.escapeChar {read : List Char → Option (List Char × List Char)}
    (h : Unescapes read) (hquote : c ≠ '"') (tail : List Char) :
    read (escapeChar c ++ tail) = push (some c) (read tail) := by
  have hcode {n : Nat} (hn : c.toNat = n) : c = Char.ofNat n := by rw [← hn, Char.ofNat_toNat]
  unfold Toml.escapeChar
  split
  · next hc => subst hc; exact h.short rfl tail
  split
  · next hc => subst hc; exact h.short rfl tail
  split
  · next hc => subst hc; exact h.short rfl tail
  split
  · next hc => rw [hcode hc]; exact h.short rfl tail
  split
  · next hc => rw [hcode hc]; exact h.short rfl tail
  split
  · next hc => simpa [Char.ofNat_toNat] using h.long (show c.toNat < 128 by omega) tail
  · next hslash _ _ _ _ hcontrol =>
      have hplain : isPlain c = true := by
        simp only [isPlain, Bool.or_eq_true, Bool.and_eq_true, decide_eq_true_eq, bne_iff_ne]
        omega
      exact h.plain hplain hquote hslash tail

/-- What is written for a character is not taken for a quote or the end of a line. -/
theorem exists_escapeChar_eq_cons (hquote : c ≠ '"') (hline : c ≠ '\n') :
    ∃ d piece, escapeChar c = d :: piece ∧ d ≠ '"' ∧ d ≠ '\n' ∧ d ≠ '\r' := by
  unfold escapeChar
  split
  · exact ⟨_, _, rfl, by decide⟩
  split
  · exact ⟨_, _, rfl, by decide⟩
  split
  · exact ⟨_, _, rfl, by decide⟩
  split
  · exact ⟨_, _, rfl, by decide⟩
  split
  · exact ⟨_, _, rfl, by decide⟩
  split
  · exact ⟨_, _, rfl, by decide⟩
  · next hreturn _ _ _ => exact ⟨_, _, rfl, hquote, hline, hreturn⟩

end EscapeChar

theorem readBasic_escapeBasic (cs rest : List Char) :
    readBasic (escapeBasic cs ++ '"' :: rest) = some (cs, rest) := by
  induction cs with
  | nil => rw [escapeBasic, List.nil_append, readBasic]
  | cons c cs ih =>
      have hpush : push (some c) (readBasic (escapeBasic cs ++ '"' :: rest)) =
          some (c :: cs, rest) := by rw [ih, push]
      rw [escapeBasic]
      split
      · next hc =>
          subst hc
          exact (unescapes_readBasic.short rfl _).trans hpush
      split
      · next hc =>
          subst hc
          exact (unescapes_readBasic.short rfl _).trans hpush
      · next hquote _ =>
          rw [List.append_assoc]
          exact (unescapes_readBasic.escapeChar hquote _).trans hpush

theorem readLiteral_append {cs : List Char} (h : ∀ c ∈ cs, isPlain c = true ∧ c ≠ '\'')
    (rest : List Char) : readLiteral (cs ++ '\'' :: rest) = some (cs, rest) := by
  induction cs with
  | nil => rw [List.nil_append, readLiteral, if_pos rfl]
  | cons c cs ih =>
      obtain ⟨⟨hplain, hquote⟩, hcs⟩ := List.forall_mem_cons.1 h
      rw [List.cons_append, readLiteral, if_neg hquote, if_pos hplain, ih hcs, push]

/-! ## Long strings -/

/-- A reader of long strings between three quotes `q` on either side. -/
structure ReadsLong (q : Char) (read : List Char → Option (List Char × List Char)) : Prop where
  two : ∀ rest, read (q :: q :: q :: q :: q :: rest) = some ([q, q], rest)
  one : ∀ {rest}, rest.head? ≠ some q → read (q :: q :: q :: q :: rest) = some ([q], rest)
  none : ∀ {rest}, rest.head? ≠ some q → read (q :: q :: q :: rest) = some ([], rest)
  quote : ∀ {text}, (∀ rest, text ≠ q :: q :: rest) →
    read (q :: text) = push (some q) (read text)

/-- The body of a long string, behind a run of quotes that stand for themselves.  No such run is
longer than two. -/
inductive LongBody (q : Char) (read : List Char → Option (List Char × List Char)) :
    Nat → List Char → List Char → Prop
  | nil {run : Nat} : LongBody q read run [] []
  | quote {run : Nat} {body cs : List Char} (hrun : run < 2)
      (hbody : LongBody q read (run + 1) body cs) : LongBody q read run (q :: body) (q :: cs)
  | other {run : Nat} {c d : Char} (piece : List Char) {body cs : List Char} (hd : d ≠ q)
      (hread : ∀ tail, read (d :: piece ++ tail) = push (some c) (read tail))
      (hbody : LongBody q read 0 body cs) : LongBody q read run (d :: piece ++ body) (c :: cs)

variable {q : Char} {run : Nat} {body cs rest : List Char}

/-- The closing quotes are the last three of the first run of three or more. -/
theorem LongBody.read_append {read : List Char → Option (List Char × List Char)}
    (h : LongBody q read run body cs) (hlong : ReadsLong q read) (hrest : rest.head? ≠ some q) :
    read (body ++ q :: q :: q :: rest) = some (cs, rest) := by
  induction h with
  | nil => exact hlong.none hrest
  | @other run c d piece body cs hd hread _ ih => rw [List.append_assoc, hread, ih, push]
  | @quote run body cs hrun hbody ih =>
      have hpush (htext : ∀ tail, body ++ q :: q :: q :: rest ≠ q :: q :: tail) :
          read (q :: body ++ q :: q :: q :: rest) = some (q :: cs, rest) := by
        rw [List.cons_append, hlong.quote htext, ih, push]
      cases hbody with
      | nil => exact hlong.one hrest
      | other _ hd _ _ =>
          apply hpush
          rintro tail htail
          exact hd (List.cons.inj htail).1
      | quote hrun hbody =>
          cases hbody with
          | nil => exact hlong.two rest
          | quote hrun' _ => omega
          | other _ hd _ _ =>
              apply hpush
              rintro tail htail
              exact hd (List.cons.inj (List.cons.inj htail).2).1

theorem readsLong_readLongBasic : ReadsLong '"' (readLongBasic false) where
  two := fun rest ↦ readLongBasic.eq_2 false rest
  one := by
    intro rest hrest
    rw [readLongBasic]
    rintro _ rfl
    exact hrest rfl
  none := by
    intro rest hrest
    rw [readLongBasic]
    all_goals
      rintro _ rfl
      exact hrest rfl
  quote := by
    intro text htext
    rw [readLongBasic, Bool.false_and, if_neg Bool.false_ne_true, if_pos (by decide)]
    · exact fun rest _ h ↦ htext _ h
    · exact fun rest _ h ↦ htext _ h
    · exact fun rest _ h ↦ htext _ h
    all_goals
      intros
      contradiction

theorem readsLong_readLongLiteral : ReadsLong '\'' readLongLiteral where
  two := readLongLiteral.eq_2
  one := by
    intro rest hrest
    rw [readLongLiteral]
    rintro _ rfl
    exact hrest rfl
  none := by
    intro rest hrest
    rw [readLongLiteral]
    all_goals
      rintro _ rfl
      exact hrest rfl
  quote := by
    intro text htext
    rw [readLongLiteral, if_pos (by decide)]
    · exact fun rest _ h ↦ htext _ h
    · exact fun rest _ h ↦ htext _ h
    · exact fun rest _ h ↦ htext _ h
    · intros
      contradiction

theorem longBody_escapeLong (run : Nat) (cs : List Char) :
    LongBody '"' (readLongBasic false) run (escapeLong run cs) cs := by
  induction cs generalizing run with
  | nil => exact .nil
  | cons c cs ih =>
      rw [escapeLong]
      split
      · next hc =>
          subst hc
          split
          · next hrun => exact .quote hrun (ih _)
          · exact .other ['"'] (by decide) (unescapes_readLongBasic.short rfl) (ih 0)
      split
      · next hc =>
          subst hc
          exact .other [] (by decide) (fun tail ↦ rfl) (ih 0)
      · next hquote hline =>
          obtain ⟨d, piece, hpiece, hd, -, -⟩ := exists_escapeChar_eq_cons hquote hline
          have hread := unescapes_readLongBasic.escapeChar hquote
          rw [hpiece] at hread ⊢
          exact .other _ hd hread (ih 0)

theorem le_longestRun (q : Char) (n : Nat) (cs : List Char) : n ≤ longestRun q n cs := by
  induction cs generalizing n with
  | nil => exact Nat.le_refl n
  | cons c cs ih =>
      rw [longestRun]
      split
      · exact Nat.le_trans (Nat.le_succ n) (ih (n + 1))
      · exact Nat.le_max_left _ _

theorem longBody_of_longestRun (hcs : ∀ c ∈ cs, isPlain c = true ∨ c = '\n')
    (hrun : longestRun '\'' run cs ≤ 2) : LongBody '\'' readLongLiteral run cs cs := by
  induction cs generalizing run with
  | nil => exact .nil
  | cons c cs ih =>
      obtain ⟨hc, hall⟩ := List.forall_mem_cons.1 hcs
      rw [longestRun] at hrun
      split at hrun
      · next hquote =>
          subst hquote
          have hle := le_longestRun '\'' (run + 1) cs
          exact .quote (by omega) (ih hall hrun)
      · next hquote =>
          refine .other [] hquote ?_ (ih hall (by omega))
          intro tail
          have hreturn : c ≠ '\r' := by
            rintro rfl
            rcases hc with hc | hc <;> cases hc
          rw [List.singleton_append, readLongLiteral, if_pos (by simpa using hc)]
          all_goals
            intros
            contradiction

theorem dropFirstLine_opening {text : List Char}
    (h : '\n' ∉ cs → ∀ c ∈ text.head?, c ≠ '\n' ∧ c ≠ '\r') :
    dropFirstLine (opening cs ++ text) = text := by
  by_cases hline : '\n' ∈ cs
  · simp [opening, hline, dropFirstLine]
  · rw [opening, if_neg (by simpa using hline), List.nil_append, dropFirstLine]
    · rintro _ rfl
      exact (h hline '\n' rfl).1 rfl
    · rintro _ rfl
      exact (h hline '\r' rfl).2 rfl

/-! ## The choice of a quoting -/

theorem isPlain_or_eq_of_not_isControl {c : Char} (h : isControl c = false) :
    isPlain c = true ∨ c = '\n' := by
  by_cases hline : c = '\n'
  · exact Or.inr hline
  · by_cases htab : c = '\t'
    · exact Or.inl (by simp [isPlain, htab])
    · left
      simp only [isControl, Bool.or_eq_false_iff, Bool.and_eq_false_iff, bne_eq_false_iff_eq,
        hline, htab, or_false, decide_eq_false_iff_not, Nat.not_lt, beq_eq_false_iff_ne] at h
      simp [isPlain, h]

theorem notMem_of_longestRun_eq_zero (h : longestRun q run cs = 0) : q ∉ cs := by
  induction cs generalizing run with
  | nil => exact List.not_mem_nil
  | cons c cs ih =>
      rw [longestRun] at h
      split at h
      · have hle := le_longestRun q (run + 1) cs
        omega
      · next hc =>
          have hzero : longestRun q 0 cs = 0 := by omega
          rw [List.mem_cons, not_or]
          exact ⟨fun hq ↦ hc hq.symm, ih hzero⟩

theorem isPlain_or_eq_of_not_any (h : cs.any isControl = false) :
    ∀ c ∈ cs, isPlain c = true ∨ c = '\n' := by
  intro c hc
  exact isPlain_or_eq_of_not_isControl (Bool.not_eq_true _ ▸ List.any_eq_false.1 h c hc)

/-- The strings that a quoting can hold: the basic ones hold any, the literal ones know no
escapes. -/
def Quoting.Fits : Quoting → List Char → Prop
  | .basic, _ => True
  | .literal, cs => ∀ c ∈ cs, isPlain c = true ∧ c ≠ '\''
  | .longBasic, _ => True
  | .longLiteral, cs => (∀ c ∈ cs, isPlain c = true ∨ c = '\n') ∧ longestRun '\'' 0 cs ≤ 2

theorem fits_choose (cs : List Char) : (Quoting.choose cs).Fits cs := by
  unfold Quoting.choose
  dsimp only
  split
  · trivial
  split
  · next hliteral =>
      simp only [Bool.and_eq_true, Bool.not_eq_true', decide_eq_true_eq, List.contains_eq_mem,
        decide_eq_false_iff_not] at hliteral
      obtain ⟨⟨hcontrol, hsingles⟩, hline⟩ := hliteral
      intro c hc
      constructor
      · rcases isPlain_or_eq_of_not_any hcontrol c hc with hplain | rfl
        · exact hplain
        · exact absurd hc hline
      · rintro rfl
        exact notMem_of_longestRun_eq_zero hsingles hc
  split
  · trivial
  split
  · next hliteral =>
      simp only [Bool.and_eq_true, Bool.not_eq_true', decide_eq_true_eq] at hliteral
      exact ⟨isPlain_or_eq_of_not_any hliteral.1, hliteral.2⟩
  split <;> trivial

/-! ## Strings -/

theorem exists_escapeBasic_cons (c : Char) (cs : List Char) :
    ∃ d tail, escapeBasic (c :: cs) = d :: tail ∧ d ≠ '"' := by
  rw [escapeBasic]
  split
  · exact ⟨_, _, rfl, by decide⟩
  split
  · exact ⟨_, _, rfl, by decide⟩
  · next hquote hline =>
      obtain ⟨d, piece, hpiece, hd, -, -⟩ := exists_escapeChar_eq_cons hquote hline
      exact ⟨d, piece ++ escapeBasic cs, by rw [hpiece, List.cons_append], hd⟩

theorem exists_escapeLong_cons {c : Char} (hline : c ≠ '\n') (cs : List Char) :
    ∃ d tail, escapeLong 0 (c :: cs) = d :: tail ∧ d ≠ '\n' ∧ d ≠ '\r' := by
  rw [escapeLong, if_neg hline]
  split
  · exact ⟨_, _, rfl, by decide⟩
  · next hquote =>
      obtain ⟨d, piece, hpiece, -, hd⟩ := exists_escapeChar_eq_cons hquote hline
      exact ⟨d, piece ++ escapeLong 0 cs, by rw [hpiece, List.cons_append], hd⟩

theorem read_basic (cs : List Char) (hrest : rest.head? ≠ some '"') :
    read (writeAs .basic cs ++ rest) = some (cs, rest) := by
  have htext : writeAs .basic cs ++ rest = '"' :: (escapeBasic cs ++ '"' :: rest) := by
    simp [writeAs]
  rw [htext, read, readShort, readBasic_escapeBasic]
  · intro tail h
    cases cs with
    | nil =>
        rw [escapeBasic, List.nil_append] at h
        cases h
        exact hrest rfl
    | cons c cs =>
        obtain ⟨d, front, hfront, hd⟩ := exists_escapeBasic_cons c cs
        rw [hfront] at h
        exact hd (List.cons.inj (List.cons.inj h).2).1
  · intro tail h
    cases h

theorem read_literal (h : Quoting.literal.Fits cs) (hrest : rest.head? ≠ some '\'') :
    read (writeAs .literal cs ++ rest) = some (cs, rest) := by
  have htext : writeAs .literal cs ++ rest = '\'' :: (cs ++ '\'' :: rest) := by simp [writeAs]
  rw [htext, read, readShort, readLiteral_append h]
  · intro tail h
    cases h
  · intro tail htail
    cases cs with
    | nil =>
        cases htail
        exact hrest rfl
    | cons c cs =>
        exact (h c List.mem_cons_self).2 (List.cons.inj (List.cons.inj htail).2).1

theorem read_longBasic (cs : List Char) (hrest : rest.head? ≠ some '"') :
    read (writeAs .longBasic cs ++ rest) = some (cs, rest) := by
  have htext : writeAs .longBasic cs ++ rest =
      '"' :: '"' :: '"' :: (opening cs ++ (escapeLong 0 cs ++ '"' :: '"' :: '"' :: rest)) := by
    simp [writeAs, tripleDouble]
  rw [htext, read, dropFirstLine_opening]
  · exact (longBody_escapeLong 0 cs).read_append readsLong_readLongBasic hrest
  · intro hline d hd
    cases cs with
    | nil =>
        cases hd
        decide
    | cons c cs =>
        have hc : c ≠ '\n' := fun hc ↦ hline (hc ▸ List.mem_cons_self)
        obtain ⟨d', tail, hfront, hd'⟩ := exists_escapeLong_cons hc cs
        rw [hfront] at hd
        cases hd
        exact hd'

theorem read_longLiteral (h : Quoting.longLiteral.Fits cs) (hrest : rest.head? ≠ some '\'') :
    read (writeAs .longLiteral cs ++ rest) = some (cs, rest) := by
  have htext : writeAs .longLiteral cs ++ rest =
      '\'' :: '\'' :: '\'' :: (opening cs ++ (cs ++ '\'' :: '\'' :: '\'' :: rest)) := by
    simp [writeAs, tripleSingle]
  rw [htext, read, dropFirstLine_opening]
  · exact (longBody_of_longestRun h.1 h.2).read_append readsLong_readLongLiteral hrest
  · intro hline c hc
    cases cs with
    | nil =>
        cases hc
        decide
    | cons d cs =>
        cases hc
        refine ⟨fun hd ↦ hline (hd ▸ List.mem_cons_self), ?_⟩
        rintro rfl
        rcases h.1 _ List.mem_cons_self with hplain | hplain <;> cases hplain

theorem read_write (cs : List Char) (hdouble : rest.head? ≠ some '"')
    (hsingle : rest.head? ≠ some '\'') : read (write cs ++ rest) = some (cs, rest) := by
  have hfits := fits_choose cs
  rw [write]
  cases hchoice : Quoting.choose cs with
  | basic => exact read_basic cs hdouble
  | literal => exact read_literal (hchoice ▸ hfits) hsingle
  | longBasic => exact read_longBasic cs hdouble
  | longLiteral => exact read_longLiteral (hchoice ▸ hfits) hsingle

end PipelineFusion.Toml
