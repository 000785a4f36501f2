import PipelineFusion.Proofs.Toml.Value

/-!
# Reading TOML documents back

A document that is written section by section, a header and then its entries on lines of their own,
is read back as one table for each section, with the entries in their order.
-/

namespace PipelineFusion.Toml

/-! ## Tables -/

namespace Fields

variable {key : String} {t : Fields}

theorem get?_eq_none_iff : t.get? key = none ↔ key ∉ t.map Prod.fst := by
  rw [get?, List.lookup_eq_none_iff, List.mem_map, not_exists]
  refine forall_congr' fun p ↦ ?_
  rw [not_and, bne_iff_ne]
  exact ⟨fun h hp heq ↦ h hp heq.symm, fun h hp heq ↦ h hp heq.symm⟩

theorem get?_append_singleton (h : t.get? key = none) (item : Item) :
    Fields.get? key (t ++ [(key, item)]) = some item := by
  rw [get?] at h ⊢
  rw [List.lookup_append, h, List.lookup_cons_self]
  rfl

/-- A key that is not there goes to the end. -/
theorem set_eq_append (h : t.get? key = none) (item : Item) :
    t.set key item = t ++ [(key, item)] := by
  induction t with
  | nil => rfl
  | cons p t ih =>
      have hkeys := get?_eq_none_iff.1 h
      rw [List.map_cons, List.mem_cons, not_or] at hkeys
      rw [set, if_neg (Ne.symm hkeys.1), ih (get?_eq_none_iff.2 hkeys.2), List.cons_append]

theorem set_append_singleton (h : t.get? key = none) (item item' : Item) :
    Fields.set key item' (t ++ [(key, item)]) = t ++ [(key, item')] := by
  induction t with
  | nil => exact if_pos rfl
  | cons p t ih =>
      have hkeys := get?_eq_none_iff.1 h
      rw [List.map_cons, List.mem_cons, not_or] at hkeys
      rw [List.cons_append, set, if_neg (Ne.symm hkeys.1), ih (get?_eq_none_iff.2 hkeys.2),
        List.cons_append]

theorem assign_eq_append (h : t.get? key = none) (item : Item) :
    t.assign [] key item = some (t ++ [(key, item)]) := by
  rw [assign, alter, List.isEmpty_nil, if_neg Bool.false_ne_true, h, set_eq_append h]
  rfl

theorem openTable_eq_append (h : t.get? key = none) :
    t.openTable [] key = some (t ++ [(key, .table .header [])]) := by
  rw [openTable, alter, h]
  exact congrArg some (set_eq_append h _)

/-- The table that was opened last takes the change. -/
theorem alter_append_singleton (h : t.get? key = none) (change : Bool → Fields → Option Fields)
    (u : Fields) :
    Fields.alter false change [key] false (t ++ [(key, .table .header u)]) =
      (change false u).map fun v ↦ t ++ [(key, .table .header v)] := by
  rw [alter, get?_append_singleton h]
  simp only [set_append_singleton h]
  rfl

end Fields

/-! ## Keys -/

/-- A key that is written without quotes. -/
def IsName (key : String) : Prop := key.toList ≠ [] ∧ key.toList.all isBare = true

instance (key : String) : Decidable (IsName key) := inferInstanceAs (Decidable (_ ∧ _))

section Keys

variable {key : String} {rest : List Char}

theorem ne_of_isBare {c d : Char} (hc : isBare c = true) (hd : isBare d = false) : c ≠ d := by
  rintro rfl
  rw [hc] at hd
  cases hd

theorem isGap_of_isBare {c : Char} (hc : isBare c = true) : isGap c = false := by
  simp [isGap, ne_of_isBare hc (d := ' ') rfl, ne_of_isBare hc (d := '\t') rfl]

theorem IsName.exists_eq_cons (h : IsName key) :
    ∃ c cs, key.toList = c :: cs ∧ isBare c = true := by
  obtain ⟨c, cs, hfront⟩ := List.exists_cons_of_ne_nil h.1
  exact ⟨c, cs, hfront, List.all_eq_true.1 h.2 c (hfront ▸ List.mem_cons_self)⟩

theorem readName_append (h : IsName key) (hrest : EndsRun isBare rest) :
    readName (key.toList ++ rest) = some (key, rest) := by
  obtain ⟨c, cs, hfront, hc⟩ := h.exists_eq_cons
  have htake := takeWhile_append_of_endsRun (List.all_eq_true.1 h.2) hrest
  have hdrop := dropWhile_append_of_endsRun (List.all_eq_true.1 h.2) hrest
  have hname : key.toList.isEmpty = false := by rw [hfront]; rfl
  have hquote : ∀ q, isBare q = false → ∀ tail, key.toList ++ rest ≠ q :: tail := by
    rintro q hq tail heq
    rw [hfront] at heq
    exact ne_of_isBare hc hq (List.cons.inj heq).1
  rw [readName.eq_3 _ (hquote '"' rfl) (hquote '\'' rfl), htake, hdrop, hname,
    if_neg Bool.false_ne_true, String.ofList_toList]

theorem readKey_append (h : IsName key) (hrest : EndsRun isBare rest)
    (hdot : (dropGaps rest).head? ≠ some '.') :
    readKey (key.toList ++ rest).length (key.toList ++ rest) =
      some (([], key), dropGaps rest) := by
  obtain ⟨c, cs, hfront, hc⟩ := h.exists_eq_cons
  have hgaps : dropGaps (key.toList ++ rest) = key.toList ++ rest := by
    rw [hfront, List.cons_append, dropGaps, List.dropWhile_cons, isGap_of_isBare hc,
      if_neg Bool.false_ne_true]
  obtain ⟨bound, hbound⟩ : ∃ bound, (key.toList ++ rest).length = bound + 1 :=
    ⟨_, by rw [hfront]; rfl⟩
  rw [hbound, readKey, hgaps, readName_append h hrest, Option.bind_eq_bind, Option.bind_some]
  dsimp only
  split
  case h_1 cs heq => exact absurd (congrArg List.head? heq) hdot
  case h_2 => rfl

end Keys

/-! ## Lines -/

/-- Enough room for one line a character gives this table. -/
def Completes (p : Progress) (cs : List Char) (t : Fields) : Prop :=
  ∀ bound, cs.length < bound → readLines bound p cs = some t

section Lines

variable {p p' : Progress} {cs rest : List Char} {t : Fields}

theorem completes_nil (p : Progress) : Completes p [] p.root := by
  intro bound hbound
  obtain ⟨bound, rfl⟩ := Nat.exists_eq_add_one_of_ne_zero (Nat.ne_zero_of_lt hbound)
  rfl

theorem Completes.newline (h : Completes p cs t) : Completes p ('\n' :: cs) t := by
  intro bound hbound
  obtain ⟨bound, rfl⟩ := Nat.exists_eq_add_one_of_ne_zero (Nat.ne_zero_of_lt hbound)
  exact h bound (Nat.lt_of_succ_lt_succ hbound)

/-- A line that starts with a name or a bracket is a statement. -/
theorem Completes.statement {c : Char} (hc : isBare c = true ∨ c = '[')
    (h : readStatement p (c :: cs) = some (p', rest)) (hlength : rest.length ≤ cs.length)
    (hrest : Completes p' rest t) : Completes p (c :: cs) t := by
  have hne : ∀ d, isBare d = false → d ≠ '[' → c ≠ d := by
    rintro d hd hbracket rfl
    exact hc.elim (fun hc ↦ ne_of_isBare hc hd rfl) hbracket
  have hgap : isGap c = false := by
    simp [isGap, hne ' ' rfl (by decide), hne '\t' rfl (by decide)]
  intro bound hbound
  obtain ⟨bound, rfl⟩ := Nat.exists_eq_add_one_of_ne_zero (Nat.ne_zero_of_lt hbound)
  have hrest' := hrest bound (Nat.lt_of_le_of_lt hlength (Nat.lt_of_succ_lt_succ hbound))
  rw [readLines, dropGaps, List.dropWhile_cons, hgap, if_neg Bool.false_ne_true]
  simp [hne '\n' rfl (by decide), hne '#' rfl (by decide), hne '\r' rfl (by decide), h, hrest']

end Lines

/-! ## Entries -/

/-- A name and the text of a value, which is read back as the item. -/
structure Entry where
  key : String
  text : List Char
  item : Item
  isName : IsName key
  front : EndsRun isGap text
  reads : ∀ rest, readValue nestingLimit (text ++ '\n' :: rest) = some (item, '\n' :: rest)

namespace Entry

def line (e : Entry) : List Char := e.key.toList ++ " = ".toList ++ e.text ++ ['\n']

def lines (es : List Entry) : List Char := es.flatMap line

def fields (es : List Entry) : Fields := es.map fun e ↦ (e.key, e.item)

variable {e : Entry} {es : List Entry} {rest : List Char}

theorem readAssignment_line (e : Entry) (rest : List Char) :
    readAssignment (readValue nestingLimit) (e.line ++ rest) =
      some (([], e.key), e.item, '\n' :: rest) := by
  have hline : e.line ++ rest =
      e.key.toList ++ (' ' :: '=' :: ' ' :: (e.text ++ '\n' :: rest)) := by
    simp [line]
  have hgaps : dropGaps (' ' :: (e.text ++ '\n' :: rest)) = e.text ++ '\n' :: rest := by
    have hfront := e.front
    show dropGaps (e.text ++ '\n' :: rest) = e.text ++ '\n' :: rest
    cases htext : e.text with
    | nil => rfl
    | cons c cs =>
        rw [htext] at hfront
        rw [List.cons_append, dropGaps, List.dropWhile_cons, hfront c rfl,
          if_neg Bool.false_ne_true]
  rw [readAssignment, hline, readKey_append e.isName (endsRun_cons rfl _) (by rintro ⟨⟩)]
  show (readValue nestingLimit (dropGaps (' ' :: (e.text ++ '\n' :: rest)))).bind _ = _
  rw [hgaps, e.reads]
  rfl

variable {front u t : Fields} {name : String}

/-- An entry goes to the table that was opened last. -/
theorem readStatement_line (e : Entry) (hname : front.get? name = none)
    (hkey : u.get? e.key = none) (rest : List Char) :
    readStatement ⟨front ++ [(name, .table .header u)], [name]⟩ (e.line ++ rest) =
      some (⟨front ++ [(name, .table .header (u ++ [(e.key, e.item)]))], [name]⟩, rest) := by
  obtain ⟨c, cs, hfront, hc⟩ := e.isName.exists_eq_cons
  have hline : e.line ++ rest = c :: (cs ++ " = ".toList ++ e.text ++ '\n' :: rest) := by
    simp [line, hfront]
  have hbracket : c ≠ '[' := ne_of_isBare hc rfl
  have hread := readAssignment_line e rest
  rw [hline] at hread ⊢
  rw [readStatement.eq_3 _ _ (by simp [hbracket]) (by simp [hbracket]), hread, Option.bind_eq_bind,
    Option.bind_some]
  dsimp only
  rw [Fields.alter_append_singleton hname, Fields.assign_eq_append hkey]
  rfl

/-- The induction is on the entries, while the table they go to grows. -/
theorem completes_lines (hname : front.get? name = none)
    (hkeys : (u.map Prod.fst ++ es.map key).Nodup)
    (h : Completes ⟨front ++ [(name, .table .header (u ++ fields es))], [name]⟩ rest t) :
    Completes ⟨front ++ [(name, .table .header u)], [name]⟩ (lines es ++ rest) t := by
  induction es generalizing u with
  | nil =>
      rw [fields, List.map_nil, List.append_nil] at h
      exact h
  | cons e es ih =>
      obtain ⟨c, cs, hfront, hc⟩ := e.isName.exists_eq_cons
      have hkey : u.get? e.key = none := by
        refine Fields.get?_eq_none_iff.2 fun hmem ↦ ?_
        exact (List.nodup_append.1 hkeys).2.2 _ hmem _ List.mem_cons_self rfl
      have hline : lines (e :: es) ++ rest =
          c :: (cs ++ " = ".toList ++ e.text ++ '\n' :: (lines es ++ rest)) := by
        simp [lines, line, hfront]
      have hread := readStatement_line e hname hkey (lines es ++ rest)
      have hrest := ih (u := u ++ [(e.key, e.item)])
        (by simpa using hkeys) (by simpa [fields] using h)
      rw [← List.append_assoc, ← show lines (e :: es) = e.line ++ lines es from rfl, hline] at hread
      rw [hline]
      refine Completes.statement (Or.inl hc) hread ?_ hrest
      simp only [List.length_append, List.length_cons]
      omega

end Entry

/-! ## Sections -/

structure Section where
  name : String
  entries : List Entry
  isName : IsName name
  nodup : (entries.map Entry.key).Nodup

namespace Section

def text (s : Section) : List Char :=
  '[' :: (s.name.toList ++ [']', '\n']) ++ Entry.lines s.entries

def field (s : Section) : String × Item := (s.name, .table .header (Entry.fields s.entries))

variable {front t : Fields} {path : List String} {rest : List Char}

theorem completes_text (s : Section) (hname : front.get? s.name = none)
    (h : Completes ⟨front ++ [s.field], [s.name]⟩ rest t) :
    Completes ⟨front, path⟩ (s.text ++ rest) t := by
  have htext : s.text ++ rest =
      '[' :: (s.name.toList ++ ']' :: '\n' :: (Entry.lines s.entries ++ rest)) := by
    simp [text]
  obtain ⟨c, cs, hfront, hc⟩ := s.isName.exists_eq_cons
  have hopen : readStatement ⟨front, path⟩ (s.text ++ rest) =
      some (⟨front ++ [(s.name, .table .header [])], [s.name]⟩, Entry.lines s.entries ++ rest) := by
    rw [htext, readStatement.eq_2 _ _ (by simp [hfront, ne_of_isBare hc (d := '[') rfl]),
      readHeader, readKey_append s.isName (endsRun_cons rfl _) (by rintro ⟨⟩)]
    show ((front.openTable [] s.name).bind _) = _
    rw [Fields.openTable_eq_append hname]
    rfl
  rw [htext] at hopen ⊢
  refine Completes.statement (Or.inr rfl) hopen ?_ ?_
  · simp only [List.length_append, List.length_cons]
    omega
  · exact Entry.completes_lines hname (by simpa using s.nodup) h

/-- Each section behind the first one follows on an empty line. -/
def document (first : Section) (others : List Section) : List Char :=
  first.text ++ others.flatMap fun s ↦ '\n' :: s.text

theorem completes_others (others : List Section)
    (hnames : (front.map Prod.fst ++ others.map name).Nodup) :
    Completes ⟨front, path⟩ (others.flatMap fun s ↦ '\n' :: s.text)
      (front ++ others.map field) := by
  induction others generalizing front path with
  | nil => simpa using completes_nil ⟨front, path⟩
  | cons s others ih =>
      have hname : front.get? s.name = none := by
        refine Fields.get?_eq_none_iff.2 fun hmem ↦ ?_
        exact (List.nodup_append.1 hnames).2.2 _ hmem _ List.mem_cons_self rfl
      have hnames' : ((front ++ [s.field]).map Prod.fst ++ others.map name).Nodup := by
        simpa [field] using hnames
      rw [List.map_cons, List.append_cons]
      exact (s.completes_text hname (ih hnames')).newline

theorem readDocument_document (first : Section) (others : List Section)
    (hnames : ((first :: others).map name).Nodup) :
    readDocument (document first others) = some ((first :: others).map field) := by
  have hall : Completes {} (document first others) ([first.field] ++ others.map field) :=
    first.completes_text rfl (completes_others others hnames)
  exact hall _ (Nat.lt_succ_self _)

end Section

end PipelineFusion.Toml
