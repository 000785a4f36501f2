import PipelineFusion.Proofs.Toml.Document
import PipelineFusion.Settings.Text

/-!
# Settings read back

The text of settings is a document of two sections, and each member is read back from its entry.  So
what is loaded from it are the settings, if they are valid: nothing else is refused.
-/

namespace PipelineFusion.Settings

open Toml (Entry IsName Item)

/-! ## Entries -/

section Entries

variable (key : String)

def naturalEntry (isName : IsName key) {n : Nat} (h : n < Nat.pow 2 64) : Entry where
  key := key
  text := naturalChars n
  item := .scalar (.integer n)
  isName := isName
  front := by
    obtain ⟨c, cs, hfront, hc⟩ := Decimal.exists_toDigits_eq_cons n
    have hbare : Toml.isBare c = true := by simp [Toml.isBare, Char.isAlphanum, hc]
    rw [naturalChars, hfront]
    exact endsRun_cons (Toml.isGap_of_isBare hbare) cs
  reads _ := Toml.readValue_toDigits h _

def booleanEntry (isName : IsName key) (b : Bool) : Entry where
  key := key
  text := booleanChars b
  item := .scalar (.boolean b)
  isName := isName
  front := by
    cases b with
    | true => exact endsRun_cons rfl _
    | false => exact endsRun_cons rfl _
  reads _ := Toml.readValue_boolean b _

def textEntry (isName : IsName key) (s : String) : Entry where
  key := key
  text := textChars s
  item := .text s
  isName := isName
  front := by
    obtain ⟨q, tail, hfront, hq⟩ := Toml.exists_write_eq_cons s.toList
    rw [textChars, hfront]
    rcases hq with rfl | rfl
    · exact endsRun_cons rfl tail
    · exact endsRun_cons rfl tail
  reads rest := Toml.readValue_write s (by simp) (by simp) _

theorem exists_listChars_eq_cons (ss : List String) : ∃ cs, listChars ss = '[' :: cs := by
  match ss with
  | [] => exact ⟨_, rfl⟩
  | [_] => exact ⟨_, rfl⟩
  | _ :: _ :: _ => exact ⟨_, rfl⟩

theorem readValue_listChars (ss : List String) (room : Nat) (rest : List Char) :
    Toml.readValue (room + 1) (listChars ss ++ rest) = some (.array (ss.map .text), rest) := by
  match ss with
  | [] => exact Toml.readValue_array_nil
  | [s] =>
      simpa [listChars, textChars] using Toml.readValue_array_singleton s
  | s :: s' :: ss =>
      simpa [listChars, textChars, Toml.entryLines] using
        Toml.readValue_array_entryLines (s :: s' :: ss)

def listEntry (isName : IsName key) (ss : List String) : Entry where
  key := key
  text := listChars ss
  item := .array (ss.map .text)
  isName := isName
  front := by
    obtain ⟨cs, hfront⟩ := exists_listChars_eq_cons ss
    rw [hfront]
    exact endsRun_cons rfl cs
  reads _ := readValue_listChars ss _ _

end Entries

/-! ## Sections -/

def optimizerSection (o : OptimizerSettings) (h : o.maxDepth < Nat.pow 2 64) : Toml.Section where
  name := "optimizer"
  entries := [
    naturalEntry "max_depth" (by decide) h,
    booleanEntry "enable_trace" (by decide) o.enableTrace,
    listEntry "disabled_rules" (by decide) o.disabledRules,
    listEntry "effect_patterns" (by decide) o.effectPatterns]
  isName := by decide
  nodup := by simp [naturalEntry, booleanEntry, listEntry]

def logSection (l : LogSettings) (hsize : l.maxFileSize < Nat.pow 2 64)
    (hfiles : l.maxFiles < Nat.pow 2 64) : Toml.Section where
  name := "log"
  entries := [
    textEntry "level" (by decide) l.level,
    textEntry "dir" (by decide) l.dir,
    textEntry "file" (by decide) l.file,
    naturalEntry "max_file_size" (by decide) hsize,
    naturalEntry "max_files" (by decide) hfiles]
  isName := by decide
  nodup := by simp [naturalEntry, textEntry]

variable {s : Settings}

theorem toChars_eq_document (hdepth : s.optimizer.maxDepth < Nat.pow 2 64)
    (hsize : s.log.maxFileSize < Nat.pow 2 64) (hfiles : s.log.maxFiles < Nat.pow 2 64) :
    s.toChars = (optimizerSection s.optimizer hdepth).document [logSection s.log hsize hfiles] := by
  have hoptimizer : "[optimizer]\n".toList = '[' :: ("optimizer".toList ++ [']', '\n']) := by decide
  have hlog : "\n[log]\n".toList = '\n' :: '[' :: ("log".toList ++ [']', '\n']) := by decide
  have hline : ∀ e : Entry, e.line = line e.key e.text := fun _ ↦ rfl
  unfold toChars
  rw [hoptimizer, hlog]
  simp only [Toml.Section.document, Toml.Section.text, optimizerSection, logSection, Entry.lines,
    hline, naturalEntry, booleanEntry, listEntry, textEntry, List.flatMap_cons, List.flatMap_nil,
    List.append_assoc, List.cons_append, List.nil_append, List.append_nil]

/-! ## Members -/

theorem natural?_natCast {n : Nat} (h : n < Nat.pow 2 64) :
    Item.natural? (.scalar (.integer n)) = some n := by
  have hbound : (0 : Int) ≤ n ∧ (n : Int) < Nat.pow 2 64 :=
    ⟨Int.natCast_nonneg n, Int.ofNat_lt.2 h⟩
  rw [Item.natural?, if_pos hbound, Int.toNat_natCast]

theorem texts?_map_text (ss : List String) : Item.texts? (.array (ss.map .text)) = some ss := by
  rw [Item.texts?]
  induction ss with
  | nil => rfl
  | cons s ss ih =>
      rw [List.map_cons, List.mapM_cons, ih]
      rfl

section Records

variable {a b c d e : Item}

theorem optimizer_ofItem? {o : OptimizerSettings} (ha : a.natural? = some o.maxDepth)
    (hb : b.boolean? = some o.enableTrace) (hc : c.texts? = some o.disabledRules)
    (hd : d.texts? = some o.effectPatterns) :
    OptimizerSettings.ofItem? (.table .header [
      ("max_depth", a), ("enable_trace", b), ("disabled_rules", c), ("effect_patterns", d)]) =
        some o := by
  show (do
    some (OptimizerSettings.mk (← a.natural?) (← b.boolean?) (← c.texts?) (← d.texts?))) = some o
  rw [ha, hb, hc, hd]
  rfl

theorem log_ofItem? {l : LogSettings} (ha : a.text? = some l.level) (hb : b.text? = some l.dir)
    (hc : c.text? = some l.file) (hd : d.natural? = some l.maxFileSize)
    (he : e.natural? = some l.maxFiles) :
    LogSettings.ofItem? (.table .header [
      ("level", a), ("dir", b), ("file", c), ("max_file_size", d), ("max_files", e)]) = some l := by
  show (do
    some (LogSettings.mk (← a.text?) (← b.text?) (← c.text?) (← d.natural?) (← e.natural?))) =
      some l
  rw [ha, hb, hc, hd, he]
  rfl

theorem ofFields?_pair (ha : OptimizerSettings.ofItem? a = some s.optimizer)
    (hb : LogSettings.ofItem? b = some s.log) :
    ofFields? [("optimizer", a), ("log", b)] = some s := by
  show (do
    some (Settings.mk (← OptimizerSettings.ofItem? a) (← LogSettings.ofItem? b))) = some s
  rw [ha, hb]
  rfl

end Records

/-! ## Loading -/

theorem load_toUTF8 (text : String) : load (some text.toUTF8) = ofText text := by
  have hbytes : String.fromUTF8? text.toUTF8 = some text := dif_pos text.isValidUTF8
  rw [load, hbytes]

theorem ofText_ofList {cs : List Char} {t : Toml.Fields} (hread : Toml.readDocument cs = some t)
    (hfields : ofFields? t = some s) : ofText (String.ofList cs) = s.validate := by
  rw [ofText, String.toList_ofList, hread, Option.bind_some, hfields]

/-- Loading the text of settings comes down to validating them. -/
theorem load_toText (hdepth : s.optimizer.maxDepth < Nat.pow 2 64)
    (hsize : s.log.maxFileSize < Nat.pow 2 64) (hfiles : s.log.maxFiles < Nat.pow 2 64) :
    load (some s.toText.toUTF8) = s.validate := by
  have hread : Toml.readDocument s.toChars = some
      [(optimizerSection s.optimizer hdepth).field, (logSection s.log hsize hfiles).field] := by
    rw [toChars_eq_document hdepth hsize hfiles]
    exact Toml.Section.readDocument_document _ _ (by simp [optimizerSection, logSection])
  have hoptimizer : OptimizerSettings.ofItem? (optimizerSection s.optimizer hdepth).field.2 =
      some s.optimizer :=
    optimizer_ofItem? (natural?_natCast hdepth) rfl (texts?_map_text _) (texts?_map_text _)
  have hlog : LogSettings.ofItem? (logSection s.log hsize hfiles).field.2 = some s.log :=
    log_ofItem? rfl rfl rfl (natural?_natCast hsize) (natural?_natCast hfiles)
  rw [load_toUTF8, toText]
  exact ofText_ofList hread (ofFields?_pair hoptimizer hlog)

theorem validate_eq_ok (h : 0 < s.log.maxFiles ∧ 0 < s.log.maxFileSize) : s.validate = .ok s := by
  rw [validate, if_neg (Nat.ne_of_gt h.1), if_neg (Nat.ne_of_gt h.2)]

theorem exists_validate_eq_error (h : ¬ (0 < s.log.maxFiles ∧ 0 < s.log.maxFileSize)) :
    ∃ reason, s.validate = .error (.config reason) := by
  rw [validate]
  split
  · exact ⟨_, rfl⟩
  · rw [if_pos (by omega)]
    exact ⟨_, rfl⟩

/-- What is loaded from the text of settings are the settings, unless the log has no files or no
room in them. -/
theorem load_round_trip (hdepth : s.optimizer.maxDepth < Nat.pow 2 64)
    (hsize : s.log.maxFileSize < Nat.pow 2 64) (hfiles : s.log.maxFiles < Nat.pow 2 64) :
    (0 < s.log.maxFiles ∧ 0 < s.log.maxFileSize → load (some s.toText.toUTF8) = .ok s) ∧
    (¬ (0 < s.log.maxFiles ∧ 0 < s.log.maxFileSize) →
      ∃ reason, load (some s.toText.toUTF8) = .error (.config reason)) := by
  rw [load_toText hdepth hsize hfiles]
  exact ⟨validate_eq_ok, exists_validate_eq_error⟩

/-- Strings that need each of the quotings, in lists of one entry and of two. -/
def quoted : Settings where
  optimizer :=
    { maxDepth := 9223372036854775807
      enableTrace := true
      disabledRules := ["it's \"quoted\" \\ twice"]
      effectPatterns := ["", "\"\"\"\n\'\'\'\x01\r\t"] }
  log := { level := "C:\\日志", dir := "two\nlines", file := "" }

theorem load_round_trip_quoted :
    load (some quoted.toText.toUTF8) = .ok quoted ∧
    ∃ reason, load (some (toText { quoted with log.maxFiles := 0 }).toUTF8) =
      .error (.config reason) := by
  have hvalid := load_round_trip (s := quoted) (by decide) (by decide) (by decide)
  have hinvalid := load_round_trip (s := { quoted with log.maxFiles := 0 })
    (by decide) (by decide) (by decide)
  exact ⟨hvalid.1 (by decide), hinvalid.2 (by decide)⟩

end PipelineFusion.Settings
