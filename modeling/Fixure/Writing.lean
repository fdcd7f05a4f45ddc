import Fixure.Rejection

/-!
# Written scripts

A script is written line by line: steps, blank lines and comments. A step is the name of
its action and its fields between pipes, with any blanks around whatever is written; only
the blanks between an action and its fields have to begin with a space or a tab. Every
script written so is read back.
-/

namespace Fixure
open Search Decimal Pieces

def isBlank (b : UInt8) : Bool := b = 32 || b = 9 || b = 13

def Blanks (text : Bytes) : Prop := ∀ b ∈ text, isBlank b = true

instance (text : Bytes) : Decidable (Blanks text) :=
  inferInstanceAs (Decidable (∀ b ∈ text, isBlank b = true))

/-- A field and how it is written: its tag in decimal, and the blanks around the tag and the
value. -/
structure WrittenField where
  field : Field
  tagText : Bytes
  beforeTag : Bytes := []
  afterTag : Bytes := []
  beforeValue : Bytes := []
  afterValue : Bytes := []
  spells : Spells tagText field.tag.toInt
  beforeTag_blanks : Blanks beforeTag := by decide +kernel
  afterTag_blanks : Blanks afterTag := by decide +kernel
  beforeValue_blanks : Blanks beforeValue := by decide +kernel
  afterValue_blanks : Blanks afterValue := by decide +kernel
  free : pipe ∉ field.value ∧ soh ∉ field.value ∧ lf ∉ field.value
  head_solid : ∀ b ∈ field.value.head?, isBlank b = false
  last_solid : ∀ b ∈ field.value.getLast?, isBlank b = false

def WrittenField.text (w : WrittenField) : Bytes :=
  (w.beforeTag ++ (w.tagText ++ w.afterTag)) ++
    equals :: (w.beforeValue ++ (w.field.value ++ w.afterValue))

structure WrittenStep where
  type : ActionType
  fields : List WrittenField
  indent : Bytes := []
  gap : Bytes := []
  trail : Bytes := []
  indent_blanks : Blanks indent
  gap_blanks : Blanks gap
  trail_blanks : Blanks trail
  gap_ne : fields ≠ [] → gap ≠ []

namespace WrittenStep

def step (w : WrittenStep) : ScenarioStep := ⟨w.type, w.fields.map WrittenField.field⟩

def fieldsText (w : WrittenStep) : Bytes :=
  if w.fields.isEmpty then [] else w.gap ++ [pipe].intercalate (w.fields.map WrittenField.text)

def text (w : WrittenStep) : Bytes :=
  w.indent ++ (w.type.toString ++ (w.fieldsText ++ w.trail))

end WrittenStep

inductive WrittenLine
  | step (w : WrittenStep)
  | blank (text : Bytes) (h : Blanks text)
  | comment (indent text : Bytes) (h : Blanks indent) (hend : lf ∉ text)

namespace WrittenLine

def text : WrittenLine → Bytes
  | .step w => w.text
  | .blank text _ => text
  | .comment indent text _ _ => indent ++ 35 :: text

def step? : WrittenLine → Option ScenarioStep
  | .step w => some w.step
  | .blank _ _ => none
  | .comment _ _ _ _ => none

end WrittenLine

/-- The lines with a line feed between them, and behind the last one if that one is empty. -/
def scriptText (script : List WrittenLine) : Bytes :=
  [lf].intercalate (script.map WrittenLine.text)

/-! ### Fields -/

theorem isSpace_of_isBlank {b : UInt8} (h : isBlank b = true) : isSpace b = true := by
  simp only [isBlank, Bool.or_eq_true, decide_eq_true_eq] at h
  rcases h with (rfl | rfl) | rfl
  · decide
  · decide
  · decide

theorem isSpace_eq_false {b : UInt8} (h : isBlank b = false) (hlf : b ≠ lf) : isSpace b = false := by
  have hne : b ≠ 10 := hlf
  simp only [isBlank, Bool.or_eq_false_iff, decide_eq_false_iff_not] at h
  simp [isSpace, h, hne]

theorem Blanks.notMem {text : Bytes} (h : Blanks text) {c : UInt8} (hc : isBlank c = false) :
    c ∉ text := by
  intro hmem
  rw [h c hmem] at hc
  cases hc

theorem trimSpace_blanks {a b : Bytes} (ha : Blanks a) (hb : Blanks b) (text : Bytes) :
    trimSpace (a ++ (text ++ b)) = trimSpace text :=
  trim_append (fun x hx => isSpace_of_isBlank (ha x hx)) (fun x hx => isSpace_of_isBlank (hb x hx)) _

theorem trimSpace_literal {lit : Bytes} {n : ℤ} (h : Spells lit n) : trimSpace lit = lit := by
  have hsolid : ∀ b ∈ lit, isSpace b = false := by
    intro b hb
    rcases h.mem hb with rfl | hdigit
    · decide
    · rw [isDigit, decide_eq_true_eq] at hdigit
      have hne (c : UInt8) (hc : c.toNat < 48) : b ≠ c := by
        rintro rfl
        omega
      simp [isSpace, hne 32 (by decide), hne 9 (by decide), hne 13 (by decide), hne 10 (by decide)]
  apply trim_eq_self
  · exact fun b hb => hsolid b (List.mem_of_mem_head? hb)
  · exact fun b hb => hsolid b (List.mem_of_mem_getLast? hb)

namespace WrittenField

theorem notMem_text {w : WrittenField} {c : UInt8} (hblank : isBlank c = false) (hminus : c ≠ minus)
    (hdigit : isDigit c = false) (hequals : c ≠ equals) (hvalue : c ∉ w.field.value) :
    c ∉ w.text := by
  have htag : c ∉ w.tagText := by
    intro h
    rcases w.spells.mem h with h | h
    · exact hminus h
    · rw [h] at hdigit
      cases hdigit
  simp [text, w.beforeTag_blanks.notMem hblank, w.afterTag_blanks.notMem hblank,
    w.beforeValue_blanks.notMem hblank, w.afterValue_blanks.notMem hblank, htag, hequals, hvalue]

theorem readField_text (w : WrittenField) (lineNum : ℕ) :
    readField lineNum w.text = .ok (some w.field) := by
  have hequals : isBlank equals = false := by decide
  have hfree : equals ∉ w.beforeTag ++ (w.tagText ++ w.afterTag) := by
    simp [w.beforeTag_blanks.notMem hequals, w.afterTag_blanks.notMem hequals,
      equals_notMem_of_spells w.spells]
  have htag : trimSpace (w.beforeTag ++ (w.tagText ++ w.afterTag)) = w.tagText := by
    rw [trimSpace_blanks w.beforeTag_blanks w.afterTag_blanks, trimSpace_literal w.spells]
  have hends (b : UInt8) (hb : b ∈ w.field.value) (hsolid : isBlank b = false) :
      isSpace b = false := by
    apply isSpace_eq_false hsolid
    rintro rfl
    exact w.free.2.2 hb
  have hvalue : trimSpace (w.beforeValue ++ (w.field.value ++ w.afterValue)) = w.field.value := by
    rw [trimSpace_blanks w.beforeValue_blanks w.afterValue_blanks]
    apply trim_eq_self
    · exact fun b hb => hends b (List.mem_of_mem_head? hb) (w.head_solid b hb)
    · exact fun b hb => hends b (List.mem_of_mem_getLast? hb) (w.last_solid b hb)
  have hlead : Leads (trimSpace (w.beforeTag ++ (w.tagText ++ w.afterTag))) w.field.tag.toInt := by
    rw [htag]
    exact w.spells.leads
  rw [text, readField_value hfree hlead, hvalue]

end WrittenField

/-! ### Lines -/

theorem notMem_intercalate {c d : UInt8} (hne : c ≠ d) {texts : List Bytes}
    (h : ∀ text ∈ texts, c ∉ text) : c ∉ [d].intercalate texts := by
  induction texts with
  | nil => simp
  | cons text texts ih =>
    rw [List.forall_mem_cons] at h
    cases texts with
    | nil => simpa using h.1
    | cons text' texts =>
      rw [List.intercalate_cons_cons]
      simp [h.1, hne, ih h.2]

theorem parseFields_joined (lineNum : ℕ) {fields : List WrittenField} (hne : fields ≠ []) :
    parseFields lineNum ([pipe].intercalate (fields.map WrittenField.text)) =
      .ok (fields.map WrittenField.field) := by
  have hpipe : ∀ text ∈ fields.map WrittenField.text, pipe ∉ text := by
    intro text htext
    obtain ⟨w, _, rfl⟩ := List.mem_map.mp htext
    exact w.notMem_text (by decide) (by decide) (by decide) (by decide) w.free.1
  have hsoh : ∀ text ∈ fields.map WrittenField.text, soh ∉ text := by
    intro text htext
    obtain ⟨w, _, rfl⟩ := List.mem_map.mp htext
    exact w.notMem_text (by decide) (by decide) (by decide) (by decide) w.free.2.1
  have hsome : fields.filterMap (fun w => some w.field) = fields.map WrittenField.field := by
    rw [← List.filterMap_eq_map]
    rfl
  rw [parseFields_eq, tokens_eq_splitOn (notMem_intercalate (by decide) hsoh),
    List.splitOn_intercalate pipe hpipe (by simpa using hne),
    collect_map (fun w _ _ => w.readField_text lineNum), hsome]

namespace WrittenStep

theorem parseLine_text (w : WrittenStep) (hgap : w.fields ≠ [] → ∀ b ∈ w.gap.head?, isGap b = true)
    (lineNum : ℕ) : parseLine lineNum w.text = .ok (some w.step) := by
  have hspace {text : Bytes} (h : Blanks text) : ∀ b ∈ text, isSpace b = true :=
    fun b hb => isSpace_of_isBlank (h b hb)
  rw [text, fieldsText]
  by_cases hne : w.fields = []
  · have htrail : w.trail.rdropWhile isSpace = [] :=
      List.rdropWhile_eq_nil_iff.mpr (hspace w.trail_blanks)
    have hblank : trimSpace w.trail = [] := trim_eq_nil_iff.mpr (hspace w.trail_blanks)
    rw [if_pos (by simpa using hne), List.nil_append,
      parseLine_action w.type (hspace w.indent_blanks) (by simp [htrail]), ← parseFields_trim,
      hblank]
    simp [WrittenStep.step, hne, parseFields, scan, Except.map]
  · obtain ⟨b, gap, hb⟩ := List.exists_cons_of_ne_nil (w.gap_ne hne)
    have hhead : isGap b = true := hgap hne b (by simp [hb])
    rw [if_neg (by simpa using hne), List.append_assoc, parseLine_action w.type
      (hspace w.indent_blanks), parseFields_pad (hspace w.gap_blanks) (hspace w.trail_blanks),
      parseFields_joined lineNum hne]
    · rfl
    · apply head?_rdropWhile
      simp [hb, hhead]

theorem lf_notMem_text (w : WrittenStep) : lf ∉ w.text := by
  have hblank : isBlank lf = false := by decide
  have htype : lf ∉ w.type.toString := by
    cases w.type <;> decide +kernel
  have hfields : lf ∉ w.fieldsText := by
    rw [fieldsText]
    split_ifs
    · exact List.not_mem_nil
    · rw [List.mem_append, not_or]
      refine ⟨w.gap_blanks.notMem hblank, notMem_intercalate (by decide) ?_⟩
      intro text htext
      obtain ⟨f, _, rfl⟩ := List.mem_map.mp htext
      exact f.notMem_text (by decide) (by decide) (by decide) (by decide) f.free.2.2
  simp [text, w.indent_blanks.notMem hblank, w.trail_blanks.notMem hblank, htype, hfields]

end WrittenStep

theorem parseLine_blank {text : Bytes} (h : Blanks text) (lineNum : ℕ) :
    parseLine lineNum text = .ok none := by
  apply parseLine_skip
  intro hstep
  exact hstep.1 (trim_eq_nil_iff.mpr fun b hb => isSpace_of_isBlank (h b hb))

theorem parseLine_comment {indent : Bytes} (h : Blanks indent) (text : Bytes) (lineNum : ℕ) :
    parseLine lineNum (indent ++ 35 :: text) = .ok none := by
  apply parseLine_skip
  intro hstep
  have hindent : indent.dropWhile isSpace = [] :=
    List.dropWhile_eq_nil_iff.mpr fun b hb => isSpace_of_isBlank (h b hb)
  have htrim : trimSpace (indent ++ 35 :: text) = 35 :: text.rdropWhile isSpace := by
    rw [trimSpace, trim_append_cons (by decide), hindent, List.nil_append]
  apply hstep.2
  rw [htrim]
  exact ⟨_, rfl⟩

theorem WrittenLine.lf_notMem_text (line : WrittenLine) : lf ∉ line.text := by
  have hblank : isBlank lf = false := by decide
  cases line with
  | step w => exact w.lf_notMem_text
  | blank text h => exact h.notMem hblank
  | comment indent text h hend =>
    have hmark : lf ≠ 35 := by decide
    simp [WrittenLine.text, h.notMem hblank, hend, hmark]

/-! ### Scripts -/

/-- A written script is read back, if the blanks between an action and its fields begin with
a space or a tab. -/
theorem parseDsl_scriptText {script : List WrittenLine}
    (hgap : ∀ w, .step w ∈ script → w.fields ≠ [] → ∀ b ∈ w.gap.head?, isGap b = true) :
    Scenario.parseDsl (scriptText script) =
      .ok ⟨ascii "ParsedScenario", script.filterMap WrittenLine.step?⟩ := by
  have hread : ∀ line ∈ script, ∀ n, parseLine n line.text = .ok line.step? := by
    intro line hmem n
    cases line with
    | step w => exact w.parseLine_text (hgap w hmem) n
    | blank text h => exact parseLine_blank h n
    | comment indent text h hend => exact parseLine_comment h text n
  rw [parseDsl_eq]
  by_cases hne : script = []
  · subst hne
    rfl
  · have hfree : ∀ text ∈ script.map WrittenLine.text, lf ∉ text := by
      intro text htext
      obtain ⟨line, _, rfl⟩ := List.mem_map.mp htext
      exact line.lf_notMem_text
    rw [lines, scriptText, List.splitOn_intercalate lf hfree (by simpa using hne),
      collect_map hread]
    rfl

/-- `35 = A`, and a value with a `=` and a `#` in it. -/
def msgTypeField : WrittenField where
  field := ⟨35, ascii "A"⟩
  tagText := ascii "35"
  afterTag := ascii " "
  beforeValue := ascii "\t"
  spells := spells_intNumeral 35
  free := by decide +kernel
  head_solid := by decide +kernel
  last_solid := by decide +kernel

def textField : WrittenField where
  field := ⟨58, ascii "a = #b"⟩
  tagText := ascii "058"
  beforeTag := ascii " "
  spells := ⟨ascii "058", by decide +kernel⟩
  free := by decide +kernel
  head_solid := by decide +kernel
  last_solid := by decide +kernel

/-- A step whose blanks `gap` stand between the action and its fields. -/
def writtenSend (gap : Bytes) (hgap : Blanks gap) (hne : gap ≠ []) : WrittenStep where
  type := .send
  fields := [msgTypeField, textField]
  gap := gap
  trail := ascii "\r"
  indent_blanks := by decide +kernel
  gap_blanks := hgap
  trail_blanks := by decide +kernel
  gap_ne := fun _ => hne

def logonScript : List WrittenLine :=
  [.comment [] (ascii " logon") (by decide +kernel) (by decide +kernel),
    .blank (ascii "\r") (by decide +kernel),
    .step (writtenSend (ascii " \t") (by decide +kernel) (by decide +kernel))]

theorem parseDsl_scriptText_logon :
    Scenario.parseDsl (ascii "# logon\n\r\nSEND \t35 =\tA| 058=a = #b\r") =
      .ok ⟨ascii "ParsedScenario", [⟨.send, [⟨35, ascii "A"⟩, ⟨58, ascii "a = #b"⟩]⟩]⟩ := by
  have hgap : ∀ w, .step w ∈ logonScript → w.fields ≠ [] → ∀ b ∈ w.gap.head?, isGap b = true := by
    intro w hw _
    simp only [logonScript, List.mem_cons, List.not_mem_nil, or_false, reduceCtorEq, false_or,
      WrittenLine.step.injEq] at hw
    subst hw
    decide +kernel
  exact parseDsl_scriptText hgap

/-- A carriage return behind the action is taken for a part of its name. -/
theorem parseDsl_scriptText_return :
    ¬ ∀ script : List WrittenLine, Scenario.parseDsl (scriptText script) =
      .ok ⟨ascii "ParsedScenario", script.filterMap WrittenLine.step?⟩ := by
  intro h
  have hread := h [.step (writtenSend (ascii "\r") (by decide +kernel) (by decide +kernel))]
  have herror : Scenario.parseDsl
      (scriptText [.step (writtenSend (ascii "\r") (by decide +kernel) (by decide +kernel))]) =
        .error (ascii "Line 1: Unknown command SEND\r35") := by
    decide +kernel
  rw [herror] at hread
  cases hread

end Fixure
