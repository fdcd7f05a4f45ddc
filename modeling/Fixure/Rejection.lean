import Fixure.ParseDsl

/-!
# Which scripts are rejected

`parseDsl` stops at the first line that it refuses and says which one it is. What it
refuses is less than what is malformed: of the text in front of a `=` it looks at the
number at the beginning only, so `35x=A` is read as tag 35. A script is judged rightly
exactly when its first malformed line is refused, too.
-/

namespace Fixure
open Search Decimal Pieces

/-! ### Malformed lines -/

/-- An integer literal in the range of `int`, from one end of the text to the other. -/
def WholeTag (text : Bytes) : Prop := ∃ n : Int32, Spells text n.toInt

/-- The token is not blank, and no `=` or no tag stands where it should. -/
def BadToken (IsTag : Bytes → Prop) (token : Bytes) : Prop :=
  trimSpace token ≠ [] ∧
    (equals ∉ token ∨ ¬ IsTag (trimSpace (token.takeWhile fun b => b ≠ equals)))

def BadLine (IsTag : Bytes → Prop) (line : Bytes) : Prop :=
  IsStepLine line ∧
    ((∀ type : ActionType, firstWord (trimSpace line) ≠ type.toString) ∨
      ∃ token ∈ (behindWord (trimSpace line)).splitOn pipe, BadToken IsTag token)

theorem leadingTag_of_wholeTag {text : Bytes} (h : WholeTag text) : LeadingTag text := by
  obtain ⟨n, hn⟩ := h
  exact ⟨n, hn.leads⟩

theorem badLine_of_leading {line : Bytes} (h : BadLine LeadingTag line) :
    BadLine WholeTag line := by
  refine ⟨h.1, h.2.imp_right ?_⟩
  intro ⟨token, hmem, hne, hbad⟩
  exact ⟨token, hmem, hne, hbad.imp_right fun hlead hwhole => hlead (leadingTag_of_wholeTag hwhole)⟩

theorem actionType_eq_none_iff {cmd : Bytes} :
    actionType cmd = none ↔ ∀ type : ActionType, cmd ≠ type.toString := by
  constructor
  · intro h type hcmd
    subst hcmd
    cases type <;> exact absurd h (by decide)
  · intro h
    have hconnect := h .connect
    have hsend := h .send
    have hexpect := h .expect
    have hmock := h .mock
    have hdisconnect := h .disconnect
    simp only [ActionType.toString] at hconnect hsend hexpect hmock hdisconnect
    simp [actionType, hconnect, hsend, hexpect, hmock, hdisconnect]

/-! ### Refused lines -/

theorem refuses_readField (lineNum : ℕ) :
    Refuses (fun _ => readField lineNum) (BadToken LeadingTag) := by
  intro _ token
  show (∃ e, readField lineNum token = .error e) ↔ BadToken LeadingTag token
  by_cases hblank : trimSpace token = []
  · simp [readField_blank hblank, BadToken, hblank]
  · by_cases heq : equals ∈ token
    · obtain ⟨a, v, htoken, ha, htake⟩ := exists_equals_split heq
      by_cases hlead : LeadingTag (trimSpace a)
      · obtain ⟨n, hn⟩ := hlead
        have hread : readField lineNum token = .ok (some ⟨n, trimSpace v⟩) := by
          rw [htoken, readField_value ha hn]
        rw [hread]
        apply iff_of_false
        · simp
        · intro hbad
          rw [BadToken, htake] at hbad
          exact hbad.2.elim (fun hno => hno heq) fun hno => hno ⟨n, hn⟩
      · have hread : ∃ e, readField lineNum (a ++ equals :: v) = .error e :=
          ⟨_, readField_badTag ha hlead v⟩
        rw [← htoken] at hread
        exact iff_of_true hread ⟨hblank, Or.inr (by rwa [htake])⟩
    · rw [readField_noEquals hblank heq]
      exact iff_of_true ⟨_, rfl⟩ ⟨hblank, Or.inl heq⟩

/-- The lines that `parseLine` refuses. -/
def RefusedLine (line : Bytes) : Prop :=
  IsStepLine line ∧ (actionType (firstWord (trimSpace line)) = none ∨
    ∃ token ∈ tokens (behindWord (trimSpace line)), BadToken LeadingTag token)

theorem refuses_parseLine : Refuses parseLine RefusedLine := by
  intro n line
  by_cases hstep : IsStepLine line
  · cases htype : actionType (firstWord (trimSpace line)) with
    | none =>
      rw [parseLine_unknown hstep htype]
      exact iff_of_true ⟨_, rfl⟩ ⟨hstep, Or.inl htype⟩
    | some type =>
      have htokens := exists_collect_error_iff (refuses_readField n)
        (tokens (behindWord (trimSpace line))) 1
      rw [← parseFields_eq] at htokens
      have hrefused : RefusedLine line ↔
          ∃ token ∈ tokens (behindWord (trimSpace line)), BadToken LeadingTag token := by
        simp [RefusedLine, hstep, htype]
      rw [parseLine_step hstep htype, hrefused, ← htokens]
      cases parseFields n (behindWord (trimSpace line)) with
      | error e => simp [Except.map]
      | ok fields => simp [Except.map]
  · rw [parseLine_skip hstep]
    exact iff_of_false (by simp) fun h => hstep h.1

theorem tokens_eq_splitOn {args : Bytes} (h : soh ∉ args) : tokens args = args.splitOn pipe := by
  rw [← split_const, tokens]
  induction args with
  | nil => rfl
  | cons b args ih =>
    rw [List.mem_cons, not_or] at h
    have hb : delimits b args = (b == pipe) := by simp [delimits, Ne.symm h.1, beq_eq_decide]
    rw [split, split, ih h.2, hb]

theorem refusedLine_iff {line : Bytes} (h : soh ∉ line) :
    RefusedLine line ↔ BadLine LeadingTag line := by
  have hargs : soh ∉ behindWord (trimSpace line) := by
    intro hmem
    exact h (mem_of_mem_trim ((List.dropWhile_suffix _).subset hmem))
  rw [RefusedLine, BadLine, tokens_eq_splitOn hargs, actionType_eq_none_iff]

/-! ### The number in the complaint -/

def NamesLine (n : ℕ) (e : Bytes) : Prop := ascii "Line " ++ (numeral n ++ ascii ":") <+: e

theorem namesLine_complaint {n : ℕ} {what : Bytes} (h : ascii ":" <+: what) :
    NamesLine n (complaint n what) := by
  obtain ⟨rest, rfl⟩ := h
  exact ⟨rest, by simp [complaint]⟩

theorem colon_notMem_numeral (n : ℕ) : 58 ∉ numeral n := by
  intro h
  exact absurd (isDigit_of_mem_numeral h) (by decide)

theorem namesLine_unique {m n : ℕ} {e : Bytes} (hm : NamesLine m e) (hn : NamesLine n e) :
    m = n := by
  obtain ⟨x, hx⟩ := hm
  obtain ⟨y, hy⟩ := hn
  have hboth : ascii "Line " ++ (numeral m ++ ascii ":") ++ x =
      ascii "Line " ++ (numeral n ++ ascii ":") ++ y := hx.trans hy.symm
  simp only [List.append_assoc, List.append_cancel_left_eq] at hboth
  have hfree (k : ℕ) : ∀ d ∈ numeral k, ¬ d = 58 :=
    fun d hd heq => colon_notMem_numeral k (heq ▸ hd)
  have hnumeral : numeral m = numeral n :=
    (first_unique hboth (hfree m) rfl (hfree n) rfl).1
  rw [← value_numeral m, hnumeral, value_numeral]

theorem readField_error {n : ℕ} {token e : Bytes} (h : readField n token = .error e) :
    NamesLine n e := by
  by_cases hblank : trimSpace token = []
  · rw [readField_blank hblank] at h
    cases h
  · by_cases heq : equals ∈ token
    · obtain ⟨a, v, rfl, ha, _⟩ := exists_equals_split heq
      by_cases hlead : LeadingTag (trimSpace a)
      · obtain ⟨k, hk⟩ := hlead
        rw [readField_value ha hk] at h
        cases h
      · rw [readField_badTag ha hlead] at h
        obtain rfl := Except.error.inj h
        exact namesLine_complaint ⟨_, rfl⟩
    · rw [readField_noEquals hblank heq] at h
      obtain rfl := Except.error.inj h
      exact namesLine_complaint ⟨_, rfl⟩

theorem parseLine_error {n : ℕ} {line e : Bytes} (h : parseLine n line = .error e) :
    NamesLine n e := by
  have hrefused : RefusedLine line := (refuses_parseLine n line).mp ⟨e, h⟩
  have hstep := hrefused.1
  cases htype : actionType (firstWord (trimSpace line)) with
  | none =>
    rw [parseLine_unknown hstep htype] at h
    obtain rfl := Except.error.inj h
    exact namesLine_complaint ⟨_, rfl⟩
  | some type =>
    rw [parseLine_step hstep htype, parseFields_eq] at h
    cases hfields : collect (fun _ => readField n) 1 (tokens (behindWord (trimSpace line))) with
    | ok fields =>
      rw [hfields] at h
      cases h
    | error e' =>
      rw [hfields] at h
      obtain rfl : e' = e := Except.error.inj h
      obtain ⟨_, token, _, _, _, hread⟩ := (collect_eq_error_iff (refuses_readField n)).mp hfields
      exact readField_error hread

/-! ### The first malformed line -/

/-- `line` is the first line of the script that is malformed, and `pre` stands before it. -/
structure FirstBad (IsTag : Bytes → Prop) (dsl : Bytes) (pre : List Bytes) (line : Bytes) : Prop
    where
  split : ∃ post, lines dsl = pre ++ line :: post
  fine : ∀ q ∈ pre, ¬ BadLine IsTag q
  bad : BadLine IsTag line

theorem FirstBad.mem {IsTag : Bytes → Prop} {dsl line : Bytes} {pre : List Bytes}
    (h : FirstBad IsTag dsl pre line) : line ∈ lines dsl := by
  obtain ⟨post, hsplit⟩ := h.split
  simp [hsplit]

theorem FirstBad.leading {dsl line : Bytes} {pre : List Bytes} (h : FirstBad WholeTag dsl pre line)
    (hbad : BadLine LeadingTag line) : FirstBad LeadingTag dsl pre line :=
  ⟨h.split, fun q hq hq' => h.fine q hq (badLine_of_leading hq'), hbad⟩

theorem FirstBad.unique {IsTag : Bytes → Prop} {dsl line line' : Bytes} {pre pre' : List Bytes}
    (h : FirstBad IsTag dsl pre line) (h' : FirstBad IsTag dsl pre' line') :
    pre = pre' ∧ line = line' := by
  obtain ⟨post, hpost⟩ := h.split
  obtain ⟨post', hpost'⟩ := h'.split
  exact first_unique (hpost.symm.trans hpost') h.fine h.bad h'.fine h'.bad

theorem exists_firstBad {IsTag : Bytes → Prop} {dsl : Bytes}
    (h : ∃ line ∈ lines dsl, BadLine IsTag line) : ∃ pre line, FirstBad IsTag dsl pre line := by
  obtain ⟨pre, line, post, hsplit, hpre, hline⟩ := exists_first h
  exact ⟨pre, line, ⟨post, hsplit⟩, hpre, hline⟩

theorem notMem_of_mem_lines {c : UInt8} {dsl line : Bytes} (h : c ∉ dsl) (hline : line ∈ lines dsl) :
    c ∉ line := by
  rw [lines, ← split_const] at hline
  exact fun hc => h (mem_of_mem_split hline hc)

theorem parseDsl_error_iff {dsl e : Bytes} (hsoh : soh ∉ dsl) :
    Scenario.parseDsl dsl = .error e ↔
      ∃ pre line, FirstBad LeadingTag dsl pre line ∧
        parseLine (pre.length + 1) line = .error e := by
  have hlines : ∀ line ∈ lines dsl, (RefusedLine line ↔ BadLine LeadingTag line) :=
    fun line hline => refusedLine_iff (notMem_of_mem_lines hsoh hline)
  have hcollect : Scenario.parseDsl dsl = .error e ↔ collect parseLine 1 (lines dsl) = .error e := by
    rw [parseDsl_eq]
    cases collect parseLine 1 (lines dsl) with
    | error e' => simp [Except.map]
    | ok steps => simp [Except.map]
  rw [hcollect, collect_eq_error_iff refuses_parseLine]
  constructor
  · intro ⟨pre, line, post, hsplit, hpre, hread⟩
    rw [Nat.add_comm] at hread
    refine ⟨pre, line, ⟨⟨post, hsplit⟩, ?_, ?_⟩, hread⟩
    · intro q hq hbad
      exact hpre q hq ((hlines q (by simp [hsplit, hq])).mpr hbad)
    · exact (hlines line (by simp [hsplit])).mp ((refuses_parseLine _ line).mp ⟨e, hread⟩)
  · intro ⟨pre, line, hfirst, hread⟩
    obtain ⟨post, hsplit⟩ := hfirst.split
    rw [Nat.add_comm] at hread
    refine ⟨pre, line, post, hsplit, ?_, hread⟩
    intro q hq hbad
    exact hfirst.fine q hq ((hlines q (by simp [hsplit, hq])).mp hbad)

/-- The script is rejected if and only if a line is malformed, and the complaint names the
first such line. -/
structure RejectsMalformed (dsl : Bytes) : Prop where
  error_iff : (∃ e, Scenario.parseDsl dsl = .error e) ↔ ∃ line ∈ lines dsl, BadLine WholeTag line
  names : ∀ e, Scenario.parseDsl dsl = .error e →
    ∃ pre line, FirstBad WholeTag dsl pre line ∧ NamesLine (pre.length + 1) e

/-- A number belongs to one line. -/
theorem firstBad_eq_of_names {dsl line line' e : Bytes} {pre pre' : List Bytes}
    (h : FirstBad WholeTag dsl pre line) (h' : FirstBad LeadingTag dsl pre' line')
    (hnames : NamesLine (pre.length + 1) e) (hnames' : NamesLine (pre'.length + 1) e) :
    line = line' := by
  obtain ⟨post, hsplit⟩ := h.split
  obtain ⟨post', hsplit'⟩ := h'.split
  have hlen := namesLine_unique hnames hnames'
  obtain ⟨_, htail⟩ := List.append_inj (hsplit.symm.trans hsplit') (by omega)
  exact (List.cons.inj htail).1

/-- If the first malformed line is refused, every complaint is about it. -/
theorem firstBad_of_error {dsl e : Bytes} (hsoh : soh ∉ dsl)
    (h : ∀ pre line, FirstBad WholeTag dsl pre line → BadLine LeadingTag line)
    (he : Scenario.parseDsl dsl = .error e) :
    ∃ pre line, FirstBad WholeTag dsl pre line ∧ parseLine (pre.length + 1) line = .error e := by
  obtain ⟨pre, line, hfirst, hread⟩ := (parseDsl_error_iff hsoh).mp he
  obtain ⟨pre', line', hwhole⟩ := exists_firstBad ⟨line, hfirst.mem, badLine_of_leading hfirst.bad⟩
  obtain ⟨rfl, rfl⟩ := hfirst.unique (hwhole.leading (h pre' line' hwhole))
  exact ⟨pre, line, hwhole, hread⟩

/-- A script is judged rightly exactly when its first malformed line, if it has one, is not
malformed only by what follows a number in front of a `=`. -/
theorem rejectsMalformed_iff {dsl : Bytes} (hsoh : soh ∉ dsl) :
    RejectsMalformed dsl ↔
      ∀ pre line, FirstBad WholeTag dsl pre line → BadLine LeadingTag line := by
  constructor
  · intro h pre line hfirst
    obtain ⟨e, he⟩ := h.error_iff.mpr ⟨line, hfirst.mem, hfirst.bad⟩
    obtain ⟨pre', line', hfirst', hnames⟩ := h.names e he
    obtain ⟨rfl, rfl⟩ := hfirst.unique hfirst'
    -- the line that the complaint is about has the same number
    obtain ⟨pre', line', hrefused, hread⟩ := (parseDsl_error_iff hsoh).mp he
    rw [firstBad_eq_of_names hfirst hrefused hnames (parseLine_error hread)]
    exact hrefused.bad
  · intro h
    constructor
    · constructor
      · intro ⟨e, he⟩
        obtain ⟨pre, line, hfirst, _⟩ := firstBad_of_error hsoh h he
        exact ⟨line, hfirst.mem, hfirst.bad⟩
      · intro hbad
        obtain ⟨pre, line, hfirst⟩ := exists_firstBad hbad
        have hrefused : RefusedLine line :=
          (refusedLine_iff (notMem_of_mem_lines hsoh hfirst.mem)).mpr (h pre line hfirst)
        obtain ⟨e, he⟩ := (refuses_parseLine (pre.length + 1) line).mpr hrefused
        exact ⟨e, (parseDsl_error_iff hsoh).mpr ⟨pre, line, hfirst.leading (h pre line hfirst), he⟩⟩
    · intro e he
      obtain ⟨pre, line, hfirst, hread⟩ := firstBad_of_error hsoh h he
      exact ⟨pre, line, hfirst, parseLine_error hread⟩

theorem rejectsMalformed_unknown :
    RejectsMalformed (ascii "CONNECT\n\n# tag 1\nHELLO 1=2") ↔
      ∀ pre line, FirstBad WholeTag (ascii "CONNECT\n\n# tag 1\nHELLO 1=2") pre line →
        BadLine LeadingTag line :=
  rejectsMalformed_iff (by decide)

/-- `35x` is no tag, and the step is read as one with tag 35. -/
theorem rejectsMalformed_mistyped :
    ¬ ∀ dsl : Bytes, soh ∉ dsl → RejectsMalformed dsl := by
  intro h
  have hread : Scenario.parseDsl (ascii "SEND 35x=A") =
      .ok ⟨ascii "ParsedScenario", [⟨.send, [⟨35, ascii "A"⟩]⟩]⟩ := by decide
  have hlines : lines (ascii "SEND 35x=A") = [ascii "SEND 35x=A"] := by decide
  have htag : ¬ WholeTag (ascii "35x") := by
    intro ⟨n, hn⟩
    have hdigit : (120 : UInt8) = minus ∨ isDigit 120 = true := hn.mem (by decide)
    exact absurd hdigit (by decide)
  have hbad : BadLine WholeTag (ascii "SEND 35x=A") := by
    refine ⟨⟨by decide, by decide⟩, Or.inr ⟨ascii " 35x=A", by decide, by decide, Or.inr ?_⟩⟩
    have htake : trimSpace ((ascii " 35x=A").takeWhile fun b => b ≠ equals) = ascii "35x" := by decide
    rwa [htake]
  obtain ⟨e, he⟩ := (h (ascii "SEND 35x=A") (by decide)).error_iff.mpr
    ⟨_, by rw [hlines]; exact List.mem_singleton_self _, hbad⟩
  rw [hread] at he
  cases he

end Fixure
