import Fixure.Pieces
import Fixure.Scenario
import Mathlib.Data.List.Forall2

/-!
# The scenario language

A script has one step a line: the name of an action and the fields of the step between
pipes. `parseDsl` reads the lines one after the other, and the fields of a line likewise;
a loop that cuts pieces off a text is `Pieces.scan`. The SOH separates fields too, but only
behind the last pipe of a line. `parseDsl_eq` and `parseLine_eq` say what is read in terms
of the lines and the fields alone.
-/

namespace Fixure
open Search Decimal Pieces

def pipe : UInt8 := 124
def lf : UInt8 := 10

/-! ### The reader -/

def ActionType.toString : ActionType → Bytes
  | .connect => ascii "CONNECT"
  | .send => ascii "SEND"
  | .expect => ascii "EXPECT"
  | .mock => ascii "MOCK"
  | .disconnect => ascii "DISCONNECT"

def isSpace (b : UInt8) : Bool := b = 32 || b = 9 || b = 13 || b = 10

def trimSpace (str : Bytes) : Bytes := trim isSpace str

/-- What stands in front of the position `stop`, and what stands behind it. -/
def cutOff (text : Bytes) (stop : Option ℕ) : Bytes × Bytes :=
  match stop with
  | none => (text, [])
  | some i => (text.take i, text.drop (i + 1))

def nextLine (dsl : Bytes) : Bytes × Bytes := cutOff dsl (find [lf] dsl)

/-- A SOH ends a token only where no pipe is left. -/
def nextToken (args : Bytes) : Bytes × Bytes :=
  match find [pipe] args with
  | some nextPipe => cutOff args (some nextPipe)
  | none => cutOff args (find [soh] args)

def complaint (lineNum : ℕ) (what : Bytes) : Bytes := ascii "Line " ++ numeral lineNum ++ what

def decodeTag (lineNum : ℕ) (tagStr valStr : Bytes) : Except Bytes (Option Field) :=
  match fromChars tagStr with
  | .parsed tag _ => .ok (some ⟨tag, valStr⟩)
  | _ => .error (complaint lineNum (ascii ": Invalid tag number '" ++ tagStr ++ ascii "'"))

def readField (lineNum : ℕ) (token : Bytes) : Except Bytes (Option Field) :=
  let token := trimSpace token
  if token.isEmpty then .ok none
  else
    match find [equals] token with
    | none =>
      .error (complaint lineNum (ascii ": Invalid field format '" ++ token ++ ascii "'"))
    | some eqPos =>
      decodeTag lineNum (trimSpace (token.take eqPos)) (trimSpace (token.drop (eqPos + 1)))

def parseFields (lineNum : ℕ) (args : Bytes) : Except Bytes (List Field) :=
  scan nextToken (fun _ => readField lineNum) args.length 0 [] args

def actionType (cmd : Bytes) : Option ActionType :=
  if cmd = ascii "CONNECT" then some .connect
  else if cmd = ascii "SEND" then some .send
  else if cmd = ascii "EXPECT" then some .expect
  else if cmd = ascii "MOCK" then some .mock
  else if cmd = ascii "DISCONNECT" then some .disconnect
  else none

/-- What separates the action from its fields. -/
def isGap (b : UInt8) : Bool := b = 32 || b = 9

def firstWord (line : Bytes) : Bytes := line.takeWhile fun b => !isGap b

def behindWord (line : Bytes) : Bytes := line.dropWhile fun b => !isGap b

/-- One pass over the lines; a blank line and a comment give no step. -/
def parseLine (lineNum : ℕ) (lineRaw : Bytes) : Except Bytes (Option ScenarioStep) :=
  let line := trimSpace lineRaw
  if line.isEmpty ∨ ascii "#" <+: line then .ok none
  else
    let cmd := firstWord line
    let args := trimSpace (behindWord line)
    match actionType cmd with
    | none => .error (complaint lineNum (ascii ": Unknown command " ++ cmd))
    | some type =>
      match parseFields lineNum args with
      | .error e => .error e
      | .ok fields => .ok (some ⟨type, fields⟩)

def Scenario.parseDsl (dsl : Bytes) : Except Bytes Scenario :=
  (scan nextLine parseLine dsl.length 0 [] dsl).map fun steps => ⟨ascii "ParsedScenario", steps⟩

/-! ### Lines and tokens -/

def lines (dsl : Bytes) : List Bytes := dsl.splitOn lf

/-- A pipe ends a field; a SOH does where no pipe follows. -/
def delimits (b : UInt8) (rest : Bytes) : Bool := b = pipe || (b = soh && !rest.contains pipe)

def tokens (args : Bytes) : List Bytes := split delimits args

theorem cutOff_find {c : UInt8} {a : Bytes} (h : c ∉ a) (b : Bytes) :
    cutOff (a ++ c :: b) (find [c] (a ++ c :: b)) = (a, b) := by
  rw [find_singleton_append h, cutOff, List.take_left' rfl, List.drop_append, Nat.add_sub_cancel_left]
  simp

theorem cutsAt_nextLine : CutsAt (fun b _ => b == lf) nextLine := by
  intro text _
  cases hfind : find [lf] text with
  | none =>
    have hfree : lf ∉ text := by
      rw [find_eq_none_iff] at hfind
      exact fun h => hfind ((List.singleton_infix_iff _ _).mpr h)
    left
    constructor
    · intro u y v htext
      have hne : y ≠ lf := by
        intro hy
        exact hfree (by simp [htext, hy])
      simpa using hne
    · rw [nextLine, hfind, cutOff]
  | some i =>
    obtain ⟨a, b, rfl, _, hfree⟩ := find_singleton_eq_some_split hfind
    right
    refine ⟨a, lf, b, rfl, ?_, by simp, cutOff_find hfree b⟩
    intro u y v ha
    have hne : y ≠ lf := by
      intro hy
      exact hfree (by simp [ha, hy])
    simpa using hne

theorem delimits_pipe (rest : Bytes) : delimits pipe rest = true := by simp [delimits]

theorem eq_of_delimits {b : UInt8} {rest : Bytes} (h : delimits b rest = true) :
    b = pipe ∨ b = soh := by
  simp only [delimits, Bool.or_eq_true, Bool.and_eq_true, decide_eq_true_eq] at h
  exact h.imp_right And.left

theorem delimits_soh {rest : Bytes} : delimits soh rest = true ↔ pipe ∉ rest := by
  have hne : soh ≠ pipe := by decide
  simp [delimits, hne]

theorem delimits_eq_false {b : UInt8} {rest : Bytes} (hpipe : b ≠ pipe)
    (hsoh : b = soh → pipe ∈ rest) : delimits b rest = false := by
  simp only [delimits, hpipe, decide_false, Bool.false_or, Bool.and_eq_false_iff, decide_eq_false_iff_not,
    Bool.not_eq_false']
  by_cases hb : b = soh
  · right
    simpa using hsoh hb
  · exact Or.inl hb

theorem cutsAt_nextToken : CutsAt delimits nextToken := by
  intro text _
  cases hpipe : find [pipe] text with
  | some i =>
    obtain ⟨a, b, rfl, _, hfree⟩ := find_singleton_eq_some_split hpipe
    right
    refine ⟨a, pipe, b, rfl, ?_, delimits_pipe b, ?_⟩
    · intro u y v ha
      apply delimits_eq_false
      · intro hy
        exact hfree (by simp [ha, hy])
      · intro _
        simp
    · have hcut := cutOff_find hfree b
      rw [hpipe] at hcut
      rw [nextToken, hpipe]
      exact hcut
  | none =>
    have hnopipe : pipe ∉ text := by
      rw [find_eq_none_iff] at hpipe
      exact fun h => hpipe ((List.singleton_infix_iff _ _).mpr h)
    cases hsoh : find [soh] text with
    | none =>
      have hnosoh : soh ∉ text := by
        rw [find_eq_none_iff] at hsoh
        exact fun h => hsoh ((List.singleton_infix_iff _ _).mpr h)
      left
      constructor
      · intro u y v htext
        apply delimits_eq_false
        · intro hy
          exact hnopipe (by simp [htext, hy])
        · intro hy
          exact absurd (by simp [htext, hy]) hnosoh
      · simp only [nextToken, hpipe, hsoh, cutOff]
    | some i =>
      obtain ⟨a, b, rfl, _, hfree⟩ := find_singleton_eq_some_split hsoh
      right
      refine ⟨a, soh, b, rfl, ?_, ?_, ?_⟩
      · intro u y v ha
        apply delimits_eq_false
        · intro hy
          exact hnopipe (by simp [ha, hy])
        · intro hy
          exact absurd (by simp [ha, hy]) hfree
      · rw [delimits_soh]
        exact fun h => hnopipe (by simp [h])
      · have hcut := cutOff_find hfree b
        simp only [nextToken, hpipe]
        exact hcut

theorem readField_nil (lineNum : ℕ) : readField lineNum [] = .ok none := rfl

theorem parseFields_eq (lineNum : ℕ) (args : Bytes) :
    parseFields lineNum args = collect (fun _ => readField lineNum) 1 (tokens args) := by
  rw [parseFields, scan_eq cutsAt_nextToken (fun _ => readField_nil lineNum) le_rfl, tokens]
  cases collect (fun _ => readField lineNum) (0 + 1) (split delimits args) with
  | error e => rfl
  | ok fields => rfl

theorem parseLine_nil (lineNum : ℕ) : parseLine lineNum [] = .ok none := rfl

theorem parseDsl_eq (dsl : Bytes) :
    Scenario.parseDsl dsl =
      (collect parseLine 1 (lines dsl)).map fun steps => ⟨ascii "ParsedScenario", steps⟩ := by
  rw [Scenario.parseDsl, scan_eq cutsAt_nextLine parseLine_nil le_rfl, lines, split_const]
  cases collect parseLine (0 + 1) (dsl.splitOn lf) with
  | error e => rfl
  | ok steps => rfl

/-! ### One field -/

section Field
variable {lineNum : ℕ}

theorem readField_congr {q r : Bytes} (h : trimSpace q = trimSpace r) :
    readField lineNum q = readField lineNum r := by
  simp only [readField, h]

theorem readField_blank {token : Bytes} (h : trimSpace token = []) :
    readField lineNum token = .ok none := by
  simp [readField, h]

theorem readField_noEquals {token : Bytes} (h : trimSpace token ≠ []) (heq : equals ∉ token) :
    readField lineNum token =
      .error (complaint lineNum (ascii ": Invalid field format '" ++ trimSpace token ++
        ascii "'")) := by
  have hfind : find [equals] (trimSpace token) = none := by
    rw [find_eq_none_iff, List.singleton_infix_iff]
    exact fun hm => heq (mem_of_mem_trim hm)
  simp [readField, h, hfind]

theorem isSpace_equals : isSpace equals = false := by decide

/-- The first `=` of a token separates the tag from the value. -/
theorem readField_equals {a : Bytes} (ha : equals ∉ a) (v : Bytes) :
    readField lineNum (a ++ equals :: v) = decodeTag lineNum (trimSpace a) (trimSpace v) := by
  have htrim : trimSpace (a ++ equals :: v) =
      a.dropWhile isSpace ++ equals :: v.rdropWhile isSpace := trim_append_cons isSpace_equals a v
  have hfree : equals ∉ a.dropWhile isSpace :=
    fun h => ha ((List.dropWhile_suffix isSpace).subset h)
  have htag : trimSpace (a.dropWhile isSpace) = trimSpace a := trim_dropWhile a
  have hval : trimSpace (v.rdropWhile isSpace) = trimSpace v := trim_rdropWhile v
  have hdrop : (a.dropWhile isSpace ++ equals :: v.rdropWhile isSpace).drop
      ((a.dropWhile isSpace).length + 1) = v.rdropWhile isSpace := by
    rw [List.drop_append, List.drop_of_length_le (Nat.le_succ _), Nat.add_sub_cancel_left]
    rfl
  simp only [readField, htrim, find_singleton_append hfree, List.take_left, hdrop, htag, hval]
  simp

/-- The text begins with an integer literal in the range of `int`. -/
def LeadingTag (text : Bytes) : Prop := ∃ n : Int32, Leads text n.toInt

theorem leadingTag_iff {text : Bytes} : LeadingTag text ↔ ∃ n rest, fromChars text = .parsed n rest := by
  apply exists_congr
  intro n
  rw [exists_fromChars_iff]

theorem readField_value {a : Bytes} (ha : equals ∉ a) {n : Int32} (h : Leads (trimSpace a) n.toInt)
    (v : Bytes) : readField lineNum (a ++ equals :: v) = .ok (some ⟨n, trimSpace v⟩) := by
  obtain ⟨rest, hn⟩ := exists_fromChars_iff.mpr h
  rw [readField_equals ha, decodeTag, hn]

theorem readField_badTag {a : Bytes} (ha : equals ∉ a) (h : ¬ LeadingTag (trimSpace a))
    (v : Bytes) : readField lineNum (a ++ equals :: v) =
      .error (complaint lineNum (ascii ": Invalid tag number '" ++ trimSpace a ++
        ascii "'")) := by
  rw [readField_equals ha, decodeTag]
  cases hn : fromChars (trimSpace a) with
  | parsed n rest => exact absurd (leadingTag_iff.mpr ⟨n, rest, hn⟩) h
  | invalidArgument => rfl
  | resultOutOfRange => rfl

theorem exists_equals_split {token : Bytes} (h : equals ∈ token) :
    ∃ a v, token = a ++ equals :: v ∧ equals ∉ a ∧
      (token.takeWhile fun b => b ≠ equals) = a := by
  obtain ⟨a, v, rfl, ha⟩ := List.eq_append_cons_of_mem h
  refine ⟨a, v, rfl, ha, ?_⟩
  rw [List.takeWhile_append_of_pos]
  · simp
  · intro b hb
    have hne : b ≠ equals := fun heq => ha (heq ▸ hb)
    simpa using hne

theorem readField_ne_none {token : Bytes} (h : equals ∈ token) :
    readField lineNum token ≠ .ok none := by
  obtain ⟨a, v, rfl, ha, _⟩ := exists_equals_split h
  by_cases hlead : LeadingTag (trimSpace a)
  · obtain ⟨n, hn⟩ := hlead
    rw [readField_value ha hn]
    simp
  · rw [readField_badTag ha hlead]
    simp

theorem readField_some {token : Bytes} {f : Field} (h : readField lineNum token = .ok (some f)) :
    ∃ a v, token = a ++ equals :: v ∧ equals ∉ a ∧ Leads (trimSpace a) f.tag.toInt ∧
      f.value = trimSpace v := by
  by_cases hblank : trimSpace token = []
  · rw [readField_blank hblank] at h
    cases h
  · by_cases heq : equals ∈ token
    · obtain ⟨a, v, rfl, ha, _⟩ := exists_equals_split heq
      by_cases hlead : LeadingTag (trimSpace a)
      · obtain ⟨n, hn⟩ := hlead
        rw [readField_value ha hn] at h
        rw [← Option.some.inj (Except.ok.inj h)]
        exact ⟨a, v, rfl, ha, hn, rfl⟩
      · rw [readField_badTag ha hlead] at h
        cases h
    · rw [readField_noEquals hblank heq] at h
      cases h

theorem readField_none {token : Bytes} (h : readField lineNum token = .ok none) :
    trimSpace token = [] := by
  by_contra hne
  by_cases heq : equals ∈ token
  · exact readField_ne_none heq h
  · rw [readField_noEquals hne heq] at h
    cases h

end Field

/-! ### One line -/

/-- Neither blank nor a comment. -/
def IsStepLine (line : Bytes) : Prop := trimSpace line ≠ [] ∧ ¬ ascii "#" <+: trimSpace line

theorem delimits_of_isSpace {b : UInt8} (h : isSpace b = true) (rest : Bytes) :
    delimits b rest = false := by
  apply delimits_eq_false
  · intro hb
    rw [hb] at h
    exact absurd h (by decide)
  · intro hb
    rw [hb] at h
    exact absurd h (by decide)

theorem tokens_pad {a b : Bytes} (ha : ∀ x ∈ a, isSpace x = true) (hb : ∀ x ∈ b, isSpace x = true)
    (args : Bytes) : List.Forall₂ (fun q r => trimSpace q = trimSpace r)
      (tokens (a ++ (args ++ b))) (tokens args) := by
  have hunmarked : ∀ xs : Bytes, (∀ x ∈ xs, isSpace x = true) → ∀ rest,
      Unmarked delimits xs rest := by
    intro xs hxs rest u y v h
    exact delimits_of_isSpace (hxs y (by simp [h])) _
  have hpipe : pipe ∉ b := by
    intro h
    exact absurd (hb _ h) (by decide)
  have hahead : ∀ (x : UInt8) (xs : Bytes), delimits x (xs ++ b) = delimits x xs := by
    intro x xs
    simp [delimits, hpipe]
  have hnil : ∀ x ∈ ([] : Bytes), isSpace x = true := fun x hx => absurd hx List.not_mem_nil
  have hright := split_append_right (hunmarked b hb []) hahead args
  rw [tokens, split_append (hunmarked a ha _), tokens]
  have htrim : ∀ q r : Bytes, q = r ∨ q = r ++ b → trimSpace q = trimSpace r := by
    intro q r h
    rcases h with rfl | rfl
    · rfl
    · exact trim_append hnil hb r
  generalize split delimits (args ++ b) = qs at hright
  generalize split delimits args = rs at hright
  cases hright with
  | nil => exact .nil
  | @cons q r qs rs hq htail =>
    rw [List.modifyHead_cons]
    refine .cons ?_ (htail.imp htrim)
    rw [← htrim q r hq]
    have hleft := trim_append ha hnil q
    rwa [List.append_nil] at hleft

theorem parseFields_pad {lineNum : ℕ} {a b : Bytes} (ha : ∀ x ∈ a, isSpace x = true)
    (hb : ∀ x ∈ b, isSpace x = true) (args : Bytes) :
    parseFields lineNum (a ++ (args ++ b)) = parseFields lineNum args := by
  rw [parseFields_eq, parseFields_eq]
  exact collect_congr ((tokens_pad ha hb args).imp fun q r h _ => readField_congr h) 1

theorem parseFields_trim {lineNum : ℕ} (args : Bytes) :
    parseFields lineNum (trimSpace args) = parseFields lineNum args := by
  obtain ⟨a, b, hargs, ha, hb⟩ := exists_trim isSpace args
  have h : parseFields lineNum (a ++ (trim isSpace args ++ b)) =
      parseFields lineNum (trim isSpace args) := parseFields_pad ha hb _
  rw [← hargs] at h
  exact h.symm

section Line
variable {lineNum : ℕ} {line : Bytes}

theorem parseLine_skip (h : ¬ IsStepLine line) : parseLine lineNum line = .ok none := by
  have hskip : (trimSpace line).isEmpty ∨ ascii "#" <+: trimSpace line := by
    by_cases hempty : trimSpace line = []
    · exact Or.inl (by simp [hempty])
    · exact Or.inr (not_not.mp fun hmark => h ⟨hempty, hmark⟩)
  simp only [parseLine, if_pos hskip]

theorem parseLine_unknown (h : IsStepLine line)
    (htype : actionType (firstWord (trimSpace line)) = none) :
    parseLine lineNum line =
      .error (complaint lineNum (ascii ": Unknown command " ++ firstWord (trimSpace line))) := by
  simp [parseLine, h.1, h.2, htype]

theorem parseLine_step (h : IsStepLine line) {type : ActionType}
    (htype : actionType (firstWord (trimSpace line)) = some type) :
    parseLine lineNum line =
      (parseFields lineNum (behindWord (trimSpace line))).map fun fields => some ⟨type, fields⟩ := by
  have hstep : ¬ ((trimSpace line).isEmpty ∨ ascii "#" <+: trimSpace line) := by
    rw [not_or]
    exact ⟨by simpa using h.1, h.2⟩
  simp only [parseLine, if_neg hstep, htype, parseFields_trim]
  cases parseFields lineNum (behindWord (trimSpace line)) with
  | error e => rfl
  | ok fields => rfl

end Line

theorem parseLine_some {n : ℕ} {line : Bytes} {step : ScenarioStep}
    (h : parseLine n line = .ok (some step)) :
    IsStepLine line ∧ actionType (firstWord (trimSpace line)) = some step.type ∧
      parseFields n (behindWord (trimSpace line)) = .ok step.fields := by
  by_cases hstep : IsStepLine line
  · cases htype : actionType (firstWord (trimSpace line)) with
    | none =>
      rw [parseLine_unknown hstep htype] at h
      cases h
    | some type =>
      rw [parseLine_step hstep htype] at h
      cases hfields : parseFields n (behindWord (trimSpace line)) with
      | error e =>
        rw [hfields] at h
        cases h
      | ok fields =>
        rw [hfields] at h
        obtain rfl := Option.some.inj (Except.ok.inj h)
        exact ⟨hstep, rfl, rfl⟩
  · rw [parseLine_skip hstep] at h
    cases h

theorem parseLine_ne_none {n : ℕ} {line : Bytes} (h : IsStepLine line) :
    parseLine n line ≠ .ok none := by
  cases htype : actionType (firstWord (trimSpace line)) with
  | none =>
    rw [parseLine_unknown h htype]
    simp
  | some type =>
    rw [parseLine_step h htype]
    cases parseFields n (behindWord (trimSpace line)) with
    | error e => simp [Except.map]
    | ok fields => simp [Except.map]

theorem parseDsl_eq_ok_iff {dsl : Bytes} {sc : Scenario} :
    Scenario.parseDsl dsl = .ok sc ↔
      collect parseLine 1 (lines dsl) = .ok sc.steps ∧ sc.name = ascii "ParsedScenario" := by
  rw [parseDsl_eq]
  cases collect parseLine 1 (lines dsl) with
  | error e => simp [Except.map]
  | ok steps =>
    obtain ⟨name, steps'⟩ := sc
    simp [Except.map, and_comm, eq_comm]

theorem actionType_eq_some {cmd : Bytes} {type : ActionType} (h : actionType cmd = some type) :
    cmd = type.toString := by
  rw [actionType] at h
  split_ifs at h with hconnect hsend hexpect hmock hdisconnect
  · exact hconnect.trans (congrArg ActionType.toString (Option.some.inj h))
  · exact hsend.trans (congrArg ActionType.toString (Option.some.inj h))
  · exact hexpect.trans (congrArg ActionType.toString (Option.some.inj h))
  · exact hmock.trans (congrArg ActionType.toString (Option.some.inj h))
  · exact hdisconnect.trans (congrArg ActionType.toString (Option.some.inj h))

theorem actionType_toString (type : ActionType) : actionType type.toString = some type := by
  cases type <;> decide +kernel

/-- The name of an action begins and ends with a letter, and is no comment. -/
theorem exists_toString_eq (type : ActionType) :
    ∃ first word last, type.toString = first :: (word ++ [last]) ∧ first ≠ 35 ∧
      isSpace first = false ∧ isSpace last = false := by
  cases type with
  | connect => exact ⟨67, ascii "ONNEC", 84, by decide⟩
  | send => exact ⟨83, ascii "EN", 68, by decide⟩
  | expect => exact ⟨69, ascii "XPEC", 84, by decide⟩
  | mock => exact ⟨77, ascii "OC", 75, by decide⟩
  | disconnect => exact ⟨68, ascii "ISCONNEC", 84, by decide⟩

theorem head?_rdropWhile {p q : UInt8 → Bool} {rest : Bytes} (h : ∀ b ∈ rest.head?, q b = true) :
    ∀ b ∈ (rest.rdropWhile p).head?, q b = true := by
  intro b hb
  obtain ⟨tail, htail⟩ := List.rdropWhile_prefix p rest
  apply h b
  rw [← htail, List.head?_append, Option.mem_def.mp hb]
  rfl

/-- A line that begins with the name of an action is read as this action with the fields that
stand behind the name. -/
theorem parseLine_action {lineNum : ℕ} {indent rest : Bytes} (type : ActionType)
    (hindent : ∀ b ∈ indent, isSpace b = true)
    (hrest : ∀ b ∈ (rest.rdropWhile isSpace).head?, isGap b = true) :
    parseLine lineNum (indent ++ (type.toString ++ rest)) =
      (parseFields lineNum rest).map fun fields => some ⟨type, fields⟩ := by
  obtain ⟨first, word, last, htype, hhash, hfirst, hlast⟩ := exists_toString_eq type
  have hnil : ∀ b ∈ ([] : Bytes), isSpace b = true := fun b hb => absurd hb List.not_mem_nil
  have hline : trimSpace (indent ++ (type.toString ++ rest)) =
      type.toString ++ rest.rdropWhile isSpace := by
    have hleft : trim isSpace (indent ++ (type.toString ++ rest ++ [])) =
        trim isSpace (type.toString ++ rest) := trim_append hindent hnil _
    have hsplit (tail : Bytes) : type.toString ++ tail = (first :: word) ++ last :: tail := by
      simp [htype]
    rw [List.append_nil] at hleft
    rw [trimSpace, hleft, hsplit, trim_append_cons hlast, hsplit,
      List.dropWhile_cons_of_neg (by simp [hfirst])]
  have hgap : ∀ b ∈ type.toString, (!isGap b) = true := by
    cases type <;> decide +kernel
  have hstop : (rest.rdropWhile isSpace).takeWhile (fun b => !isGap b) = [] ∧
      (rest.rdropWhile isSpace).dropWhile (fun b => !isGap b) = rest.rdropWhile isSpace := by
    cases hr : rest.rdropWhile isSpace with
    | nil => simp
    | cons b tail =>
      have hb : isGap b = true := hrest b (by simp [hr])
      simp [hb]
  have hcmd : firstWord (trimSpace (indent ++ (type.toString ++ rest))) = type.toString := by
    rw [hline, firstWord, List.takeWhile_append_of_pos hgap, hstop.1, List.append_nil]
  have hargs : behindWord (trimSpace (indent ++ (type.toString ++ rest))) =
      rest.rdropWhile isSpace := by
    rw [hline, behindWord, List.dropWhile_append_of_pos hgap, hstop.2]
  have hstep : IsStepLine (indent ++ (type.toString ++ rest)) := by
    rw [IsStepLine, hline, htype]
    constructor
    · simp
    · intro hmark
      have hcons : [35] <+: first :: (word ++ [last] ++ rest.rdropWhile isSpace) := hmark
      exact hhash (List.cons_prefix_cons.mp hcons).1.symm
  have htrim : trimSpace (rest.rdropWhile isSpace) = trimSpace rest := trim_rdropWhile rest
  rw [parseLine_step hstep (by rw [hcmd, actionType_toString]), hargs, ← parseFields_trim, htrim,
    parseFields_trim]

theorem parseLine_args {lineNum : ℕ} {indent : Bytes} {gap : UInt8} (type : ActionType)
    (hindent : ∀ b ∈ indent, isSpace b = true) (hgap : isGap gap = true) (args : Bytes) :
    parseLine lineNum (indent ++ (type.toString ++ gap :: args)) =
      (parseFields lineNum args).map fun fields => some ⟨type, fields⟩ := by
  have hhead : ∀ b ∈ (gap :: args).head?, isGap b = true := by
    intro b hb
    obtain rfl := Option.some.inj hb
    exact hgap
  have hspace : ∀ b ∈ [gap], isSpace b = true := by
    intro b hb
    rw [List.mem_singleton.mp hb]
    simp only [isGap, Bool.or_eq_true, decide_eq_true_eq] at hgap
    rcases hgap with rfl | rfl
    · decide
    · decide
  have hnil : ∀ b ∈ ([] : Bytes), isSpace b = true := fun b hb => absurd hb List.not_mem_nil
  have hpad : parseFields lineNum ([gap] ++ (args ++ [])) = parseFields lineNum args :=
    parseFields_pad hspace hnil args
  rw [List.append_nil, List.singleton_append] at hpad
  rw [parseLine_action type hindent (head?_rdropWhile hhead), hpad]

end Fixure
