import Fixure.Rejection

/-!
# Pipes and SOHs between fields

A pipe always separates fields, and a SOH does only where no pipe follows on the line. If
pipes of an accepted script are replaced by SOHs, the script reads the same exactly when
the same places of its lines separate fields; and the values read are free of both exactly
when no SOH stands between a `=` and a pipe of the same field.
-/

namespace Fixure
open Search Decimal Pieces

/-! ### Replaced pipes -/

/-- The second text is the first one with a SOH in the place of some pipes. -/
def Replaces (args args' : Bytes) : Prop :=
  List.Forall₂ (fun b b' => b' = b ∨ (b = pipe ∧ b' = soh)) args args'

instance (args args' : Bytes) : Decidable (Replaces args args') :=
  inferInstanceAs (Decidable (List.Forall₂ _ args args'))

inductive ReplacesIn : Bytes → Bytes → Prop
  | other (line : Bytes) : ReplacesIn line line
  | step {indent args args' : Bytes} {gap : UInt8} (type : ActionType) :
      (∀ b ∈ indent, isSpace b = true) → isGap gap = true → Replaces args args' →
      ReplacesIn (indent ++ (type.toString ++ gap :: args))
        (indent ++ (type.toString ++ gap :: args'))

/-- The second script is the first one with a SOH in the place of some pipes behind the
actions. -/
def ReplacesPipes (dsl dsl' : Bytes) : Prop := List.Forall₂ ReplacesIn (lines dsl) (lines dsl')

/-- The same places of the lines separate fields. -/
def SameDelimiters (dsl dsl' : Bytes) : Prop :=
  List.Forall₂ (fun line line' => marks delimits line = marks delimits line') (lines dsl)
    (lines dsl')

theorem tokens_of_marks {args args' : Bytes} (h : Replaces args args')
    (hmarks : marks delimits args = marks delimits args') : tokens args = tokens args' := by
  apply split_eq_of_marks h hmarks
  intro b b' rest hb hfree
  rcases hb with hb | ⟨rfl, _⟩
  · exact hb
  · rw [delimits_pipe] at hfree
    cases hfree

theorem marks_step {indent args args' : Bytes} {gap : UInt8} (type : ActionType)
    (hindent : ∀ b ∈ indent, isSpace b = true) (hgap : isGap gap = true) :
    marks delimits (indent ++ (type.toString ++ gap :: args)) =
        marks delimits (indent ++ (type.toString ++ gap :: args')) ↔
      marks delimits args = marks delimits args' := by
  have hfree : ∀ b ∈ indent ++ (type.toString ++ [gap]), ∀ rest, delimits b rest = false := by
    intro b hb rest
    have hne : b ≠ pipe ∧ b ≠ soh := by
      rcases List.mem_append.mp hb with hb | hb
      · constructor
        · rintro rfl
          exact absurd (hindent _ hb) (by decide)
        · rintro rfl
          exact absurd (hindent _ hb) (by decide)
      · rcases List.mem_append.mp hb with hb | hb
        · have hall : ∀ b ∈ type.toString, b ≠ pipe ∧ b ≠ soh := by
            cases type <;> decide +kernel
          exact hall b hb
        · rw [List.mem_singleton.mp hb]
          constructor
          · rintro rfl
            exact absurd hgap (by decide)
          · rintro rfl
            exact absurd hgap (by decide)
    exact delimits_eq_false hne.1 fun hb => absurd hb hne.2
  have hsplit (args : Bytes) : indent ++ (type.toString ++ gap :: args) =
      (indent ++ (type.toString ++ [gap])) ++ args := by simp
  rw [hsplit args, hsplit args', marks_append hfree, marks_append hfree, List.append_cancel_left_eq]

theorem parseLine_of_marks {line line' : Bytes} (h : ReplacesIn line line')
    (hmarks : marks delimits line = marks delimits line') (lineNum : ℕ) :
    parseLine lineNum line = parseLine lineNum line' := by
  cases h with
  | other _ => rfl
  | step type hindent hgap hargs =>
    rw [marks_step type hindent hgap] at hmarks
    rw [parseLine_args type hindent hgap, parseLine_args type hindent hgap, parseFields_eq,
      parseFields_eq, tokens_of_marks hargs hmarks]

theorem parseDsl_of_sameDelimiters {dsl dsl' : Bytes} (h : ReplacesPipes dsl dsl')
    (hsame : SameDelimiters dsl dsl') : Scenario.parseDsl dsl' = Scenario.parseDsl dsl := by
  have hread : List.Forall₂ (fun line line' => ∀ n, parseLine n line = parseLine n line')
      (lines dsl) (lines dsl') := by
    rw [ReplacesPipes] at h
    rw [SameDelimiters] at hsame
    generalize lines dsl = ls at h hsame
    generalize lines dsl' = ls' at h hsame
    induction h with
    | nil => exact .nil
    | cons hline _ ih =>
      cases hsame with
      | cons hmarks hrest => exact .cons (parseLine_of_marks hline hmarks) (ih hrest)
  rw [parseDsl_eq, parseDsl_eq, collect_congr hread]

/-! ### What a buried SOH does -/

theorem not_leadingTag_soh (rest : Bytes) : ¬ LeadingTag (soh :: rest) := by
  intro ⟨n, lit, tail, htext, hlit, _⟩
  cases lit with
  | nil => exact hlit.ne_nil rfl
  | cons b lit =>
    obtain ⟨rfl, _⟩ := List.cons.inj htext
    exact absurd (hlit.mem List.mem_cons_self) (by decide)

/-- A SOH that begins a token is not trimmed, and spoils the tag. -/
theorem readField_soh {lineNum : ℕ} {a : Bytes} (ha : ∀ b ∈ a, isSpace b = true) (c : Bytes)
    (y : Option Field) : readField lineNum (a ++ soh :: c) ≠ .ok y := by
  have hspace : isSpace soh = false := by decide
  have hfree : equals ∉ a := by
    intro h
    exact absurd (ha _ h) (by decide)
  have hne : equals ≠ soh := by decide
  by_cases heq : equals ∈ c
  · obtain ⟨tag, v, rfl, htag, _⟩ := exists_equals_split heq
    have hsplit : a ++ soh :: (tag ++ equals :: v) = (a ++ soh :: tag) ++ equals :: v := by simp
    have hfree' : equals ∉ a ++ soh :: tag := by simp [hfree, htag, hne]
    have htrim : trimSpace (a ++ soh :: tag) = soh :: tag.rdropWhile isSpace := by
      rw [trimSpace, trim_append_cons hspace, List.dropWhile_eq_nil_iff.mpr ha, List.nil_append]
    have hlead : ¬ LeadingTag (trimSpace (a ++ soh :: tag)) := by
      rw [htrim]
      exact not_leadingTag_soh _
    rw [hsplit, readField_badTag hfree' hlead]
    simp
  · have hsoh : soh ∈ trimSpace (a ++ soh :: c) := mem_trim_of_mem (by simp) hspace
    rw [readField_noEquals (List.ne_nil_of_mem hsoh) (by simp [hfree, heq, hne])]
    simp

/-- A token and a longer one that goes on with a SOH are not both read as the same field. -/
theorem readField_extended {lineNum : ℕ} {a c : Bytes} {x y : Option Field}
    (hx : readField lineNum a = .ok x) (hy : readField lineNum (a ++ soh :: c) = .ok y) :
    ∃ f g, x = some f ∧ y = some g ∧ f ≠ g := by
  cases x with
  | none => exact absurd hy (readField_soh (trim_eq_nil_iff.mp (readField_none hx)) c y)
  | some f =>
    obtain ⟨tag, v, rfl, htag, hlead, hvalue⟩ := readField_some hx
    have hlonger : (tag ++ equals :: v) ++ soh :: c = tag ++ equals :: (v ++ soh :: c) := by simp
    rw [hlonger, readField_value htag hlead] at hy
    refine ⟨f, _, rfl, (Except.ok.inj hy).symm, fun h => ?_⟩
    have hsame : trimSpace (v ++ soh :: c) = trimSpace v :=
      (congrArg Field.value h).symm.trans hvalue
    exact trim_append_cons_ne (by decide) v c hsame

theorem heads_differ {lineNum m n : ℕ} {a c : Bytes} {pieces others : List Bytes}
    {fields : List Field}
    (h : collect (fun _ => readField lineNum) m (a :: pieces) = .ok fields)
    (h' : collect (fun _ => readField lineNum) n ((a ++ soh :: c) :: others) = .ok fields) :
    False := by
  obtain ⟨x, rest, hx, _, hfields⟩ := collect_cons_eq_ok_iff.mp h
  obtain ⟨y, rest', hy, _, hfields'⟩ := collect_cons_eq_ok_iff.mp h'
  obtain ⟨f, g, rfl, rfl, hne⟩ := readField_extended hx hy
  rw [hfields] at hfields'
  exact hne (List.cons.inj hfields').1

/-- If both texts give the same fields, the same places separate them. The text `a` in front
is the token that was begun. -/
theorem marks_of_fields {lineNum m n : ℕ} {a args args' : Bytes} {fields : List Field}
    (h : Replaces args args')
    (hread : collect (fun _ => readField lineNum) m ((tokens args).modifyHead (a ++ ·)) =
      .ok fields)
    (hread' : collect (fun _ => readField lineNum) n ((tokens args').modifyHead (a ++ ·)) =
      .ok fields) : marks delimits args = marks delimits args' := by
  induction h generalizing m n a fields with
  | nil => rfl
  | @cons b b' args args' hb hargs ih =>
    obtain ⟨q, qs, hq⟩ := exists_split_eq delimits args
    obtain ⟨r, rs, hr⟩ := exists_split_eq delimits args'
    have htokens : tokens args = q :: qs := hq
    have htokens' : tokens args' = r :: rs := hr
    rw [tokens, split] at hread
    rw [tokens, split] at hread'
    rw [marks, marks]
    cases hd : delimits b args with
    | true =>
      rw [if_pos hd, List.modifyHead_cons, List.append_nil] at hread
      cases hd' : delimits b' args' with
      | true =>
        rw [if_pos hd', List.modifyHead_cons, List.append_nil] at hread'
        obtain ⟨x, rest, hx, hrest, hfields⟩ := collect_cons_eq_ok_iff.mp hread
        obtain ⟨y, rest', hy, hrest', hfields'⟩ := collect_cons_eq_ok_iff.mp hread'
        obtain rfl : x = y := Except.ok.inj (hx.symm.trans hy)
        rw [hfields, List.append_cancel_left_eq] at hfields'
        subst hfields'
        rw [ih (a := []) (by rwa [modifyHead_nil_append]) (by rwa [modifyHead_nil_append])]
      | false =>
        -- the place is a SOH in the second text and not marked there
        have hsoh : b' = soh := by
          rcases hb with rfl | ⟨_, hb⟩
          · apply (eq_of_delimits hd).resolve_left
            rintro rfl
            rw [delimits_pipe] at hd'
            cases hd'
          · exact hb
        rw [hd', if_neg (by simp), hr, List.modifyHead_cons, List.modifyHead_cons, hsoh] at hread'
        exact absurd hread' fun h => heads_differ hread h
    | false =>
      have hpipe : b ≠ pipe := by
        rintro rfl
        rw [delimits_pipe] at hd
        cases hd
      obtain rfl : b' = b := hb.resolve_right fun h => hpipe h.1
      rw [hd, if_neg (by simp), hq, List.modifyHead_cons, List.modifyHead_cons] at hread
      cases hd' : delimits b' args' with
      | true =>
        have hsoh : b' = soh := (eq_of_delimits hd').resolve_left hpipe
        rw [hd', if_pos rfl, List.modifyHead_cons, List.append_nil] at hread'
        rw [hsoh] at hread
        exact absurd hread fun h => heads_differ hread' h
      | false =>
        rw [hd', if_neg (by simp), hr, List.modifyHead_cons, List.modifyHead_cons] at hread'
        have hhead (piece : Bytes) (pieces : List Bytes) : (a ++ b' :: piece) :: pieces =
            (piece :: pieces).modifyHead ((a ++ [b']) ++ ·) := by simp
        rw [hhead] at hread hread'
        rw [ih (a := a ++ [b']) (by rw [htokens]; exact hread) (by rw [htokens']; exact hread')]

theorem marks_of_parseLine {n : ℕ} {line line' : Bytes} {item : Option ScenarioStep}
    (h : ReplacesIn line line') (hread : parseLine n line = .ok item)
    (hread' : parseLine n line' = .ok item) :
    marks delimits line = marks delimits line' := by
  cases h with
  | other _ => rfl
  | @step indent args args' gap type hindent hgap hargs =>
    rw [marks_step type hindent hgap]
    rw [parseLine_args type hindent hgap, parseFields_eq] at hread hread'
    cases hfields : collect (fun _ => readField n) 1 (tokens args) with
    | error e =>
      rw [hfields] at hread
      cases hread
    | ok fields =>
      cases hfields' : collect (fun _ => readField n) 1 (tokens args') with
      | error e =>
        rw [hfields'] at hread'
        cases hread'
      | ok fields' =>
        rw [hfields] at hread
        rw [hfields'] at hread'
        have hstep := Except.ok.inj (hread.trans hread'.symm)
        have hsame : fields = fields' := congrArg ScenarioStep.fields (Option.some.inj hstep)
        subst hsame
        exact marks_of_fields (a := []) hargs (by rwa [modifyHead_nil_append])
          (by rwa [modifyHead_nil_append])

theorem isSome_of_replacesIn {n : ℕ} {line line' : Bytes} {item item' : Option ScenarioStep}
    (h : ReplacesIn line line') (hread : parseLine n line = .ok item)
    (hread' : parseLine n line' = .ok item') : item.isSome = item'.isSome := by
  cases h with
  | other _ => rw [Except.ok.inj (hread.symm.trans hread')]
  | step type hindent hgap _ =>
    have hsome (args : Bytes) (item : Option ScenarioStep)
        (h : (parseFields n args).map (fun fields => some (⟨type, fields⟩ : ScenarioStep)) =
          .ok item) : item.isSome = true := by
      cases hfields : parseFields n args with
      | error e =>
        rw [hfields] at h
        cases h
      | ok fields =>
        rw [hfields] at h
        rw [← Except.ok.inj h]
        rfl
    rw [parseLine_args type hindent hgap] at hread hread'
    rw [hsome _ _ hread, hsome _ _ hread']

theorem sameDelimiters_of_lines {ls ls' : List Bytes} {n : ℕ} {steps : List ScenarioStep}
    (h : List.Forall₂ ReplacesIn ls ls') (hread : collect parseLine n ls = .ok steps)
    (hread' : collect parseLine n ls' = .ok steps) :
    List.Forall₂ (fun line line' => marks delimits line = marks delimits line') ls ls' := by
  induction h generalizing n steps with
  | nil => exact .nil
  | cons hline _ ih =>
    obtain ⟨item, rest, hitem, hrest, hsteps⟩ := collect_cons_eq_ok_iff.mp hread
    obtain ⟨item', rest', hitem', hrest', hsteps'⟩ := collect_cons_eq_ok_iff.mp hread'
    have hsome := isSome_of_replacesIn hline hitem hitem'
    rw [hsteps] at hsteps'
    obtain ⟨rfl, rfl⟩ : item = item' ∧ rest = rest' := by
      cases item with
      | none =>
        cases item' with
        | none => exact ⟨rfl, hsteps'⟩
        | some step' => cases hsome
      | some step =>
        cases item' with
        | none => cases hsome
        | some step' =>
          obtain ⟨rfl, hrest⟩ := List.cons.inj hsteps'
          exact ⟨rfl, hrest⟩
    exact .cons (marks_of_parseLine hline hitem hitem') (ih hrest hrest')

/-! ### Delimiters in values -/

/-- A SOH stands behind a `=` of the same field, and a pipe behind it. -/
def Buried (args : Bytes) : Prop :=
  ∃ a b c d, args = a ++ equals :: (b ++ soh :: (c ++ pipe :: d)) ∧ pipe ∉ b

theorem unmarked_of_pipe {a : Bytes} (h : pipe ∉ a) (rest : Bytes) :
    Unmarked delimits a (pipe :: rest) := by
  intro u y v ha
  apply delimits_eq_false
  · rintro rfl
    exact h (by simp [ha])
  · intro _
    simp

theorem exists_token_of_pipe {mid : Bytes} (hmid : pipe ∉ mid) (a rest : Bytes) :
    ∃ token ∈ tokens (a ++ (mid ++ pipe :: rest)), ∃ pre, token = pre ++ mid := by
  induction hn : a.length using Nat.strong_induction_on generalizing a with
  | _ n ih =>
    by_cases ha : pipe ∈ a
    · obtain ⟨s, t, rfl, hs⟩ := List.eq_append_cons_of_mem ha
      have hlt : t.length < n := by
        rw [List.length_append, List.length_cons] at hn
        omega
      obtain ⟨token, hmem, hpre⟩ := ih t.length hlt t rfl
      have hsplit : s ++ pipe :: t ++ (mid ++ pipe :: rest) =
          s ++ pipe :: (t ++ (mid ++ pipe :: rest)) := by simp
      refine ⟨token, ?_, hpre⟩
      rw [hsplit, tokens]
      exact List.mem_of_mem_tail (mem_split_append_cons (delimits_pipe _) hmem)
    · have hfree : pipe ∉ a ++ mid := by simp [ha, hmid]
      refine ⟨a ++ mid, ?_, a, rfl⟩
      rw [← List.append_assoc, tokens,
        split_append_cons (unmarked_of_pipe hfree rest) (delimits_pipe rest)]
      exact List.mem_cons_self

theorem pipe_notMem_token {args token : Bytes} (h : token ∈ tokens args) : pipe ∉ token := by
  intro hpipe
  obtain ⟨_, _, _, hfree⟩ := exists_of_mem_split h
  obtain ⟨x, y, hxy⟩ := List.append_of_mem hpipe
  have hmark := hfree x pipe y hxy
  rw [delimits_pipe] at hmark
  cases hmark

theorem buried_iff {args : Bytes} :
    Buried args ↔ ∃ token ∈ tokens args, ∃ a v, token = a ++ equals :: v ∧ soh ∈ v := by
  constructor
  · intro ⟨a, b, c, d, hargs, hb⟩
    have hpipe : pipe ∈ c ++ pipe :: d := by simp
    obtain ⟨c', d', hsplit, hc⟩ := List.eq_append_cons_of_mem hpipe
    have hmid : pipe ∉ equals :: (b ++ soh :: c') := by
      have hequals : pipe ≠ equals := by decide
      have hsoh : pipe ≠ soh := by decide
      simp [hequals, hsoh, hb, hc]
    have hjoin : args = a ++ ((equals :: (b ++ soh :: c')) ++ pipe :: d') := by
      rw [hargs, hsplit]
      simp
    obtain ⟨token, hmem, pre, htoken⟩ := exists_token_of_pipe hmid a d'
    exact ⟨token, hjoin ▸ hmem, pre, _, htoken, by simp⟩
  · intro ⟨token, hmem, a, v, htoken, hv⟩
    obtain ⟨pre, post, hargs, hfree⟩ := exists_of_mem_split hmem
    obtain ⟨b, c, rfl⟩ := List.append_of_mem hv
    have hnopipe := pipe_notMem_token hmem
    have hsplit : token = (a ++ equals :: b) ++ soh :: c := by simp [htoken]
    have hmark := hfree _ soh c hsplit
    have hpipe : pipe ∈ c ++ post := by
      by_contra h
      rw [delimits_soh.mpr h] at hmark
      cases hmark
    rw [hsplit] at hnopipe
    simp only [List.mem_append, List.mem_cons, not_or] at hnopipe
    have hpost : pipe ∈ post := (List.mem_append.mp hpipe).resolve_left hnopipe.2.2
    obtain ⟨x, y, rfl⟩ := List.append_of_mem hpost
    refine ⟨pre ++ a, b, c ++ x, y, ?_, hnopipe.1.2.2⟩
    rw [hargs, hsplit]
    simp

theorem soh_mem_value_iff {lineNum : ℕ} {token : Bytes} {f : Field}
    (h : readField lineNum token = .ok (some f)) :
    soh ∈ f.value ↔ ∃ a v, token = a ++ equals :: v ∧ soh ∈ v := by
  obtain ⟨a, v, rfl, ha, _, hvalue⟩ := readField_some h
  rw [hvalue]
  constructor
  · intro hmem
    exact ⟨a, v, rfl, mem_of_mem_trim hmem⟩
  · intro ⟨a', v', hsplit, hmem⟩
    apply mem_trim_of_mem _ (by decide)
    -- the first `=` leaves at least as much behind it as any other
    rcases List.append_eq_append_iff.mp hsplit with ⟨as, ha', htail⟩ | ⟨bs, hbs, htail⟩
    · cases as with
      | nil => exact (List.cons.inj htail).2 ▸ hmem
      | cons x as =>
        rw [(List.cons.inj htail).2]
        simp [hmem]
    · cases bs with
      | nil => exact (List.cons.inj htail).2 ▸ hmem
      | cons x bs =>
        obtain ⟨rfl, _⟩ := List.cons.inj htail
        exact absurd (by simp [hbs]) ha

def CleanValues (fields : List Field) : Prop := ∀ f ∈ fields, soh ∉ f.value ∧ pipe ∉ f.value

theorem cleanValues_iff {lineNum : ℕ} {args : Bytes} {fields : List Field}
    (h : parseFields lineNum args = .ok fields) : CleanValues fields ↔ ¬ Buried args := by
  rw [parseFields_eq] at h
  obtain ⟨hall, hback⟩ := mem_of_collect h
  rw [buried_iff]
  constructor
  · intro hclean ⟨token, hmem, a, v, htoken, hv⟩
    obtain ⟨_, item, hread, hin⟩ := hall token hmem
    have hitem : readField lineNum token = .ok item := hread
    cases item with
    | none => exact readField_ne_none (by simp [htoken]) hitem
    | some f => exact (hclean f (hin f rfl)).1 ((soh_mem_value_iff hitem).mpr ⟨a, v, htoken, hv⟩)
  · intro hclean f hf
    obtain ⟨_, token, hmem, hread⟩ := hback f hf
    have hitem : readField lineNum token = .ok (some f) := hread
    constructor
    · intro hsoh
      obtain ⟨a, v, htoken, hv⟩ := (soh_mem_value_iff hitem).mp hsoh
      exact hclean ⟨token, hmem, a, v, htoken, hv⟩
    · intro hpipe
      obtain ⟨a, v, rfl, _, _, hvalue⟩ := readField_some hitem
      rw [hvalue] at hpipe
      exact pipe_notMem_token hmem (by simp [mem_of_mem_trim hpipe])

theorem cleanSteps_iff {dsl : Bytes} {sc : Scenario} (h : Scenario.parseDsl dsl = .ok sc) :
    (∀ step ∈ sc.steps, CleanValues step.fields) ↔
      ∀ line ∈ lines dsl, IsStepLine line → ¬ Buried (behindWord (trimSpace line)) := by
  obtain ⟨hall, hback⟩ := mem_of_collect (parseDsl_eq_ok_iff.mp h).1
  constructor
  · intro hclean line hmem hstep
    obtain ⟨n, item, hread, hin⟩ := hall line hmem
    cases item with
    | none => exact absurd hread (parseLine_ne_none hstep)
    | some step =>
      rw [← cleanValues_iff (parseLine_some hread).2.2]
      exact hclean step (hin step rfl)
  · intro hclean step hmem
    obtain ⟨n, line, hline, hread⟩ := hback step hmem
    obtain ⟨hstep, _, hfields⟩ := parseLine_some hread
    rw [cleanValues_iff hfields]
    exact hclean line hline hstep

theorem replacesPipes_send {args args' : Bytes} (h : Replaces args args')
    (hlf : lf ∉ ActionType.send.toString ++ 32 :: args)
    (hlf' : lf ∉ ActionType.send.toString ++ 32 :: args') :
    ReplacesPipes (ActionType.send.toString ++ 32 :: args)
      (ActionType.send.toString ++ 32 :: args') := by
  rw [ReplacesPipes, lines, lines, List.splitOn_eq_singleton hlf, List.splitOn_eq_singleton hlf']
  exact .cons (.step .send (List.forall_mem_nil _) rfl h) .nil

/-- Where the same places separate fields, replaced pipes change nothing. In an accepted
script this is the only case, and the values are free of delimiters exactly when no step
line buries a SOH. -/
theorem replacesPipes_iff {dsl dsl' : Bytes} (h : ReplacesPipes dsl dsl') :
    (SameDelimiters dsl dsl' → Scenario.parseDsl dsl' = Scenario.parseDsl dsl) ∧
      ∀ sc, Scenario.parseDsl dsl = .ok sc →
        (Scenario.parseDsl dsl' = .ok sc → SameDelimiters dsl dsl') ∧
          ((∀ step ∈ sc.steps, CleanValues step.fields) ↔
            ∀ line ∈ lines dsl, IsStepLine line → ¬ Buried (behindWord (trimSpace line))) := by
  refine ⟨parseDsl_of_sameDelimiters h, fun sc hok => ⟨fun hok' => ?_, cleanSteps_iff hok⟩⟩
  exact sameDelimiters_of_lines h (parseDsl_eq_ok_iff.mp hok).1 (parseDsl_eq_ok_iff.mp hok').1

theorem replacesPipes_last :
    (SameDelimiters (ascii "SEND 35=A|55=B|54=1") (ascii "SEND 35=A|55=B\x0154=1") →
        Scenario.parseDsl (ascii "SEND 35=A|55=B\x0154=1") =
          Scenario.parseDsl (ascii "SEND 35=A|55=B|54=1")) ∧
      ∀ sc, Scenario.parseDsl (ascii "SEND 35=A|55=B|54=1") = .ok sc →
        (Scenario.parseDsl (ascii "SEND 35=A|55=B\x0154=1") = .ok sc →
            SameDelimiters (ascii "SEND 35=A|55=B|54=1") (ascii "SEND 35=A|55=B\x0154=1")) ∧
          ((∀ step ∈ sc.steps, CleanValues step.fields) ↔
            ∀ line ∈ lines (ascii "SEND 35=A|55=B|54=1"), IsStepLine line →
              ¬ Buried (behindWord (trimSpace line))) := by
  have hreplaces : Replaces (ascii "35=A|55=B|54=1") (ascii "35=A|55=B\x0154=1") := by
    decide +kernel
  exact replacesPipes_iff (replacesPipes_send hreplaces (by decide +kernel) (by decide +kernel))

/-- The replaced pipe and the second field end up in the value of the first one. -/
theorem replacesPipes_first :
    ¬ ∀ dsl dsl' : Bytes, ReplacesPipes dsl dsl' →
      Scenario.parseDsl dsl' = Scenario.parseDsl dsl := by
  intro h
  have hreplaces : Replaces (ascii "35=A|55=B|54=1") (ascii "35=A\x0155=B|54=1") := by
    decide +kernel
  have hread : Scenario.parseDsl (ascii "SEND 35=A\x0155=B|54=1") =
      .ok ⟨ascii "ParsedScenario", [⟨.send, [⟨35, ascii "A\x0155=B"⟩, ⟨54, ascii "1"⟩]⟩]⟩ := by
    decide
  have hsame := h (ascii "SEND 35=A|55=B|54=1") (ascii "SEND 35=A\x0155=B|54=1")
    (replacesPipes_send hreplaces (by decide +kernel) (by decide +kernel))
  rw [hread] at hsame
  have hread' : Scenario.parseDsl (ascii "SEND 35=A|55=B|54=1") =
      .ok ⟨ascii "ParsedScenario",
        [⟨.send, [⟨35, ascii "A"⟩, ⟨55, ascii "B"⟩, ⟨54, ascii "1"⟩]⟩]⟩ := by decide
  rw [hread'] at hsame
  exact absurd hsame (by decide)

end Fixure
