import Fixure.Verdict

/-!
# Which messages satisfy an EXPECT step

The runner asks the session about every message and heeds one of its answers, the
disconnect. A message that the session turned away satisfies an EXPECT step like any
other, so exactly the runs in which no such message has the expected fields keep to the
sequence numbers.
-/

namespace Fixure
open Process

/-! ### What the session turns away -/

/-- The message lacks a header field, or a session that is logged on sees a gap, a duplicate or
an expected reset that names no number. -/
def Refuses (s : FixSession) (msg : FixMessage) : Prop :=
  msg.getField 35 = none ∨ msg.getInt 34 = none ∨
    s.loggedOn = true ∧ ∃ n, msg.getInt 34 = some n ∧
      (s.nextInSeq < n ∨ n < s.nextInSeq ∧ msg.getField 43 = some (ascii "Y") ∨
        n = s.nextInSeq ∧ msg.getField 35 = some (ascii "4") ∧ msg.getInt 36 = none)

/-- The message opened the session or came in its turn, and was not turned away. -/
structure Taken (before : FixSession) (msg : FixMessage) (answer : ProcessResult) : Prop where
  inTurn : answer.action = .sendLogon ∨ msg.getInt 34 = some before.nextInSeq
  noGap : answer.action ≠ .sendResendRequest
  noReject : answer.action ≠ .sendReject
  noDuplicate : answer.info ≠ ascii "Duplicate message ignored"

section Session
variable {s s' : FixSession} {msg : FixMessage} {r : ProcessResult}

theorem not_refuses_of_expected {t : Bytes} (h35 : msg.getField 35 = some t)
    (h34 : msg.getInt 34 = some s.nextInSeq)
    (h : t = ascii "4" → msg.getInt 36 ≠ none) : ¬ Refuses s msg := by
  intro hr
  rcases hr with hr | hr | ⟨_, n, hn, hr⟩
  · rw [h35] at hr
    cases hr
  · rw [h34] at hr
    cases hr
  · obtain rfl := Option.some.inj (h34.symm.trans hn)
    rcases hr with hr | ⟨hr, _⟩ | ⟨_, h4, h36⟩
    · exact Int32.lt_irrefl hr
    · exact Int32.lt_irrefl hr
    · exact h (Option.some.inj (h35.symm.trans h4)) h36

theorem not_refuses_of_loggedOff {t : Bytes} {n : Int32} (h35 : msg.getField 35 = some t)
    (h34 : msg.getInt 34 = some n) (hoff : s.loggedOn = false) : ¬ Refuses s msg := by
  intro hr
  rcases hr with hr | hr | ⟨hon, _⟩
  · rw [h35] at hr
    cases hr
  · rw [h34] at hr
    cases hr
  · rw [hoff] at hon
    cases hon

theorem expected_taken_iff {t : Bytes} (h35 : msg.getField 35 = some t)
    (h34 : msg.getInt 34 = some s.nextInSeq) (hon : s.loggedOn = true)
    (h : AnswersExpected msg t r) : Taken s msg r ↔ ¬ Refuses s msg := by
  constructor
  · intro htaken
    apply not_refuses_of_expected h35 h34
    intro h4 h36
    exact htaken.noReject (h.reject_iff.mpr ⟨h4, h36⟩)
  · intro hnot
    refine ⟨Or.inr h34, h.noGap, ?_, h.noDuplicate⟩
    intro hreject
    obtain ⟨rfl, h36⟩ := h.reject_iff.mp hreject
    exact hnot (Or.inr (Or.inr ⟨hon, _, h34, Or.inr (Or.inr ⟨rfl, h35, h36⟩)⟩))

theorem taken_iff (h : Received s msg s' r) (hstays : r.action ≠ .disconnect) :
    Taken s msg r ↔ ¬ Refuses s msg := by
  cases h with
  | missingType h35 =>
    exact iff_of_false (fun h => h.noReject rfl) (fun h => h (Or.inl h35))
  | missingSeqNum _ h34 =>
    exact iff_of_false (fun h => h.noReject rfl) (fun h => h (Or.inr (Or.inl h34)))
  | notLogon _ _ _ _ => exact absurd rfl hstays
  | logon h35 h34 hoff =>
    apply iff_of_true
    · exact ⟨Or.inl rfl, by simp, by simp, show ascii "Logon processed" ≠ _ by decide⟩
    · exact not_refuses_of_loggedOff h35 h34 hoff
  | expected h35 h34 hon hexp => exact expected_taken_iff h35 h34 hon hexp.answers
  | gap _ h34 hon hlt =>
    apply iff_of_false
    · intro h
      exact h.noGap rfl
    · intro h
      exact h (Or.inr (Or.inr ⟨hon, _, h34, Or.inl hlt⟩))
  | duplicate _ h34 hon hlt h43 =>
    apply iff_of_false
    · intro h
      exact h.noDuplicate rfl
    · intro h
      exact h (Or.inr (Or.inr ⟨hon, _, h34, Or.inr (Or.inl ⟨hlt, h43⟩)⟩))
  | tooLow _ _ _ _ _ => exact absurd rfl hstays

theorem not_refuses_of_disconnect (h : Received s msg s' r) (hends : r.action = .disconnect) :
    ¬ Refuses s msg := by
  cases h with
  | notLogon h35 h34 hoff _ => exact not_refuses_of_loggedOff h35 h34 hoff
  | expected h35 h34 _ hexp =>
    obtain rfl := hexp.answers.disconnect_iff.mp hends
    apply not_refuses_of_expected h35 h34
    intro h4
    exact absurd h4 (by decide)
  | tooLow h35 h34 _ hlt h43 =>
    intro hr
    rcases hr with hr | hr | ⟨_, n, hn, hr⟩
    · rw [h35] at hr
      cases hr
    · rw [h34] at hr
      cases hr
    · obtain rfl := Option.some.inj (h34.symm.trans hn)
      rcases hr with hr | ⟨_, hdup⟩ | ⟨rfl, _⟩
      · exact Int32.lt_asymm hr hlt
      · exact h43 hdup
      · exact Int32.lt_irrefl hlt
  | _ => cases hends

end Session

/-! ### Runs -/

/-- The readings of the messages that satisfied an EXPECT step. -/
def satisfying : List Event → List Reading
  | .read r :: .satisfied _ :: es => r :: satisfying es
  | _ :: es => satisfying es
  | [] => []

/-- The fields of the scenario step that read the message. -/
def expectedFields (steps : List ScenarioStep) (r : Reading) : List Field :=
  match steps[r.stepsExecuted - 1]? with
  | some step => step.fields
  | none => []

section Run
variable {W : Type} {env : Environment W} {st st' : RunState W} {es es' : List Event}
  {steps : List ScenarioStep}

/-- The control state stands where the number of steps says. -/
def Located (steps : List ScenarioStep) (st : RunState W) : Prop :=
  match st.control with
  | .stepping todo => ∃ done, steps = done ++ todo ∧ st.stepsExecuted = done.length
  | .waiting fields _ todo =>
    ∃ done step, steps = done ++ step :: todo ∧ st.stepsExecuted = done.length + 1 ∧
      step.fields = fields
  | .polling fields _ todo =>
    ∃ done step, steps = done ++ step :: todo ∧ st.stepsExecuted = done.length + 1 ∧
      step.fields = fields
  | _ => True

theorem located_begun {step : ScenarioStep} {todo : List ScenarioStep}
    (hc : st.control = .stepping (step :: todo)) (h : Located steps st) :
    ∃ done, steps = done ++ step :: todo ∧ st.stepsExecuted = done.length := by
  rw [Located, hc] at h
  exact h

theorem located_step (h : Stepped env st st' es) (hloc : Located steps st) : Located steps st' := by
  have hstepping {step : ScenarioStep} {todo : List ScenarioStep}
      (hc : st.control = .stepping (step :: todo)) :
      ∃ done, steps = done ++ todo ∧ st.stepsExecuted + 1 = done.length := by
    obtain ⟨done, rfl, hn⟩ := located_begun hc hloc
    exact ⟨done ++ [step], by simp, by simp [hn]⟩
  have hwaiting {fields : List Field} {startTime : ℤ} {todo : List ScenarioStep}
      (hc : st.control = .polling fields startTime todo) :
      ∃ done step, steps = done ++ step :: todo ∧ st.stepsExecuted = done.length + 1 ∧
        step.fields = fields := by
    rw [Located, hc] at hloc
    exact hloc
  cases h with
  | connect hc _ _ => exact hstepping hc
  | disconnect hc _ => exact hstepping hc
  | send hc _ _ _ _ _ _ => exact hstepping hc
  | mock hc _ => exact hstepping hc
  | expect hc _ =>
    obtain ⟨done, rfl, hn⟩ := located_begun hc hloc
    exact ⟨done, _, rfl, congrArg Nat.succ hn, rfl⟩
  | inTime hc =>
    rw [Located, hc] at hloc
    exact hloc
  | receive hc _ _ => exact hwaiting hc
  | satisfy hc _ _ _ _ =>
    obtain ⟨done, step, rfl, hn, _⟩ := hwaiting hc
    exact ⟨done ++ [step], by simp, hn.trans (by simp)⟩
  | respond hc _ _ _ _ _ => exact hwaiting hc
  | ignore hc _ _ _ _ _ => exact hwaiting hc
  | _ => trivial

theorem expectedFields_eq {fields : List Field} {startTime : ℤ} {todo : List ScenarioStep}
    (hc : st.control = .polling fields startTime todo) (hloc : Located steps st) (raw : Bytes)
    (msg : FixMessage) : expectedFields steps (st.reading raw msg) = fields := by
  rw [Located, hc] at hloc
  obtain ⟨done, step, rfl, hn, rfl⟩ := hloc
  have hat : (done ++ step :: todo)[st.stepsExecuted - 1]? = some step := by
    rw [hn, Nat.add_sub_cancel, List.getElem?_append_right le_rfl, Nat.sub_self]
    rfl
  simp only [expectedFields, RunState.reading, hat]

/-- No list of events starts with the satisfaction of a step. -/
def StartsFresh (es : List Event) : Prop := ∀ m, es.head? ≠ some (.satisfied m)

theorem satisfying_append {xs ys : List Event} (h : StartsFresh ys) :
    satisfying (xs ++ ys) = satisfying xs ++ satisfying ys := by
  induction xs using satisfying.induct with
  | case1 r m xs ih =>
    rw [List.cons_append, List.cons_append, satisfying, ih, satisfying]
    rfl
  | case2 e xs hne ih =>
    cases xs with
    | nil =>
      cases e with
      | read r =>
        cases ys with
        | nil => rfl
        | cons y ys =>
          cases y with
          | satisfied m => exact absurd rfl (h m)
          | _ => rfl
      | _ => rfl
    | cons x xs =>
      cases e with
      | read r =>
        cases x with
        | satisfied m => exact absurd rfl (hne r m xs rfl)
        | _ => exact ih
      | _ => exact ih
  | case3 => rfl

def KeepsOrder (es : List Event) : Prop :=
  ∀ r ∈ satisfying es, Taken r.before r.msg r.answer

def OffersInOrder (steps : List ScenarioStep) (es : List Event) : Prop :=
  ∀ r ∈ readings es, Contains r.msg (expectedFields steps r) → ¬ Refuses r.before r.msg

theorem keepsOrder_quiet (hs : satisfying es = []) (hr : readings es = []) :
    KeepsOrder es ↔ OffersInOrder steps es := by
  simp [KeepsOrder, OffersInOrder, hs, hr]

theorem keepsOrder_unmatched {raw : Bytes} {msg : FixMessage} {fields : List Field}
    {startTime : ℤ} {todo : List ScenarioStep} (hloc : Located steps st)
    (hc : st.control = .polling fields startTime todo) (hm : matchFields msg fields = false)
    (hs : satisfying es = []) (hr : readings es = [st.reading raw msg]) :
    KeepsOrder es ↔ OffersInOrder steps es := by
  rw [KeepsOrder, OffersInOrder, hs, hr]
  apply iff_of_true
  · intro r hr
    exact absurd hr List.not_mem_nil
  · intro r hr hfields
    rw [List.mem_singleton.mp hr, expectedFields_eq hc hloc] at hfields
    exact absurd (matchFields_iff.mpr hfields) (hm ▸ Bool.false_ne_true)

theorem keepsOrder_step (h : Stepped env st st' es) (hloc : Located steps st) :
    StartsFresh es ∧ (KeepsOrder es ↔ OffersInOrder steps es) := by
  have hread (msg : FixMessage) := receiveMessage_received st.session msg
  cases h with
  | sessionDisconnect hc _ _ hd =>
    refine ⟨fun _ hm => (by cases hm), ?_⟩
    apply iff_of_true
    · intro r hr
      exact absurd hr List.not_mem_nil
    · intro r hr _
      rw [List.mem_singleton.mp hr]
      exact not_refuses_of_disconnect (hread _) hd
  | @satisfy fields _ _ raw _ msg hc _ _ hd hm =>
    refine ⟨fun _ hm => (by cases hm), ?_⟩
    have htaken := taken_iff (hread msg) hd
    have hcontains : Contains msg (expectedFields steps (st.reading raw msg)) := by
      rw [expectedFields_eq hc hloc]
      exact matchFields_iff.mp hm
    constructor
    · intro h r hr _
      rw [List.mem_singleton.mp hr]
      exact htaken.mp (h _ List.mem_cons_self)
    · intro h r hr
      rw [List.mem_singleton.mp hr]
      exact htaken.mpr (h _ List.mem_cons_self hcontains)
  | respond hc _ _ _ hm _ =>
    exact ⟨fun _ hm => (by cases hm), keepsOrder_unmatched hloc hc hm rfl rfl⟩
  | ignore hc _ _ _ hm _ =>
    exact ⟨fun _ hm => (by cases hm), keepsOrder_unmatched hloc hc hm rfl rfl⟩
  | mismatch hc _ _ _ hm =>
    exact ⟨fun _ hm => (by cases hm), keepsOrder_unmatched hloc hc hm rfl rfl⟩
  | _ => exact ⟨fun _ hm => (by cases hm), keepsOrder_quiet rfl rfl⟩

/-- In a run, the messages that satisfied EXPECT steps are messages that the session took exactly
when it refuses no message that has the fields its step expects. -/
theorem satisfying_taken_iff {world : W} {session : FixSession} {mocks : List ScenarioStep}
    {scenario : Scenario}
    (hrun : Run (runStep env) (RunState.start world session mocks scenario) es st) :
    KeepsOrder es ↔ OffersInOrder scenario.steps es := by
  have hstart : Located scenario.steps (RunState.start world session mocks scenario) :=
    ⟨[], rfl, rfl⟩
  have hall := hrun.backward
    (fun u es => Located scenario.steps u →
      StartsFresh es ∧ (KeepsOrder es ↔ OffersInOrder scenario.steps es))
    (fun _ => ⟨fun _ hm => (by cases hm), keepsOrder_quiet rfl rfl⟩) ?_
  · exact (hall hstart).2
  · intro u u' es es' hstep ih hloc
    have hstepped := runStep_stepped env hstep
    obtain ⟨hfresh, hiff⟩ := keepsOrder_step hstepped hloc
    obtain ⟨hfresh', hiff'⟩ := ih (located_step hstepped hloc)
    refine ⟨?_, ?_⟩
    · intro m hm
      cases es with
      | nil => exact hfresh' m hm
      | cons e es => exact hfresh m hm
    · have hreadings : readings (es ++ es') = readings es ++ readings es' :=
        List.filterMap_append
      rw [KeepsOrder, OffersInOrder, satisfying_append hfresh', hreadings,
        List.forall_mem_append, List.forall_mem_append]
      exact and_congr hiff hiff'

end Run

theorem satisfying_taken_orders :
    KeepsOrder orderRun.1 ↔ OffersInOrder orderScenario.steps orderRun.1 :=
  @satisfying_taken_iff Script scripted orderRun.2 orderRun.1 sessionScript counterparty []
    orderScenario (run_exec _ _ _)

def gapScenario : Scenario where
  name := ascii "gap"
  steps := [⟨.expect, [⟨35, ascii "A"⟩]⟩, ⟨.expect, [⟨35, ascii "D"⟩]⟩]

/-- The order comes with number 5 where 2 is expected. -/
def gapRun : List Event × RunState Script :=
  exec (runStep scripted) 20 (RunState.start
    { inbox := [ascii "8=F\x019=10\x0135=A\x0134=1\x0110=081\x01",
        ascii "8=F\x019=10\x0135=D\x0134=5\x0110=088\x01"] } counterparty [] gapScenario)

theorem satisfying_taken_gap :
    ¬ ∀ (W : Type) (env : Environment W) (world : W) (session : FixSession)
      (mocks : List ScenarioStep) (scenario : Scenario) (es : List Event) (st : RunState W),
      Run (runStep env) (RunState.start world session mocks scenario) es st →
      KeepsOrder es := by
  intro h
  have hgap : (satisfying gapRun.1).any (fun r => r.answer.action = .sendResendRequest) = true := by
    decide +kernel
  obtain ⟨r, hr, hanswer⟩ := List.any_eq_true.mp hgap
  have hkeeps := h Script scripted _ counterparty [] gapScenario gapRun.1 gapRun.2
    (run_exec _ _ _)
  exact (hkeeps r hr).noGap (of_decide_eq_true hanswer)

end Fixure
