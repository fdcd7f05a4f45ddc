import Fixure.Scripted
import Fixure.Verdict

/-!
# What becomes of a message

The EXPECT steps of a scenario are duties that are met one after the other; each goes with the mock
rules that are registered when it comes up. A message that the runner reads either meets the first
duty that is left, or it is answered by the first rule that fires, or it is passed over as a
heartbeat, or it ends the run. Nothing else is made of it, and no rule fires without a message.
-/

namespace Fixure
open Process

/-! ### Duties -/

structure Duty where
  fields : List Field
  rules : List ScenarioStep

def duties (mocks : List ScenarioStep) : List ScenarioStep → List Duty
  | [] => []
  | step :: steps =>
    match step.type with
    | .expect => ⟨step.fields, mocks⟩ :: duties mocks steps
    | .mock => duties (mocks ++ [step]) steps
    | _ => duties mocks steps

/-- The rule does not fire: the message has not its trigger, or the response cannot be written. -/
def Silent (session : FixSession) (msg : FixMessage) (rule : ScenarioStep) : Prop :=
  ∀ trigger response, rule.fields = trigger :: response →
    msg.getField trigger.tag = some trigger.value →
      ∃ sendingTime buffer : Bytes, buffer.length = 4096 ∧ ∀ text, serializeMessage
        (outgoingFields session (headType (ascii "8") response) sendingTime response) buffer soh ≠
          .ok text

/-- The message has the trigger of the rule, and what goes out is its response. -/
structure FiresWith (session : FixSession) (msg : FixMessage) (rule : ScenarioStep)
    (e : SentEvent) : Prop where
  response : ∃ trigger response sendingTime, rule.fields = trigger :: response ∧
    msg.getField trigger.tag = some trigger.value ∧
    e.fields = outgoingFields session (headType (ascii "8") response) sendingTime response
  written : ∃ buffer : Bytes, buffer.length = 4096 ∧
    serializeMessage e.fields buffer soh = .ok e.text
  sender_eq : e.sender = .mock

/-- The first of the rules that fires sends its response. -/
def Answers (rules : List ScenarioStep) (r : Reading) (e : SentEvent) : Prop :=
  ∃ earlier rule later, rules = earlier ++ rule :: later ∧
    (∀ other ∈ earlier, Silent (r.before.receiveMessage r.msg).1 r.msg other) ∧
    FiresWith (r.before.receiveMessage r.msg).1 r.msg rule e

/-- An event that makes nothing of a message. -/
def Event.Quiet : Event → Prop
  | .read _ => False
  | .satisfied _ => False
  | .sent e => e.sender = .scenario
  | _ => True

/-- The message is none that meets the duty, and no rule answers it. -/
structure Unanswered (duty : Duty) (r : Reading) : Prop where
  settled : Settled r
  unmet : ¬ Contains r.msg duty.fields
  silent : ∀ rule ∈ duty.rules, Silent (r.before.receiveMessage r.msg).1 r.msg rule

/-- Events in which every message is dealt with as the duties that are left demand. -/
inductive Dealt : List Duty → List Event → Prop
  | nil {ds} : Dealt ds []
  | quiet {ds e es} : e.Quiet → Dealt ds es → Dealt ds (e :: es)
  | met {d ds r es} : Settled r → Contains r.msg d.fields → Dealt ds es →
      Dealt (d :: ds) (.read r :: .satisfied r.msg :: es)
  | answered {d ds r e es} : Settled r → ¬ Contains r.msg d.fields → Answers d.rules r e →
      Dealt (d :: ds) es → Dealt (d :: ds) (.read r :: .sent e :: es)
  | passed {d ds r es} : Unanswered d r → IsHeartbeatOrTest r.msg → Dealt (d :: ds) es →
      Dealt (d :: ds) (.read r :: es)
  | mismatched {d ds r} : Unanswered d r → ¬ IsHeartbeatOrTest r.msg → Dealt (d :: ds) [.read r]
  | disconnected {d ds r} : r.answer.action = .disconnect → Dealt (d :: ds) [.read r]

/-! ### The rules in their order -/

section Rules
variable {W : Type} (env : Environment W)

theorem processMocks_triggered {msg : FixMessage} {rule : ScenarioStep}
    {trigger : Field} {response : List Field} (hf : rule.fields = trigger :: response)
    (htrigger : msg.getField trigger.tag = some trigger.value) (rules : List ScenarioStep)
    (world : W) (session : FixSession) :
    processMocks env msg (rule :: rules) world session =
      let respFields := outgoingFields session (headType (ascii "8") response)
        (getSendingTime env.gmtime (env.systemNow world).1) response
      let world := (env.systemNow world).2
      match serializeMessage respFields (env.serializeBuf world) soh with
      | .ok text => (true, (env.send world text).2, session.onMessageSent,
          [.sent ⟨.mock, respFields, text, (env.send world text).1⟩])
      | .error _ => processMocks env msg rules world session := by
  rw [processMocks]
  simp only [hf, if_pos htrigger]
  rfl

theorem processMocks_fires (msg : FixMessage) (rules : List ScenarioStep) (world : W)
    (session : FixSession) :
    (∃ world', processMocks env msg rules world session = (false, world', session, []) ∧
        ∀ rule ∈ rules, Silent session msg rule) ∨
      ∃ world' e earlier rule later, processMocks env msg rules world session =
          (true, world', session.onMessageSent, [.sent e]) ∧
        rules = earlier ++ rule :: later ∧ (∀ other ∈ earlier, Silent session msg other) ∧
        FiresWith session msg rule e := by
  induction rules generalizing world with
  | nil => exact .inl ⟨world, rfl, by simp⟩
  | cons rule rules ih =>
    have hlater (world' : W) (hsilent : Silent session msg rule)
        (heq : processMocks env msg (rule :: rules) world session =
          processMocks env msg rules world' session) :
        (∃ world', processMocks env msg (rule :: rules) world session =
            (false, world', session, []) ∧ ∀ other ∈ rule :: rules, Silent session msg other) ∨
          ∃ world' e earlier fired later, processMocks env msg (rule :: rules) world session =
              (true, world', session.onMessageSent, [.sent e]) ∧
            rule :: rules = earlier ++ fired :: later ∧
            (∀ other ∈ earlier, Silent session msg other) ∧ FiresWith session msg fired e := by
      rw [heq]
      rcases ih world' with ⟨world'', hnone, hall⟩ |
        ⟨world'', e, earlier, fired, later, hsent, rfl, hearlier, hfires⟩
      · exact .inl ⟨world'', hnone, List.forall_mem_cons.mpr ⟨hsilent, hall⟩⟩
      · exact .inr ⟨world'', e, rule :: earlier, fired, later, hsent, rfl,
          List.forall_mem_cons.mpr ⟨hsilent, hearlier⟩, hfires⟩
    cases hf : rule.fields with
    | nil =>
      refine hlater world (fun trigger response h => ?_) (by simp only [processMocks, hf])
      rw [hf] at h
      cases h
    | cons trigger response =>
      by_cases htrigger : msg.getField trigger.tag = some trigger.value
      swap
      · refine hlater world (fun _ _ h htrigger' => ?_)
          (by simp only [processMocks, hf, if_neg htrigger])
        obtain ⟨rfl, _⟩ := List.cons.inj (hf.symm.trans h)
        exact absurd htrigger' htrigger
      have htriggered := processMocks_triggered env hf htrigger rules world session
      have hbuffer := env.serializeBuf_length (env.systemNow world).2
      cases hwrite : serializeMessage (outgoingFields session (headType (ascii "8") response)
          (getSendingTime env.gmtime (env.systemNow world).1) response)
          (env.serializeBuf (env.systemNow world).2) soh with
      | error errc =>
        simp only [hwrite] at htriggered
        refine hlater (env.systemNow world).2 (fun _ _ h _ => ?_) htriggered
        obtain ⟨_, rfl⟩ := List.cons.inj (hf.symm.trans h)
        refine ⟨getSendingTime env.gmtime (env.systemNow world).1, _, hbuffer, fun text htext => ?_⟩
        rw [hwrite] at htext
        cases htext
      | ok text =>
        simp only [hwrite] at htriggered
        exact .inr ⟨_, _, [], rule, rules, htriggered, rfl, by simp,
          ⟨trigger, response, _, hf, htrigger, rfl⟩, ⟨_, hbuffer, hwrite⟩, rfl⟩

end Rules

/-! ### The steps -/

section Run
variable {W : Type} {env : Environment W} {st st' : RunState W} {es es' : List Event}

/-- The duties that are left. -/
def RunState.due (st : RunState W) : List Duty :=
  match st.control with
  | .stepping todo => duties st.activeMocks todo
  | .waiting fields _ todo => ⟨fields, st.activeMocks⟩ :: duties st.activeMocks todo
  | .polling fields _ todo => ⟨fields, st.activeMocks⟩ :: duties st.activeMocks todo
  | .returned _ => []
  | .undefined => []

def RunState.Over (st : RunState W) : Prop :=
  match st.control with
  | .returned _ => True
  | .undefined => True
  | _ => False

/-- From the state on, the messages are dealt with in the events; behind the end there are none. -/
structure Deals (st : RunState W) (es : List Event) : Prop where
  ended : st.Over → es = []
  dealt : Dealt st.due es

/-- A message that was read meets the duty or is answered by a rule or is left. -/
theorem handleMessage_dealt {fields : List Field} {startTime : ℤ} {todo : List ScenarioStep}
    {r : Reading} (hsession : st.session = (r.before.receiveMessage r.msg).1)
    (hr : Settled r)
    (hlater : Deals (handleMessage env st fields startTime todo r.msg).1 es') :
    Dealt (⟨fields, st.activeMocks⟩ :: duties st.activeMocks todo)
      (.read r :: (handleMessage env st fields startTime todo r.msg).2 ++ es') := by
  rw [handleMessage] at hlater ⊢
  by_cases hm : matchFields r.msg fields = true
  · rw [if_pos hm] at hlater ⊢
    exact .met hr (matchFields_iff.mp hm) hlater.dealt
  · rw [if_neg hm] at hlater ⊢
    have hunmet : ¬ Contains r.msg fields := fun h => hm (matchFields_iff.mpr h)
    rcases processMocks_fires env r.msg st.activeMocks st.world st.session with
      ⟨world, hnone, hsilent⟩ | ⟨world, e, earlier, rule, later, hsent, hrules, hearlier, hfires⟩
    · simp only [hnone] at hlater ⊢
      rw [hsession] at hsilent
      have hleft : Unanswered ⟨fields, st.activeMocks⟩ r := ⟨hr, hunmet, hsilent⟩
      by_cases htype : r.msg.getField 35 = some (ascii "0") ∨ r.msg.getField 35 = some (ascii "1")
      · rw [if_pos htype] at hlater ⊢
        exact .passed hleft htype hlater.dealt
      · rw [if_neg htype] at hlater ⊢
        rw [hlater.ended trivial]
        exact .mismatched hleft htype
    · simp only [hsent] at hlater ⊢
      rw [hsession] at hearlier hfires
      exact .answered hr hunmet ⟨earlier, rule, later, hrules, hearlier, hfires⟩
        hlater.dealt

theorem poll_dealt {fields : List Field} {startTime : ℤ} {todo : List ScenarioStep}
    (hlater : Deals (poll env st fields startTime todo).1 es') :
    Dealt (⟨fields, st.activeMocks⟩ :: duties st.activeMocks todo)
      ((poll env st fields startTime todo).2 ++ es') := by
  rw [poll] at hlater ⊢
  cases hx : extractNextMessage soh st.rxBuffer with
  | mk piece buffer =>
    simp only [hx] at hlater ⊢
    cases piece with
    | none =>
      cases hr : env.receive st.world 500 with
      | mk data world =>
        simp only [hr] at hlater ⊢
        cases data with
        | none => exact .quiet trivial hlater.dealt
        | some data => exact .quiet trivial hlater.dealt
    | some raw =>
      cases hp : FixMessage.parse raw soh with
      | error e =>
        simp only [hp] at hlater ⊢
        rw [hlater.ended trivial]
        exact .quiet trivial .nil
      | ok msg =>
        simp only [hp] at hlater ⊢
        by_cases hd : (st.session.receiveMessage msg).2.action = .disconnect
        · rw [if_pos hd] at hlater ⊢
          rw [hlater.ended trivial]
          exact .quiet trivial (.disconnected hd)
        · rw [if_neg hd] at hlater ⊢
          exact .quiet trivial (handleMessage_dealt (r := st.reading raw msg) rfl ⟨hp, rfl, hd⟩ hlater)

theorem sendStep_dealt {first : Field} {fields : List Field} {todo : List ScenarioStep}
    (hlater : Deals (sendStep env (st.begun todo) first fields).1 es') :
    Dealt (duties st.activeMocks todo) ((sendStep env (st.begun todo) first fields).2 ++ es') := by
  rw [sendStep] at hlater ⊢
  simp only at hlater ⊢
  cases hwrite : serializeMessage (outgoingFields (st.begun todo).session
      (if first.tag = 35 then first.value else ascii "0")
      (getSendingTime env.gmtime (env.systemNow (st.begun todo).world).1) fields)
      (env.serializeBuf (env.systemNow (st.begun todo).world).2) soh with
  | error errc =>
    simp only [hwrite] at hlater ⊢
    rw [hlater.ended trivial]
    exact .nil
  | ok text =>
    simp only [hwrite] at hlater ⊢
    cases hsend : env.send (env.systemNow (st.begun todo).world).2 text with
    | mk ok world =>
      simp only [hsend] at hlater ⊢
      cases ok with
      | true => exact .quiet rfl hlater.dealt
      | false =>
        rw [hlater.ended trivial]
        exact .quiet rfl .nil

/-- A scenario step makes nothing of any message; it leaves its duty, or the rule that it brings. -/
theorem beginStep_dealt {step : ScenarioStep} {todo : List ScenarioStep}
    (hlater : Deals (beginStep env (st.begun todo) step todo).1 es') :
    Dealt (duties st.activeMocks (step :: todo))
      ((beginStep env (st.begun todo) step todo).2 ++ es') := by
  rw [duties]
  rw [beginStep] at hlater ⊢
  cases ht : step.type with
  | connect =>
    simp only [ht] at hlater ⊢
    cases hc : env.connect (st.begun todo).world with
    | mk ok world =>
      simp only [hc] at hlater ⊢
      cases ok with
      | true => exact .quiet trivial hlater.dealt
      | false =>
        rw [hlater.ended trivial]
        exact .quiet trivial .nil
  | disconnect =>
    simp only [ht] at hlater ⊢
    exact .quiet trivial hlater.dealt
  | expect =>
    simp only [ht] at hlater ⊢
    exact hlater.dealt
  | mock =>
    simp only [ht] at hlater ⊢
    exact hlater.dealt
  | send =>
    simp only [ht] at hlater ⊢
    cases hf : step.fields with
    | nil =>
      simp only [hf] at hlater ⊢
      rw [hlater.ended trivial]
      exact .nil
    | cons first rest =>
      simp only [hf] at hlater ⊢
      exact sendStep_dealt hlater

theorem runStep_deals (h : runStep env st = some (st', es)) (hlater : Deals st' es') :
    Deals st (es ++ es') := by
  rw [runStep] at h
  constructor
  · intro hover
    cases hc : st.control with
    | returned result => simp [hc] at h
    | undefined => simp [hc] at h
    | _ => simp [RunState.Over, hc] at hover
  · cases hc : st.control with
    | stepping todo =>
      cases todo with
      | nil =>
        simp only [hc] at h
        obtain ⟨rfl, rfl⟩ := Prod.mk.inj (Option.some.inj h)
        rw [hlater.ended trivial]
        exact .nil
      | cons step todo =>
        simp only [hc] at h
        obtain ⟨rfl, rfl⟩ := Prod.mk.inj (Option.some.inj h)
        rw [RunState.due, hc]
        exact beginStep_dealt hlater
    | waiting fields startTime todo =>
      simp only [hc] at h
      rw [RunState.due, hc]
      split_ifs at h
      · obtain ⟨rfl, rfl⟩ := Prod.mk.inj (Option.some.inj h)
        rw [hlater.ended trivial]
        exact .nil
      · obtain ⟨rfl, rfl⟩ := Prod.mk.inj (Option.some.inj h)
        exact hlater.dealt
    | polling fields startTime todo =>
      simp only [hc] at h
      obtain ⟨rfl, rfl⟩ := Prod.mk.inj (Option.some.inj h)
      rw [RunState.due, hc]
      exact poll_dealt hlater
    | returned result => simp [hc] at h
    | undefined => simp [hc] at h

/-- In every run, each message that is read is dealt with as the EXPECT step that it comes to
demands: whether it meets it, which rule answers it and what comes of it otherwise follow from the
scenario and the message. -/
theorem run_deals {world : W} {session : FixSession} {mocks : List ScenarioStep}
    {scenario : Scenario}
    (hrun : Run (runStep env) (.start world session mocks scenario) es st) :
    Dealt (duties mocks scenario.steps) es := by
  have hdeals := hrun.backward Deals ⟨fun _ => rfl, .nil⟩ runStep_deals
  exact hdeals.dealt

end Run

/-- Both rules fire on an order, and the second one comes after the first EXPECT step. -/
def rivalScenario : Scenario where
  name := ascii "rivals"
  steps := [⟨.mock, [⟨35, ascii "D"⟩, ⟨35, ascii "8"⟩]⟩, ⟨.expect, [⟨35, ascii "A"⟩]⟩,
    ⟨.mock, [⟨35, ascii "D"⟩, ⟨35, ascii "9"⟩]⟩, ⟨.expect, [⟨35, ascii "8"⟩]⟩]

def rivalRun : List Event × RunState Script :=
  exec (runStep scripted) 30 (RunState.start sessionScript counterparty [] rivalScenario)

theorem run_deals_rivals : Dealt (duties [] rivalScenario.steps) rivalRun.1 :=
  run_deals (run_exec (runStep scripted) 30 _)

end Fixure
