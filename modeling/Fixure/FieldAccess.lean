import Fixure.ParseDsl
import Fixure.Reception

/-!
# The fields that the runner looks up

A SEND step looks up the first field of its step without asking whether there is one; a
mock rule is asked before each lookup. So a run stays within the lists of fields exactly
when it comes to no SEND step without fields, and the reader accepts such steps.
-/

namespace Fixure
open Decimal Pieces Process

/-- A lookup by index in the fields of a step. -/
structure Access where
  fields : List Field
  index : ℕ

def Access.Within (a : Access) : Prop := a.index < a.fields.length

instance (a : Access) : Decidable a.Within := inferInstanceAs (Decidable (a.index < _))

/-- The lookups in one rule: the trigger, the message type of the response and, in the loop,
each field of the response. -/
def ruleAccesses (msg : FixMessage) (rule : ScenarioStep) : List Access :=
  match rule.fields with
  | [] => []
  | trigger :: _ =>
    ⟨rule.fields, 0⟩ ::
      if msg.getField trigger.tag = some trigger.value then
        (if rule.fields.length > 1 then [⟨rule.fields, 1⟩] else []) ++
          (List.range' 1 (rule.fields.length - 1)).map fun i => ⟨rule.fields, i⟩
      else []

section Run
variable {W : Type} (env : Environment W)

/-- The rules are gone through until one of them has responded. -/
def mockAccesses (msg : FixMessage) : List ScenarioStep → W → FixSession → List Access
  | [], _, _ => []
  | rule :: rules, world, session =>
    ruleAccesses msg rule ++
      match processMocks env msg [rule] world session with
      | (true, _) => []
      | (false, world, session, _) => mockAccesses msg rules world session

/-- The lookups of the step that the run takes next. -/
def accesses (st : RunState W) : List Access :=
  match st.control with
  | .stepping (step :: _) => if step.type = .send then [⟨step.fields, 0⟩] else []
  | .polling fields _ _ =>
    match extractNextMessage soh st.rxBuffer with
    | (none, _) => []
    | (some raw, _) =>
      match FixMessage.parse raw soh with
      | .error _ => []
      | .ok msg =>
        let (session, answer) := st.session.receiveMessage msg
        if answer.action = .disconnect ∨ matchFields msg fields then []
        else mockAccesses env msg st.activeMocks st.world session
  | _ => []

theorem ruleAccesses_within (msg : FixMessage) (rule : ScenarioStep) :
    ∀ a ∈ ruleAccesses msg rule, a.Within := by
  intro a ha
  rw [ruleAccesses] at ha
  cases hf : rule.fields with
  | nil => simp [hf] at ha
  | cons trigger response =>
    simp only [hf, List.mem_cons] at ha
    rcases ha with rfl | ha
    · simp [Access.Within]
    · split_ifs at ha with htrigger hlength
      · rcases List.mem_append.mp ha with ha | ha
        · rw [List.mem_singleton.mp ha]
          exact hlength
        · obtain ⟨i, hi, rfl⟩ := List.mem_map.mp ha
          rw [List.mem_range'_1] at hi
          show i < (trigger :: response).length
          omega
      · rw [List.nil_append] at ha
        obtain ⟨i, hi, rfl⟩ := List.mem_map.mp ha
        rw [List.mem_range'_1] at hi
        show i < (trigger :: response).length
        omega
      · exact absurd ha List.not_mem_nil

theorem mockAccesses_within (msg : FixMessage) (rules : List ScenarioStep) (world : W)
    (session : FixSession) : ∀ a ∈ mockAccesses env msg rules world session, a.Within := by
  induction rules generalizing world session with
  | nil =>
    intro a ha
    exact absurd ha List.not_mem_nil
  | cons rule rules ih =>
    intro a ha
    rw [mockAccesses, List.mem_append] at ha
    rcases ha with ha | ha
    · exact ruleAccesses_within msg rule a ha
    · split at ha
      · exact absurd ha List.not_mem_nil
      · exact ih _ _ a ha

/-- The next step is a SEND step without fields. -/
def BareSend (st : RunState W) : Prop :=
  ∃ step todo, st.control = .stepping (step :: todo) ∧ step.type = .send ∧ step.fields = []

theorem accesses_within_iff (st : RunState W) :
    (∀ a ∈ accesses env st, a.Within) ↔ ¬ BareSend st := by
  cases hc : st.control with
  | stepping todo =>
    cases todo with
    | nil => simp [accesses, BareSend, hc]
    | cons step todo =>
      by_cases hsend : step.type = .send
      · simp [accesses, BareSend, hc, hsend, Access.Within, List.length_pos_iff]
      · simp [accesses, BareSend, hc, hsend]
  | polling fields startTime todo =>
    apply iff_of_true
    · intro a ha
      simp only [accesses, hc] at ha
      split at ha
      · exact absurd ha List.not_mem_nil
      · split at ha
        · exact absurd ha List.not_mem_nil
        · split_ifs at ha
          · exact absurd ha List.not_mem_nil
          · exact mockAccesses_within env _ _ _ _ a ha
    · simp [BareSend, hc]
  | waiting fields startTime todo => simp [accesses, BareSend, hc]
  | returned result => simp [accesses, BareSend, hc]
  | undefined => simp [accesses, BareSend, hc]

end Run

/-! ### Scripts without bare SEND lines -/

/-- The line is a SEND line, and nothing on it is a field. -/
def BareSendLine (line : Bytes) : Prop :=
  IsStepLine line ∧ firstWord (trimSpace line) = ascii "SEND" ∧
    ∀ token ∈ tokens (behindWord (trimSpace line)), trimSpace token = []

theorem fields_ne_nil {dsl : Bytes} {sc : Scenario} (h : Scenario.parseDsl dsl = .ok sc)
    (hlines : ∀ line ∈ lines dsl, ¬ BareSendLine line) {step : ScenarioStep}
    (hmem : step ∈ sc.steps) (hsend : step.type = .send) : step.fields ≠ [] := by
  intro hnone
  obtain ⟨n, line, hline, hread⟩ := (mem_of_collect (parseDsl_eq_ok_iff.mp h).1).2 step hmem
  obtain ⟨hstep, htype, hfields⟩ := parseLine_some hread
  rw [hsend] at htype
  rw [hnone, parseFields_eq] at hfields
  apply hlines line hline
  refine ⟨hstep, actionType_eq_some htype, fun token htoken => ?_⟩
  obtain ⟨_, item, hitem, hin⟩ := (mem_of_collect hfields).1 token htoken
  cases item with
  | some f => exact absurd (hin f rfl) List.not_mem_nil
  | none => exact readField_none hitem

section Run
variable {W : Type} {env : Environment W}

/-- A run of an accepted script stays within the fields of its steps and rules exactly when
it comes to no SEND step without fields; it comes to none if the script has no such line. -/
theorem accesses_within {dsl : Bytes} {sc : Scenario} (h : Scenario.parseDsl dsl = .ok sc)
    (env : Environment W) (world : W) (session : FixSession) (activeMocks : List ScenarioStep) :
    ((∀ es st, Run (runStep env) (RunState.start world session activeMocks sc) es st →
        ∀ a ∈ accesses env st, a.Within) ↔
      ∀ es st, Run (runStep env) (RunState.start world session activeMocks sc) es st →
        ¬ BareSend st) ∧
      ((∀ line ∈ lines dsl, ¬ BareSendLine line) →
        ∀ es st, Run (runStep env) (RunState.start world session activeMocks sc) es st →
          ¬ BareSend st) := by
  constructor
  · apply forall_congr'
    intro es
    apply forall_congr'
    intro st
    exact imp_congr_right fun _ => accesses_within_iff env st
  · intro hlines es st hrun ⟨step, todo, hc, hsend, hnone⟩
    have hstart : Located sc.steps (RunState.start world session activeMocks sc) :=
      ⟨[], rfl, rfl⟩
    have hloc := hrun.invariant (Located sc.steps) hstart fun hs =>
      located_step (runStep_stepped env hs)
    obtain ⟨done, hsteps, _⟩ := located_begun hc hloc
    exact fields_ne_nil h hlines (by rw [hsteps]; simp) hsend hnone

end Run

def heartbeatScenario : Scenario :=
  ⟨ascii "ParsedScenario", [⟨.connect, []⟩, ⟨.send, [⟨35, ascii "0"⟩]⟩]⟩

theorem accesses_within_heartbeat :
    ((∀ es st, Run (runStep scripted)
        (RunState.start { inbox := [] } counterparty [] heartbeatScenario) es st →
          ∀ a ∈ accesses scripted st, a.Within) ↔
      ∀ es st, Run (runStep scripted)
        (RunState.start { inbox := [] } counterparty [] heartbeatScenario) es st →
          ¬ BareSend st) ∧
      ((∀ line ∈ lines (ascii "CONNECT\nSEND 35=0"), ¬ BareSendLine line) →
        ∀ es st, Run (runStep scripted)
          (RunState.start { inbox := [] } counterparty [] heartbeatScenario) es st →
            ¬ BareSend st) :=
  @accesses_within Script (ascii "CONNECT\nSEND 35=0") heartbeatScenario (by decide +kernel)
    scripted { inbox := [] } counterparty []

theorem accesses_within_bare :
    ¬ ∀ (W : Type) (env : Environment W) (dsl : Bytes) (sc : Scenario),
      Scenario.parseDsl dsl = .ok sc → ∀ (world : W) (session : FixSession)
        (activeMocks : List ScenarioStep) (es : List Event) (st : RunState W),
        Run (runStep env) (RunState.start world session activeMocks sc) es st →
          ∀ a ∈ accesses env st, a.Within := by
  intro h
  have hwithin := h Script scripted (ascii "SEND") ⟨ascii "ParsedScenario", [⟨.send, []⟩]⟩
    (by decide) { inbox := [] } counterparty [] [] _ (.refl _) ⟨[], 0⟩ List.mem_cons_self
  exact absurd hwithin (by decide)

end Fixure
