import Fixure.Runner
import Mathlib.Data.List.Forall2

/-!
# What a verdict says about the messages

A run that passes has an account: every EXPECT step read some messages that a mock
answered or that are heartbeats or test requests, and after them one that has its fields.
`Ahead` states the account of the rest of a run at every point of the loops, and
each step of the runner carries it back. Positions in the list of messages are read off
from the account at the end.
-/

namespace Fixure
open Process

def extractions (es : List Event) : List Bytes :=
  es.filterMap fun
    | .extracted raw => some raw
    | _ => none

def readings (es : List Event) : List Reading :=
  es.filterMap fun
    | .read r => some r
    | _ => none

def Contains (msg : FixMessage) (fields : List Field) : Prop :=
  ∀ f ∈ fields, msg.getField f.tag = some f.value

def Triggers (rule : ScenarioStep) (msg : FixMessage) : Prop :=
  ∃ trigger response, rule.fields = trigger :: response ∧
    msg.getField trigger.tag = some trigger.value

def IsHeartbeatOrTest (msg : FixMessage) : Prop :=
  msg.getField 35 = some (ascii "0") ∨ msg.getField 35 = some (ascii "1")

/-- The message was parsed, the session answered it, and the answer is no disconnect. -/
structure Settled (r : Reading) : Prop where
  parsed : FixMessage.parse r.raw soh = .ok r.msg
  answered : (r.before.receiveMessage r.msg).2 = r.answer
  stays : r.answer.action ≠ .disconnect

theorem matchFields_iff {msg : FixMessage} {fields : List Field} :
    matchFields msg fields = true ↔ Contains msg fields := by
  simp [matchFields, Contains]

/-! ### The account of a run -/

/-- The messages read by an EXPECT step that is number `n` of the run, and those after it. -/
def Meets (fields : List Field) (n : ℕ) (mocks : List ScenarioStep)
    (later : List Reading → Prop) (rs : List Reading) : Prop :=
  ∃ skipped hit rest, rs = skipped ++ hit :: rest ∧
    (∀ r ∈ skipped, r.stepsExecuted = n ∧
      ((∃ rule ∈ mocks, Triggers rule r.msg) ∨ IsHeartbeatOrTest r.msg)) ∧
    Contains hit.msg fields ∧ later rest

/-- The messages read from the head of the loop on, when `n` steps were taken up already. -/
def Accounts : List ScenarioStep → ℕ → List ScenarioStep → List Reading → Prop
  | [], _, _, rs => rs = []
  | step :: todo, n, mocks, rs =>
    match step.type with
    | .expect => Meets step.fields (n + 1) mocks (Accounts todo (n + 1) mocks) rs
    | .mock => Accounts todo (n + 1) (mocks ++ [step]) rs
    | _ => Accounts todo (n + 1) mocks rs

section Ahead
variable {W : Type} {env : Environment W} {st st' : RunState W} {es es' : List Event}

/-- The messages that a passing run still reads from `st` on. -/
def Ahead (st : RunState W) (rs : List Reading) : Prop :=
  match st.control with
  | .stepping todo => Accounts todo st.stepsExecuted st.activeMocks rs
  | .waiting fields _ todo =>
    Meets fields st.stepsExecuted st.activeMocks
      (Accounts todo st.stepsExecuted st.activeMocks) rs
  | .polling fields _ todo =>
    Meets fields st.stepsExecuted st.activeMocks
      (Accounts todo st.stepsExecuted st.activeMocks) rs
  | .returned result => result.success = true ∧ rs = []
  | .undefined => False

structure Sound (st : RunState W) (es : List Event) : Prop where
  extracted : extractions es = (readings es).map Reading.raw
  settled : ∀ r ∈ readings es, Settled r
  ahead : Ahead st (readings es)

theorem not_sound_fail {what : Bytes} : ¬ Sound (st.fail what) es := fun h => by
  have hahead := h.ahead
  simp [Ahead, RunState.fail] at hahead

theorem Sound.quiet (h : Sound st' es') (hx : extractions es = []) (hr : readings es = [])
    (hback : ∀ rs, Ahead st' rs → Ahead st rs) : Sound st (es ++ es') := by
  have hxs : extractions (es ++ es') = extractions es' := by
    rw [extractions, List.filterMap_append]
    exact congrArg (· ++ _) hx
  have hrs : readings (es ++ es') = readings es' := by
    rw [readings, List.filterMap_append]
    exact congrArg (· ++ _) hr
  refine ⟨?_, ?_, ?_⟩
  · rw [hxs, hrs, h.extracted]
  · rw [hrs]
    exact h.settled
  · rw [hrs]
    exact hback _ h.ahead

theorem Sound.reading (h : Sound st' es') {r : Reading} (hx : extractions es = [r.raw])
    (hr : readings es = [r]) (hsettled : Settled r)
    (hback : ∀ rs, Ahead st' rs → Ahead st (r :: rs)) : Sound st (es ++ es') := by
  have hxs : extractions (es ++ es') = r.raw :: extractions es' := by
    rw [extractions, List.filterMap_append]
    exact congrArg (· ++ _) hx
  have hrs : readings (es ++ es') = r :: readings es' := by
    rw [readings, List.filterMap_append]
    exact congrArg (· ++ _) hr
  refine ⟨?_, ?_, ?_⟩
  · rw [hxs, hrs, h.extracted, List.map_cons]
  · rw [hrs]
    exact List.forall_mem_cons.mpr ⟨hsettled, h.settled⟩
  · rw [hrs]
    exact hback _ h.ahead

theorem meets_cons {fields : List Field} {n : ℕ} {mocks : List ScenarioStep}
    {later : List Reading → Prop} {r : Reading} {rs : List Reading} (hn : r.stepsExecuted = n)
    (hr : (∃ rule ∈ mocks, Triggers rule r.msg) ∨ IsHeartbeatOrTest r.msg)
    (h : Meets fields n mocks later rs) : Meets fields n mocks later (r :: rs) := by
  obtain ⟨skipped, hit, rest, rfl, hskipped, hhit, hlater⟩ := h
  exact ⟨r :: skipped, hit, rest, rfl, List.forall_mem_cons.mpr ⟨⟨hn, hr⟩, hskipped⟩, hhit, hlater⟩

theorem sound_step (h : Stepped env st st' es) (hs : Sound st' es') : Sound st (es ++ es') := by
  cases h with
  | finish hc =>
    refine hs.quiet rfl rfl fun rs hrs => ?_
    simp only [Ahead, hc]
    exact hrs.2
  | connect hc ht _ =>
    refine hs.quiet rfl rfl fun rs hrs => ?_
    simp only [Ahead, hc, Accounts, ht]
    exact hrs
  | disconnect hc ht =>
    refine hs.quiet rfl rfl fun rs hrs => ?_
    simp only [Ahead, hc, Accounts, ht]
    exact hrs
  | sendUndefined hc ht _ => exact absurd hs.ahead (by simp [Ahead])
  | send hc ht _ _ _ _ _ =>
    refine hs.quiet rfl rfl fun rs hrs => ?_
    simp only [Ahead, hc, Accounts, ht]
    exact hrs
  | expect hc ht =>
    refine hs.quiet rfl rfl fun rs hrs => ?_
    simp only [Ahead, hc, Accounts, ht]
    exact hrs
  | mock hc ht =>
    refine hs.quiet rfl rfl fun rs hrs => ?_
    simp only [Ahead, hc, Accounts, ht]
    exact hrs
  | inTime hc =>
    refine hs.quiet rfl rfl fun rs hrs => ?_
    simp only [Ahead, hc]
    exact hrs
  | receive hc _ _ =>
    refine hs.quiet rfl rfl fun rs hrs => ?_
    simp only [Ahead, hc]
    exact hrs
  | satisfy hc _ hp hd hm =>
    refine hs.reading rfl rfl ⟨hp, rfl, hd⟩ fun rs hrs => ?_
    simp only [Ahead, hc]
    exact ⟨[], _, rs, rfl, fun r hr => absurd hr List.not_mem_nil, matchFields_iff.mp hm, hrs⟩
  | respond hc _ hp hd _ hresp =>
    refine hs.reading rfl rfl ⟨hp, rfl, hd⟩ fun rs hrs => ?_
    simp only [Ahead, hc]
    exact meets_cons rfl (Or.inl hresp.triggered) hrs
  | ignore hc _ hp hd _ htype =>
    refine hs.reading rfl rfl ⟨hp, rfl, hd⟩ fun rs hrs => ?_
    simp only [Ahead, hc]
    exact meets_cons rfl (Or.inr htype) hrs
  | _ => exact absurd hs not_sound_fail

end Ahead

/-! ### Positions -/

/-- The positions `idx` are those of the messages that satisfied `expects`, one each and in
order, the last message is among them, and the messages between them have `passed`. -/
structure Explains (expects : List ScenarioStep) (passed : Reading → Prop) (rs : List Reading)
    (idx : List ℕ) : Prop where
  increasing : idx.Pairwise (· < ·)
  meets : List.Forall₂ (fun i step => ∃ r, rs[i]? = some r ∧ Contains r.msg step.fields) idx expects
  last : ∀ i < rs.length, ∃ j ∈ idx, i ≤ j
  others : ∀ i r, rs[i]? = some r → i ∉ idx → passed r

/-- A rule that was active before the run or registered by one of its first `n` steps. -/
def Registered (mocks steps : List ScenarioStep) (n : ℕ) (rule : ScenarioStep) : Prop :=
  rule ∈ mocks ∨ rule ∈ steps.take n ∧ rule.type = .mock

def PassedOver (mocks steps : List ScenarioStep) (r : Reading) : Prop :=
  (∃ rule, Registered mocks steps r.stepsExecuted rule ∧ Triggers rule r.msg) ∨
    IsHeartbeatOrTest r.msg

theorem explains_meets {step : ScenarioStep} {expects : List ScenarioStep} {passed : Reading → Prop}
    {skipped rest : List Reading} {hit : Reading} {idx : List ℕ}
    (h : Explains expects passed rest idx) (hskipped : ∀ r ∈ skipped, passed r)
    (hhit : Contains hit.msg step.fields) :
    Explains (step :: expects) passed (skipped ++ hit :: rest)
      (skipped.length :: idx.map (skipped.length + 1 + ·)) := by
  have hat (i : ℕ) : (skipped ++ hit :: rest)[skipped.length + 1 + i]? = rest[i]? := by
    rw [List.getElem?_append_right (by omega)]
    rw [show skipped.length + 1 + i - skipped.length = i + 1 by omega, List.getElem?_cons_succ]
  refine ⟨?_, ?_, ?_, ?_⟩
  · refine List.pairwise_cons.mpr ⟨?_, ?_⟩
    · intro j hj
      obtain ⟨i, _, rfl⟩ := List.mem_map.mp hj
      omega
    · exact List.pairwise_map.mpr (h.increasing.imp fun h => by omega)
  · refine List.Forall₂.cons ⟨hit, by simp, hhit⟩ ?_
    refine List.forall₂_map_left_iff.mpr (h.meets.imp fun i step hi => ?_)
    rwa [hat]
  · intro i hi
    by_cases hle : i ≤ skipped.length
    · exact ⟨_, List.mem_cons_self, hle⟩
    · rw [List.length_append, List.length_cons] at hi
      obtain ⟨j, hj, hij⟩ := h.last (i - (skipped.length + 1)) (by omega)
      exact ⟨_, List.mem_cons_of_mem _ (List.mem_map_of_mem hj), by omega⟩
  · intro i r hr hi
    rcases lt_trichotomy i skipped.length with hlt | rfl | hgt
    · rw [List.getElem?_append_left hlt] at hr
      exact hskipped r (List.mem_of_getElem? hr)
    · exact absurd List.mem_cons_self hi
    · obtain ⟨k, rfl⟩ := Nat.exists_eq_add_of_le (Nat.succ_le_of_lt hgt)
      rw [Nat.succ_eq_add_one, hat] at hr
      refine h.others k r hr fun hk => hi ?_
      exact List.mem_cons_of_mem _ (List.mem_map_of_mem hk)

theorem Registered.succ {mocks steps : List ScenarioStep} {n : ℕ} {rule : ScenarioStep}
    (h : Registered mocks steps n rule) : Registered mocks steps (n + 1) rule :=
  h.imp_right fun h => ⟨(List.take_subset_take_left steps (Nat.le_succ n)) h.1, h.2⟩

theorem accounts_explained {steps todo mocks active : List ScenarioStep} {n : ℕ}
    {rs : List Reading} (hsteps : steps.drop n = todo)
    (hactive : ∀ rule ∈ active, Registered mocks steps n rule) (h : Accounts todo n active rs) :
    ∃ idx, Explains (expectSteps todo) (PassedOver mocks steps) rs idx := by
  induction todo generalizing n active rs with
  | nil =>
    obtain rfl : rs = [] := h
    exact ⟨[], List.Pairwise.nil, List.Forall₂.nil, fun i hi => absurd hi (Nat.not_lt_zero i),
      fun i r hr => by simp at hr⟩
  | cons step todo ih =>
    have hrest : steps.drop (n + 1) = todo := by
      rw [← List.tail_drop, hsteps, List.tail_cons]
    have hmem : step ∈ steps.take (n + 1) := by
      have hn : steps[n]? = some step := by
        rw [← List.head?_drop, hsteps, List.head?_cons]
      rw [List.take_add_one, hn]
      simp
    have hsucc : ∀ rule ∈ active, Registered mocks steps (n + 1) rule := fun rule hr =>
      (hactive rule hr).succ
    rw [Accounts] at h
    cases ht : step.type with
    | expect =>
      rw [ht] at h
      obtain ⟨skipped, hit, rest, rfl, hskipped, hhit, hlater⟩ := h
      obtain ⟨idx, hidx⟩ := ih hrest hsucc hlater
      rw [expectSteps, List.filter_cons_of_pos (by simp [ht])]
      refine ⟨_, explains_meets hidx (fun r hr => ?_) hhit⟩
      obtain ⟨hn, hover⟩ := hskipped r hr
      refine hover.imp_left ?_
      rintro ⟨rule, hrule, htrigger⟩
      exact ⟨rule, hn ▸ hsucc rule hrule, htrigger⟩
    | mock =>
      rw [ht] at h
      rw [expectSteps, List.filter_cons_of_neg (by simp [ht])]
      refine ih hrest (fun rule hr => ?_) h
      rcases List.mem_append.mp hr with hr | hr
      · exact hsucc rule hr
      · rw [List.mem_singleton.mp hr]
        exact Or.inr ⟨hmem, ht⟩
    | _ =>
      rw [ht] at h
      rw [expectSteps, List.filter_cons_of_neg (by simp [ht])]
      exact ih hrest hsucc h

/-- When a run passes, every extracted message was parsed and kept the session, each EXPECT
step was satisfied by a message of its own, in order and up to the last message, and every
other message was answered by a mock or is a heartbeat or test request. -/
theorem run_pass_sound {W : Type} {env : Environment W} {world : W} {session : FixSession}
    {mocks : List ScenarioStep} {scenario : Scenario} {es : List Event} {st : RunState W}
    {result : RunResult}
    (hrun : Run (runStep env) (RunState.start world session mocks scenario) es st)
    (hreturned : st.control = .returned result) (hpass : result.success = true) :
    extractions es = (readings es).map Reading.raw ∧ (∀ r ∈ readings es, Settled r) ∧
      ∃ idx, Explains (expectSteps scenario.steps) (PassedOver mocks scenario.steps)
        (readings es) idx := by
  have hend : Sound st [] := by
    refine ⟨rfl, fun r hr => absurd hr List.not_mem_nil, ?_⟩
    simp only [Ahead, hreturned]
    exact ⟨hpass, rfl⟩
  have hsound := hrun.backward Sound hend fun hs h => sound_step (runStep_stepped env hs) h
  obtain ⟨hextracted, hsettled, hahead⟩ := hsound
  exact ⟨hextracted, hsettled,
    accounts_explained (n := 0) rfl (fun rule hr => Or.inl hr) hahead⟩

def counterparty : FixSession where
  config := { senderCompId := ascii "C", targetCompId := ascii "S" }

def sessionScript : Script where
  inbox := [ascii "8=F\x019=10\x0135=A\x0134=1\x0110=081\x01",
    ascii "8=F\x019=10\x0135=D\x0134=2\x0110=085\x01",
    ascii "8=F\x019=10\x0135=0\x0134=3\x0110=066\x018=F\x019=10\x0135=8\x0134=4\x0110=075\x01"]

def orderScenario : Scenario where
  name := ascii "orders"
  steps := [⟨.connect, []⟩, ⟨.mock, [⟨35, ascii "D"⟩, ⟨35, ascii "8"⟩, ⟨39, ascii "2"⟩]⟩,
    ⟨.send, [⟨35, ascii "A"⟩]⟩, ⟨.expect, [⟨35, ascii "A"⟩]⟩, ⟨.expect, [⟨35, ascii "8"⟩]⟩]

def orderRun : List Event × RunState Script :=
  exec (runStep scripted) 30 (RunState.start sessionScript counterparty [] orderScenario)

theorem run_pass_sound_orders :
    extractions orderRun.1 = (readings orderRun.1).map Reading.raw ∧
      (∀ r ∈ readings orderRun.1, Settled r) ∧
      ∃ idx, Explains (expectSteps orderScenario.steps) (PassedOver [] orderScenario.steps)
        (readings orderRun.1) idx :=
  @run_pass_sound Script scripted sessionScript counterparty [] orderScenario orderRun.1 orderRun.2
    ⟨true, [], 5⟩ (run_exec _ _ _) (by decide +kernel) rfl

/-! ### Complete expectations -/

theorem stays_of_expected {s s' : FixSession} {msg : FixMessage} {r : ProcessResult}
    (h : Received s msg s' r)
    (hlogon : s.loggedOn = true ∨ msg.getField 35 = some (ascii "A"))
    (hseq : s.loggedOn = true → msg.getInt 34 = some s.nextInSeq)
    (hlogout : s.loggedOn = true → msg.getField 35 ≠ some (ascii "5")) :
    r.action ≠ .disconnect := by
  cases h with
  | notLogon h35 _ hoff hne =>
    rw [hoff, h35] at hlogon
    exact absurd (Option.some.inj (hlogon.resolve_left (by decide))) hne
  | expected h35 _ hon hexp =>
    intro hends
    obtain rfl := hexp.answers.disconnect_iff.mp hends
    exact hlogout hon h35
  | tooLow _ h34 hon hlt _ =>
    rw [hseq hon] at h34
    obtain rfl := Option.some.inj h34
    exact absurd hlt Int32.lt_irrefl
  | _ => simp

section Expect
variable {W : Type} {env : Environment W} {st : RunState W} {fields : List Field}
  {startTime : ℤ} {todo : List ScenarioStep} {raw buffer : Bytes} {msg : FixMessage}

/-- The attempt on the buffer ends the EXPECT step with this message. -/
def Satisfies (env : Environment W) (st : RunState W) (todo : List ScenarioStep) (raw : Bytes)
    (msg : FixMessage) : Prop :=
  ∃ st', runStep env st =
      some (st', [.extracted raw, .read (st.reading raw msg), .satisfied msg]) ∧
    st'.control = .stepping todo

theorem expect_satisfied (hcontrol : st.control = .polling fields startTime todo)
    (hextract : extractNextMessage soh st.rxBuffer = (some raw, buffer))
    (hparse : FixMessage.parse raw soh = .ok msg)
    (hlogon : st.session.loggedOn = true ∨ msg.getField 35 = some (ascii "A"))
    (hseq : st.session.loggedOn = true → msg.getInt 34 = some st.session.nextInSeq)
    (hlogout : st.session.loggedOn = true → msg.getField 35 ≠ some (ascii "5"))
    (hfields : Contains msg fields) : Satisfies env st todo raw msg := by
  have hstays := stays_of_expected (receiveMessage_received _ _) hlogon hseq hlogout
  have hmatch := matchFields_iff.mpr hfields
  refine ⟨{ st.shown buffer msg with control := .stepping todo }, ?_, rfl⟩
  simp only [runStep, hcontrol, poll, hextract, hparse, if_neg hstays, handleMessage, hmatch,
    if_true]
  rfl

end Expect

def logoutText : Bytes := ascii "8=F\x019=10\x0135=5\x0134=2\x0110=070\x01"

def logoutMessage : FixMessage where
  raw := logoutText
  fields := [⟨8, ascii "F"⟩, ⟨9, ascii "10"⟩, ⟨35, ascii "5"⟩, ⟨34, ascii "2"⟩, ⟨10, ascii "070"⟩]

def logoutRun : List Event × RunState Script :=
  exec (runStep scripted) 9 (RunState.start
    { inbox := [ascii "8=F\x019=10\x0135=A\x0134=1\x0110=081\x01", logoutText] } counterparty []
    ⟨ascii "logout", [⟨.expect, [⟨35, ascii "A"⟩]⟩, ⟨.expect, [⟨35, ascii "5"⟩]⟩]⟩)

theorem expect_satisfied_logout :
    ¬ ∀ (W : Type) (env : Environment W) (world : W) (session : FixSession)
      (mocks : List ScenarioStep) (scenario : Scenario) (es : List Event) (st : RunState W)
      (fields : List Field) (startTime : ℤ) (todo : List ScenarioStep) (raw buffer : Bytes)
      (msg : FixMessage),
      Run (runStep env) (RunState.start world session mocks scenario) es st →
      st.control = .polling fields startTime todo →
      extractNextMessage soh st.rxBuffer = (some raw, buffer) →
      FixMessage.parse raw soh = .ok msg →
      (st.session.loggedOn = true ∨ msg.getField 35 = some (ascii "A")) →
      (st.session.loggedOn = true → msg.getInt 34 = some st.session.nextInSeq) →
      Contains msg fields → Satisfies env st todo raw msg := by
  intro h
  have hrun := run_exec (runStep scripted) 9
  have hend : ((runStep scripted logoutRun.2).map fun r => r.1.control) =
      some (.returned ⟨false, ascii "Step 2 (EXPECT): Session disconnect. Logout received", 2⟩) := by
    decide +kernel
  obtain ⟨st', hstep, hcontrol⟩ := h Script scripted _ _ _ _ logoutRun.1 logoutRun.2
    [⟨35, ascii "5"⟩] 3000000000 [] logoutText [] logoutMessage (hrun _) (by decide +kernel)
    (by decide +kernel) (by decide +kernel) (by decide +kernel) (by decide +kernel)
    (matchFields_iff.mp (by decide))
  rw [hstep, Option.map_some, hcontrol] at hend
  cases hend

theorem expect_satisfied_logon :
    Satisfies scripted
      ⟨{ inbox := [] }, counterparty, [], ascii "8=F\x019=10\x0135=A\x0134=1\x0110=081\x01", 1,
        .polling [⟨35, ascii "A"⟩] 0 []⟩ []
      (ascii "8=F\x019=10\x0135=A\x0134=1\x0110=081\x01")
      ⟨ascii "8=F\x019=10\x0135=A\x0134=1\x0110=081\x01", [⟨8, ascii "F"⟩, ⟨9, ascii "10"⟩,
        ⟨35, ascii "A"⟩, ⟨34, ascii "1"⟩, ⟨10, ascii "081"⟩]⟩ :=
  @expect_satisfied Script scripted _ [⟨35, ascii "A"⟩] 0 [] _ [] _ rfl (by decide) (by decide)
    (by decide) (by decide) (by decide) (matchFields_iff.mp (by decide))

end Fixure
