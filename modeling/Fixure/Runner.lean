import Fixure.Framing
import Fixure.Process
import Fixure.Scenario
import Fixure.Session

/-!
# The scenario runner

One step of the process `runStep` is one scenario step, or one part of a round of the
EXPECT loop: the deadline check, or an attempt on the receive buffer. The connection and
the clocks are parameters over a state `W` of the outside world, so a run is a run
against any behaviour of the peer. The events record what went over the connection and
what was decided about a message; no function reads them.
-/

namespace Fixure
open Decimal Process

/-- The connection, the clocks and the uninitialized stack buffer of the serializer. Times
are in nanoseconds, the timeout of `receive` in milliseconds. -/
structure Environment (W : Type) where
  connect : W → Bool × W
  disconnect : W → W
  send : W → Bytes → Bool × W
  receive : W → ℕ → Option Bytes × W
  steadyNow : W → ℤ × W
  systemNow : W → ℤ × W
  gmtime : ℤ → Tm
  serializeBuf : W → Bytes
  serializeBuf_length : ∀ w, (serializeBuf w).length = 4096

structure RunResult where
  success : Bool := false
  errorMessage : Bytes := []
  stepsExecuted : ℕ
  deriving DecidableEq

inductive Sender
  | scenario
  | mock
  deriving DecidableEq

structure SentEvent where
  sender : Sender
  fields : List Field
  text : Bytes
  ok : Bool
  deriving DecidableEq

/-- A message that was parsed and shown to the session during a scenario step. -/
structure Reading where
  stepsExecuted : ℕ
  raw : Bytes
  msg : FixMessage
  before : FixSession
  answer : ProcessResult
  deriving DecidableEq

inductive Event
  | connected (ok : Bool)
  | disconnected
  | received (data : Option Bytes)
  | extracted (raw : Bytes)
  | read (reading : Reading)
  | satisfied (msg : FixMessage)
  | sent (event : SentEvent)
  deriving DecidableEq

/-- Where the run stands: at the head of the loop over the steps, in front of the deadline
check of an EXPECT step or behind it, or at its end. `undefined` stands for the access to
the first field of a step without fields. -/
inductive Control
  | stepping (todo : List ScenarioStep)
  | waiting (fields : List Field) (startTime : ℤ) (todo : List ScenarioStep)
  | polling (fields : List Field) (startTime : ℤ) (todo : List ScenarioStep)
  | returned (result : RunResult)
  | undefined
  deriving DecidableEq

structure RunState (W : Type) where
  world : W
  session : FixSession
  activeMocks : List ScenarioStep := []
  rxBuffer : Bytes := []
  stepsExecuted : ℕ := 0
  control : Control

namespace RunState
variable {W : Type}

def fail (st : RunState W) (what : Bytes) : RunState W :=
  let message := ascii "Step " ++ numeral st.stepsExecuted ++ what
  { st with control := .returned ⟨false, message, st.stepsExecuted⟩ }

def begun (st : RunState W) (todo : List ScenarioStep) : RunState W :=
  { st with stepsExecuted := st.stepsExecuted + 1, control := .stepping todo }

/-- The state in which `run` starts on a runner that may have run before. -/
def start (world : W) (session : FixSession) (activeMocks : List ScenarioStep)
    (scenario : Scenario) : RunState W where
  world := world
  session := session
  activeMocks := activeMocks
  control := .stepping scenario.steps

end RunState

def isHeader (f : Field) : Bool :=
  f.tag = 8 || f.tag = 35 || f.tag = 49 || f.tag = 56 || f.tag = 34 || f.tag = 52

/-- The standard header followed by the scripted fields that are not part of it. -/
def outgoingFields (session : FixSession) (msgType sendingTime : Bytes) (fields : List Field) :
    List Field :=
  session.prepareHeader msgType 6 sendingTime ++ fields.filter fun f => !isHeader f

def matchFields (msg : FixMessage) (expected : List Field) : Bool :=
  expected.all fun f => msg.getField f.tag = some f.value

section Run
variable {W : Type} (env : Environment W)

def sendStep (st : RunState W) (first : Field) (fields : List Field) : RunState W × List Event :=
  let (now, world) := env.systemNow st.world
  let msgType := if first.tag = 35 then first.value else ascii "0"
  let allFields := outgoingFields st.session msgType (getSendingTime env.gmtime now) fields
  match serializeMessage allFields (env.serializeBuf world) soh with
  | .error _ => ({ st with world := world }.fail (ascii " (SEND): Serialization failed"), [])
  | .ok text =>
    match env.send world text with
    | (true, world) =>
      ({ st with world := world, session := st.session.onMessageSent },
        [.sent ⟨.scenario, allFields, text, true⟩])
    | (false, world) =>
      ({ st with world := world }.fail (ascii " (SEND): Send failed"),
        [.sent ⟨.scenario, allFields, text, false⟩])

/-- One scenario step up to the EXPECT loop; `st` stands behind it already. -/
def beginStep (st : RunState W) (step : ScenarioStep) (todo : List ScenarioStep) :
    RunState W × List Event :=
  match step.type with
  | .connect =>
    match env.connect st.world with
    | (true, world) => ({ st with world := world }, [.connected true])
    | (false, world) =>
      ({ st with world := world }.fail (ascii " (CONNECT): Connection failed"), [.connected false])
  | .disconnect => ({ st with world := env.disconnect st.world }, [.disconnected])
  | .send =>
    match step.fields with
    | [] => ({ st with control := .undefined }, [])
    | first :: _ => sendStep env st first step.fields
  | .expect =>
    let (startTime, world) := env.steadyNow st.world
    ({ st with world := world, control := .waiting step.fields startTime todo }, [])
  | .mock => ({ st with activeMocks := st.activeMocks ++ [step] }, [])

/-- The loop over the active mocks; the first component is its return value. -/
def processMocks (msg : FixMessage) : List ScenarioStep → W → FixSession →
    Bool × W × FixSession × List Event
  | [], world, session => (false, world, session, [])
  | rule :: rules, world, session =>
    match rule.fields with
    | [] => processMocks msg rules world session
    | trigger :: response =>
      if msg.getField trigger.tag = some trigger.value then
        let respMsgType :=
          match response with
          | f :: _ => if f.tag = 35 then f.value else ascii "8"
          | [] => ascii "8"
        let (now, world) := env.systemNow world
        let respFields :=
          outgoingFields session respMsgType (getSendingTime env.gmtime now) response
        match serializeMessage respFields (env.serializeBuf world) soh with
        | .ok text =>
          let (ok, world) := env.send world text
          (true, world, session.onMessageSent, [.sent ⟨.mock, respFields, text, ok⟩])
        | .error _ => processMocks msg rules world session
      else processMocks msg rules world session

def handleMessage (st : RunState W) (fields : List Field) (startTime : ℤ)
    (todo : List ScenarioStep) (msg : FixMessage) : RunState W × List Event :=
  if matchFields msg fields then
    ({ st with control := .stepping todo }, [.satisfied msg])
  else
    match processMocks env msg st.activeMocks st.world st.session with
    | (true, world, session, events) =>
      ({ st with world := world, session := session,
                 control := .waiting fields startTime todo }, events)
    | (false, world, session, events) =>
      let st := { st with world := world, session := session }
      let msgType := msg.getField 35
      if msgType = some (ascii "0") ∨ msgType = some (ascii "1") then
        ({ st with control := .waiting fields startTime todo }, events)
      else
        (st.fail (ascii " (EXPECT): Fields mismatch. Received MsgType=" ++
          msgType.getD (ascii "?")), events)

def poll (st : RunState W) (fields : List Field) (startTime : ℤ) (todo : List ScenarioStep) :
    RunState W × List Event :=
  match extractNextMessage soh st.rxBuffer with
  | (none, buffer) =>
    match env.receive st.world 500 with
    | (some data, world) =>
      ({ st with world := world, rxBuffer := buffer ++ data,
                 control := .waiting fields startTime todo }, [.received (some data)])
    | (none, world) =>
      ({ st with world := world, rxBuffer := buffer,
                 control := .waiting fields startTime todo }, [.received none])
  | (some raw, buffer) =>
    let st := { st with rxBuffer := buffer }
    match FixMessage.parse raw soh with
    | .error e => (st.fail (ascii " (EXPECT): Parse error " ++ e.toString), [.extracted raw])
    | .ok msg =>
      let (session, answer) := st.session.receiveMessage msg
      let reading : Event := .read ⟨st.stepsExecuted, raw, msg, st.session, answer⟩
      let st := { st with session := session }
      if answer.action = .disconnect then
        (st.fail (ascii " (EXPECT): Session disconnect. " ++ answer.info),
          [.extracted raw, reading])
      else
        let (st, events) := handleMessage env st fields startTime todo msg
        (st, .extracted raw :: reading :: events)

def runStep : Step (RunState W) Event := fun st =>
  match st.control with
  | .stepping [] =>
    some ({ st with control := .returned ⟨true, [], st.stepsExecuted⟩ }, [])
  | .stepping (step :: todo) =>
    some (beginStep env (st.begun todo) step todo)
  | .waiting fields startTime todo =>
    let (now, world) := env.steadyNow st.world
    let st := { st with world := world }
    if now - startTime > 5000000000 then
      some (st.fail (ascii " (EXPECT): Timeout waiting for message"), [])
    else some ({ st with control := .polling fields startTime todo }, [])
  | .polling fields startTime todo => some (poll env st fields startTime todo)
  | .returned _ => none
  | .undefined => none

end Run

/-! ### A scripted peer -/

/-- The data still to be received, the results of the next sends (`true` when the list is
used up), and a clock that advances by a second whenever it is read. -/
structure Script where
  inbox : List Bytes
  sends : List Bool := []
  seconds : ℤ := 0
  deriving DecidableEq

def scripted : Environment Script where
  connect w := (true, w)
  disconnect w := w
  send w _ := (w.sends.headD true, { w with sends := w.sends.tail })
  receive w _ := (w.inbox.head?, { w with inbox := w.inbox.tail })
  steadyNow w := (w.seconds * 1000000000, { w with seconds := w.seconds + 1 })
  systemNow w := (0, w)
  gmtime _ := ⟨70, 0, 1, 0, 0, 0⟩
  serializeBuf _ := List.replicate 4096 0
  serializeBuf_length _ := List.length_replicate

/-! ### What a step can do -/

section Stepped
variable {W : Type} (env : Environment W)

def RunState.reading (st : RunState W) (raw : Bytes) (msg : FixMessage) : Reading :=
  ⟨st.stepsExecuted, raw, msg, st.session, (st.session.receiveMessage msg).2⟩

def RunState.shown (st : RunState W) (buffer : Bytes) (msg : FixMessage) : RunState W :=
  { st with rxBuffer := buffer, session := (st.session.receiveMessage msg).1 }

/-- A mock rule that the message triggers, and the response it leads to. -/
structure Responds (msg : FixMessage) (rules : List ScenarioStep) (session : FixSession)
    (sent : SentEvent) : Prop where
  triggered : ∃ rule ∈ rules, ∃ trigger response, rule.fields = trigger :: response ∧
    msg.getField trigger.tag = some trigger.value
  fields_eq : ∃ msgType sendingTime extra,
    sent.fields = outgoingFields session msgType sendingTime extra
  written : ∃ buffer : Bytes, buffer.length = 4096 ∧
    serializeMessage sent.fields buffer soh = .ok sent.text
  sender_eq : sent.sender = .mock

theorem processMocks_cases (msg : FixMessage) (rules : List ScenarioStep) (world : W)
    (session : FixSession) :
    (∃ world', processMocks env msg rules world session = (false, world', session, [])) ∨
      ∃ world' sent, Responds msg rules session sent ∧
        processMocks env msg rules world session =
          (true, world', session.onMessageSent, [.sent sent]) := by
  induction rules generalizing world with
  | nil => exact Or.inl ⟨world, rfl⟩
  | cons rule rules ih =>
    have hlater (world : W) :
        (∃ world', processMocks env msg rules world session = (false, world', session, [])) ∨
          ∃ world' sent, Responds msg (rule :: rules) session sent ∧
            processMocks env msg rules world session =
              (true, world', session.onMessageSent, [.sent sent]) := by
      refine (ih world).imp_right ?_
      rintro ⟨world', sent, hresp, heq⟩
      obtain ⟨r, hr, htrigger⟩ := hresp.triggered
      exact ⟨world', sent,
        { hresp with triggered := ⟨r, List.mem_cons_of_mem _ hr, htrigger⟩ }, heq⟩
    cases hf : rule.fields with
    | nil =>
      simp only [processMocks, hf]
      exact hlater world
    | cons trigger response =>
      simp only [processMocks, hf]
      split_ifs with htrigger
      · split
        next text hs =>
          refine Or.inr ⟨_, _, ⟨⟨rule, List.mem_cons_self, trigger, response, hf, htrigger⟩,
            ⟨_, _, _, rfl⟩, ⟨_, env.serializeBuf_length _, hs⟩, rfl⟩, rfl⟩
        next => exact hlater _
      · exact hlater world

inductive Stepped (st : RunState W) : RunState W → List Event → Prop
  | finish : st.control = .stepping [] →
      Stepped st { st with control := .returned ⟨true, [], st.stepsExecuted⟩ } []
  | connect {step todo world} : st.control = .stepping (step :: todo) → step.type = .connect →
      env.connect st.world = (true, world) →
      Stepped st { st.begun todo with world := world } [.connected true]
  | connectFailed {step todo world} : st.control = .stepping (step :: todo) →
      step.type = .connect → env.connect st.world = (false, world) →
      Stepped st ({ st.begun todo with world := world }.fail
        (ascii " (CONNECT): Connection failed")) [.connected false]
  | disconnect {step todo} : st.control = .stepping (step :: todo) → step.type = .disconnect →
      Stepped st { st.begun todo with world := env.disconnect st.world } [.disconnected]
  | sendUndefined {step todo} : st.control = .stepping (step :: todo) → step.type = .send →
      step.fields = [] → Stepped st { st.begun todo with control := .undefined } []
  | sendUnwritten {step todo world} : st.control = .stepping (step :: todo) → step.type = .send →
      Stepped st ({ st.begun todo with world := world }.fail
        (ascii " (SEND): Serialization failed")) []
  | send {step todo world buffer msgType sendingTime sent} :
      st.control = .stepping (step :: todo) → step.type = .send →
      sent.fields = outgoingFields st.session msgType sendingTime step.fields →
      List.length buffer = 4096 → serializeMessage sent.fields buffer soh = .ok sent.text →
      sent.sender = .scenario → sent.ok = true →
      Stepped st { st.begun todo with world := world, session := st.session.onMessageSent }
        [.sent sent]
  | sendFailed {step todo world sent} : st.control = .stepping (step :: todo) →
      step.type = .send → sent.ok = false →
      Stepped st ({ st.begun todo with world := world }.fail (ascii " (SEND): Send failed"))
        [.sent sent]
  | expect {step todo world startTime} : st.control = .stepping (step :: todo) →
      step.type = .expect → Stepped st
        { st.begun todo with world := world, control := .waiting step.fields startTime todo } []
  | mock {step todo} : st.control = .stepping (step :: todo) → step.type = .mock →
      Stepped st { st.begun todo with activeMocks := st.activeMocks ++ [step] } []
  | timeout {fields startTime todo world} : st.control = .waiting fields startTime todo →
      Stepped st ({ st with world := world }.fail
        (ascii " (EXPECT): Timeout waiting for message")) []
  | inTime {fields startTime todo world} : st.control = .waiting fields startTime todo →
      Stepped st { st with world := world, control := .polling fields startTime todo } []
  | receive {fields startTime todo world buffer data} :
      st.control = .polling fields startTime todo →
      extractNextMessage soh st.rxBuffer = (none, buffer) →
      env.receive st.world 500 = (data, world) →
      Stepped st { st with world := world, rxBuffer := buffer ++ data.getD [],
                           control := .waiting fields startTime todo } [.received data]
  | unparsable {fields startTime todo raw buffer e} :
      st.control = .polling fields startTime todo →
      extractNextMessage soh st.rxBuffer = (some raw, buffer) →
      FixMessage.parse raw soh = .error e →
      Stepped st ({ st with rxBuffer := buffer }.fail
        (ascii " (EXPECT): Parse error " ++ e.toString)) [.extracted raw]
  | sessionDisconnect {fields startTime todo raw buffer msg} :
      st.control = .polling fields startTime todo →
      extractNextMessage soh st.rxBuffer = (some raw, buffer) →
      FixMessage.parse raw soh = .ok msg → (st.reading raw msg).answer.action = .disconnect →
      Stepped st ((st.shown buffer msg).fail (ascii " (EXPECT): Session disconnect. " ++
        (st.reading raw msg).answer.info)) [.extracted raw, .read (st.reading raw msg)]
  | satisfy {fields startTime todo raw buffer msg} :
      st.control = .polling fields startTime todo →
      extractNextMessage soh st.rxBuffer = (some raw, buffer) →
      FixMessage.parse raw soh = .ok msg → (st.reading raw msg).answer.action ≠ .disconnect →
      matchFields msg fields = true →
      Stepped st { st.shown buffer msg with control := .stepping todo }
        [.extracted raw, .read (st.reading raw msg), .satisfied msg]
  | respond {fields startTime todo raw buffer msg world sent} :
      st.control = .polling fields startTime todo →
      extractNextMessage soh st.rxBuffer = (some raw, buffer) →
      FixMessage.parse raw soh = .ok msg → (st.reading raw msg).answer.action ≠ .disconnect →
      matchFields msg fields = false →
      Responds msg st.activeMocks (st.session.receiveMessage msg).1 sent →
      Stepped st { st.shown buffer msg with
          world := world, session := (st.session.receiveMessage msg).1.onMessageSent,
          control := .waiting fields startTime todo }
        [.extracted raw, .read (st.reading raw msg), .sent sent]
  | ignore {fields startTime todo raw buffer msg world} :
      st.control = .polling fields startTime todo →
      extractNextMessage soh st.rxBuffer = (some raw, buffer) →
      FixMessage.parse raw soh = .ok msg → (st.reading raw msg).answer.action ≠ .disconnect →
      matchFields msg fields = false →
      msg.getField 35 = some (ascii "0") ∨ msg.getField 35 = some (ascii "1") →
      Stepped st { st.shown buffer msg with
          world := world, control := .waiting fields startTime todo }
        [.extracted raw, .read (st.reading raw msg)]
  | mismatch {fields startTime todo raw buffer msg world} :
      st.control = .polling fields startTime todo →
      extractNextMessage soh st.rxBuffer = (some raw, buffer) →
      FixMessage.parse raw soh = .ok msg → (st.reading raw msg).answer.action ≠ .disconnect →
      matchFields msg fields = false →
      Stepped st ({ st.shown buffer msg with world := world }.fail
          (ascii " (EXPECT): Fields mismatch. Received MsgType=" ++
            (msg.getField 35).getD (ascii "?")))
        [.extracted raw, .read (st.reading raw msg)]

theorem beginStep_stepped {st : RunState W} {step : ScenarioStep} {todo : List ScenarioStep}
    (h : st.control = .stepping (step :: todo)) :
    Stepped env st (beginStep env (st.begun todo) step todo).1
      (beginStep env (st.begun todo) step todo).2 := by
  simp only [beginStep]
  cases ht : step.type with
  | connect =>
    cases hc : env.connect st.world with
    | mk ok world =>
      cases ok with
      | true =>
        simp only [RunState.begun, hc]
        exact .connect h ht hc
      | false =>
        simp only [RunState.begun, hc]
        exact .connectFailed h ht hc
  | disconnect => exact .disconnect h ht
  | mock => exact .mock h ht
  | expect => exact .expect h ht
  | send =>
    cases hf : step.fields with
    | nil => exact .sendUndefined h ht hf
    | cons first rest =>
      simp only [sendStep, ← hf]
      split
      · exact .sendUnwritten h ht
      · split
        next hs _ _ _ =>
          exact .send h ht rfl (env.serializeBuf_length _) hs rfl rfl
        next hs _ _ _ =>
          exact .sendFailed h ht rfl

theorem poll_stepped {st : RunState W} {fields : List Field} {startTime : ℤ}
    {todo : List ScenarioStep} (h : st.control = .polling fields startTime todo) :
    Stepped env st (poll env st fields startTime todo).1 (poll env st fields startTime todo).2 := by
  rw [poll]
  cases hx : extractNextMessage soh st.rxBuffer with
  | mk piece buffer =>
    cases piece with
    | none =>
      cases hr : env.receive st.world 500 with
      | mk data world =>
        have hstep := Stepped.receive h hx hr
        cases data with
        | some data => exact hstep
        | none =>
          rw [Option.getD_none, List.append_nil] at hstep
          exact hstep
    | some raw =>
      simp only
      cases hp : FixMessage.parse raw soh with
      | error e => exact .unparsable h hx hp
      | ok msg =>
        simp only
        by_cases hd : (st.session.receiveMessage msg).2.action = .disconnect
        · rw [if_pos hd]
          exact .sessionDisconnect h hx hp hd
        · rw [if_neg hd]
          cases hm : matchFields msg fields with
          | true =>
            simp only [handleMessage, hm, if_true]
            exact .satisfy h hx hp hd hm
          | false =>
            simp only [handleMessage, hm, Bool.false_eq_true, if_false]
            rcases processMocks_cases env msg st.activeMocks st.world
                (st.session.receiveMessage msg).1 with ⟨world, hnone⟩ | ⟨world, sent, hresp, hsent⟩
            · simp only [hnone]
              split_ifs with htype
              · exact .ignore h hx hp hd hm htype
              · exact .mismatch h hx hp hd hm
            · simp only [hsent]
              exact .respond h hx hp hd hm hresp

theorem runStep_stepped {st st' : RunState W} {es : List Event}
    (h : runStep env st = some (st', es)) : Stepped env st st' es := by
  rw [runStep] at h
  cases hc : st.control with
  | stepping todo =>
    cases todo with
    | nil =>
      simp only [hc] at h
      obtain ⟨rfl, rfl⟩ := Prod.mk.inj (Option.some.inj h)
      exact .finish hc
    | cons step todo =>
      simp only [hc] at h
      have hstep := beginStep_stepped env hc
      rwa [Option.some.inj h] at hstep
  | waiting fields startTime todo =>
    simp only [hc] at h
    split_ifs at h
    · obtain ⟨rfl, rfl⟩ := Prod.mk.inj (Option.some.inj h)
      exact .timeout hc
    · obtain ⟨rfl, rfl⟩ := Prod.mk.inj (Option.some.inj h)
      exact .inTime hc
  | polling fields startTime todo =>
    simp only [hc] at h
    have hstep := poll_stepped env hc
    rwa [Option.some.inj h] at hstep
  | returned result => simp [hc] at h
  | undefined => simp [hc] at h

end Stepped

end Fixure
