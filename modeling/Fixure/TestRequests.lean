import Fixure.Reception
import Fixure.Scripted

/-!
# Who answers a test request

The session answers a test request in its turn with an action, `sendHeartbeat`, and the
runner heeds no action but the disconnect. So a heartbeat goes out before the next message
is taken up only where the scenario itself sends one in time: the request satisfies its
EXPECT step, and the steps behind it reach a SEND of that type before the next EXPECT.
-/

namespace Fixure
open Process

/-- A test request with the expected number, on which the run does not fail. -/
structure TestsInTurn (r : Reading) : Prop where
  testRequest : r.msg.getField 35 = some (ascii "1")
  inTurn : r.msg.getInt 34 = some r.before.nextInSeq
  stays : r.answer.action ≠ .disconnect

theorem action_of_testRequest {s s' : FixSession} {msg : FixMessage} {r : ProcessResult}
    (h : Received s msg s' r) (h1 : msg.getField 35 = some (ascii "1"))
    (hseq : msg.getInt 34 = some s.nextInSeq) (hstays : r.action ≠ .disconnect) :
    r.action = .sendHeartbeat := by
  cases h with
  | missingType h35 => simp [h1] at h35
  | missingSeqNum _ h34 => simp [hseq] at h34
  | notLogon _ _ _ _ => exact absurd rfl hstays
  | logon h35 _ _ => exact absurd (Option.some.inj (h1.symm.trans h35)) (by decide)
  | expected h35 _ _ hexp =>
    obtain rfl := Option.some.inj (h1.symm.trans h35)
    cases hexp with
    | testRequest _ => rfl
    | heartbeat h => exact absurd h (by decide)
    | resendRequest h => exact absurd h (by decide)
    | reset h _ => exact absurd h (by decide)
    | resetUnreadable h _ => exact absurd h (by decide)
    | logout h => exact absurd h (by decide)
    | application h => exact absurd (by simp) h
  | gap _ h34 _ hlt =>
    obtain rfl := Option.some.inj (hseq.symm.trans h34)
    exact absurd hlt Int32.lt_irrefl
  | duplicate _ h34 _ hlt _ =>
    obtain rfl := Option.some.inj (hseq.symm.trans h34)
    exact absurd hlt Int32.lt_irrefl
  | tooLow _ h34 _ hlt _ =>
    obtain rfl := Option.some.inj (hseq.symm.trans h34)
    exact absurd hlt Int32.lt_irrefl

/-! ### Answers in time -/

def Event.isHeartbeat : Event → Bool
  | .sent e => scriptedType e.fields = some (ascii "0")
  | _ => false

def Event.isExtracted : Event → Bool
  | .extracted _ => true
  | _ => false

/-- A heartbeat is passed to the connection before the next message is extracted. -/
def Answered (after : List Event) : Prop :=
  ∃ e ∈ after.takeWhile (fun e => !e.isExtracted), e.isHeartbeat = true

instance (after : List Event) : Decidable (Answered after) :=
  inferInstanceAs (Decidable (∃ e ∈ _, _))

theorem not_answered_nil : ¬ Answered [] := by
  intro ⟨e, he, _⟩
  exact List.not_mem_nil he

theorem not_answered_extracted (raw : Bytes) (es : List Event) :
    ¬ Answered (.extracted raw :: es) := by
  intro ⟨e, he, _⟩
  exact List.not_mem_nil he

theorem answered_cons {e : Event} {es : List Event} (h : e.isExtracted = false) :
    Answered (e :: es) ↔ e.isHeartbeat = true ∨ Answered es := by
  simp [Answered, h]

section Run
variable {W : Type} (env : Environment W)

def Due (after : List Event) (st : RunState W) : Prop :=
  (∃ e ∈ after, e.isExtracted = true) ∨ runStep env st = none

/-- Every test request in its turn is answered by the time the next message is extracted or
the run is over. -/
def RequestsAnswered (es : List Event) (st : RunState W) : Prop :=
  ∀ pre r after, es = pre ++ .read r :: after → TestsInTurn r → Due env after st →
    Answered after

/-! ### Heartbeats of the scenario -/

/-- What a SEND step with these fields passes to the connection, if there is room for it. -/
def outgoingText (world : W) (session : FixSession) (fields : List Field) : Bytes :=
  wire soh ⟨8, session.config.beginString⟩
    (outgoingFields session (headType (ascii "0") fields)
      (getSendingTime env.gmtime (env.systemNow world).1) fields).tail

/-- A SEND step of type 0 stands in front of the next EXPECT, its message fits into the
buffer, and no step before it ends the run. -/
def SendsHeartbeat : List ScenarioStep → W → FixSession → Prop
  | [], _, _ => False
  | step :: todo, world, session =>
    match step.type with
    | .connect => (env.connect world).1 = true ∧ SendsHeartbeat todo (env.connect world).2 session
    | .disconnect => SendsHeartbeat todo (env.disconnect world) session
    | .send =>
      let text := outgoingText env world session step.fields
      let sent := env.send (env.systemNow world).2 text
      step.fields ≠ [] ∧ text.length ≤ 4096 ∧
        (headType (ascii "0") step.fields = ascii "0" ∨
          sent.1 = true ∧ SendsHeartbeat todo sent.2 session.onMessageSent)
    | .expect => False
    | .mock => SendsHeartbeat todo world session

/-- The steps that `st` stands in front of send a heartbeat. -/
def Replies (st : RunState W) : Prop :=
  match st.control with
  | .stepping todo => SendsHeartbeat env todo st.world st.session
  | _ => False

/-- The request satisfies the EXPECT step that reads it, and the steps behind that one send a
heartbeat. -/
def Scripts (u : RunState W) (r : Reading) : Prop :=
  match u.control with
  | .polling fields _ todo =>
    Contains r.msg fields ∧
      SendsHeartbeat env todo u.world (u.session.receiveMessage r.msg).1
  | _ => False

/-- On a run from `s` to `t` with the events `es`, the step from `u` reads `r`, and the events
`after` follow. -/
def Reads (s t : RunState W) (es : List Event) (u : RunState W) (r : Reading)
    (after : List Event) : Prop :=
  ∃ past u' front back rest, Run (runStep env) s past u ∧
    runStep env u = some (u', front ++ .read r :: back) ∧ Run (runStep env) u' rest t ∧
    es = past ++ front ++ .read r :: after ∧ after = back ++ rest

theorem exists_reads {s t : RunState W} {es pre after : List Event} {r : Reading}
    (h : Run (runStep env) s es t) (hsplit : es = pre ++ .read r :: after) :
    ∃ u, Reads env s t es u r after := by
  obtain ⟨past, u, u', front, back, rest, hpast, hu, hu', rfl, hafter⟩ := h.split hsplit
  exact ⟨u, past, u', front, back, rest, hpast, hu, hu', hsplit, hafter⟩

/-! ### One step -/

/-- Events that neither answer nor end the time for an answer. -/
def Quiet (es : List Event) : Prop := ∀ e ∈ es, e.isExtracted = false ∧ e.isHeartbeat = false

theorem answered_append_of_quiet {es es' : List Event} (h : Quiet es) :
    Answered (es ++ es') ↔ Answered es' := by
  induction es with
  | nil => rfl
  | cons e es ih =>
    obtain ⟨⟨hextracted, hheartbeat⟩, hes⟩ := List.forall_mem_cons.mp h
    rw [List.cons_append, answered_cons hextracted, ih hes, hheartbeat]
    simp

theorem due_append_of_quiet {es es' : List Event} (h : Quiet es) (st : RunState W) :
    Due env (es ++ es') st ↔ Due env es' st := by
  have hnone : ¬ ∃ e ∈ es, e.isExtracted = true := by
    intro ⟨e, he, hextracted⟩
    rw [(h e he).1] at hextracted
    cases hextracted
  simp only [Due, List.mem_append, or_and_right, exists_or, hnone, false_or]

theorem scriptedType_outgoingFields (session : FixSession) (msgType sendingTime : Bytes)
    (fields : List Field) :
    scriptedType (outgoingFields session msgType sendingTime fields) = some msgType := by
  rw [outgoingFields_eq, headerRest]
  rfl

theorem serialize_outgoing {session : FixSession} {msgType sendingTime buffer text : Bytes}
    {fields : List Field} (hbuffer : buffer.length = 4096) :
    serializeMessage (outgoingFields session msgType sendingTime fields) buffer soh = .ok text ↔
      (wire soh ⟨8, session.config.beginString⟩
        (outgoingFields session msgType sendingTime fields).tail).length ≤ 4096 ∧
      text = wire soh ⟨8, session.config.beginString⟩
        (outgoingFields session msgType sendingTime fields).tail := by
  have hsplit : outgoingFields session msgType sendingTime fields =
      ⟨8, session.config.beginString⟩ ::
        (outgoingFields session msgType sendingTime fields).tail := by
    rw [outgoingFields_eq, List.tail_cons]
  rw [hsplit, serializeMessage_eq_ok_iff _ _ (show buffer.length < 2 ^ 31 by omega), hbuffer,
    List.tail_cons]
  exact and_iff_right rfl

section Send
variable {env} (st : RunState W) {first : Field} {rest : List Field}

theorem sendStep_of_fits {ok : Bool} {world : W}
    (hfits : (outgoingText env st.world st.session (first :: rest)).length ≤ 4096)
    (hsend : env.send (env.systemNow st.world).2
      (outgoingText env st.world st.session (first :: rest)) = (ok, world)) :
    ∃ e, (Event.isHeartbeat (.sent e) = true ↔
        headType (ascii "0") (first :: rest) = ascii "0") ∧
      sendStep env st first (first :: rest) = (if ok then
        { st with world := world, session := st.session.onMessageSent }
        else { st with world := world }.fail (ascii " (SEND): Send failed"), [.sent e]) := by
  have hwritten := (serialize_outgoing (env.serializeBuf_length (env.systemNow st.world).2)).mpr
    ⟨hfits, rfl⟩
  have hstep : sendStep env st first (first :: rest) = (if ok then
      { st with world := world, session := st.session.onMessageSent }
      else { st with world := world }.fail (ascii " (SEND): Send failed"),
      [.sent ⟨.scenario, outgoingFields st.session (headType (ascii "0") (first :: rest))
        (getSendingTime env.gmtime (env.systemNow st.world).1) (first :: rest),
        outgoingText env st.world st.session (first :: rest), ok⟩]) := by
    simp only [outgoingText, headType] at hwritten hsend ⊢
    simp only [sendStep, hwritten, hsend]
    cases ok with
    | true => rfl
    | false => rfl
  refine ⟨_, ?_, hstep⟩
  simp only [Event.isHeartbeat, scriptedType_outgoingFields, decide_eq_true_eq, Option.some.injEq]

theorem sendStep_of_unfit
    (hunfit : ¬ (outgoingText env st.world st.session (first :: rest)).length ≤ 4096) :
    sendStep env st first (first :: rest) = ({ st with world := (env.systemNow st.world).2 }.fail
      (ascii " (SEND): Serialization failed"), []) := by
  simp only [outgoingText, headType] at hunfit
  simp only [sendStep]
  split
  · rfl
  next hwritten =>
    exact absurd ((serialize_outgoing (env.serializeBuf_length _)).mp hwritten).1 hunfit

end Send

/-- What a step does to the chance of an answer. -/
inductive Outlook (env : Environment W) (st st' : RunState W) : List Event → Prop
  | quiet {es} : Quiet es → (Replies env st ↔ Replies env st') → Outlook env st st' es
  | heartbeat {e} : Event.isHeartbeat (.sent e) = true → Replies env st →
      Outlook env st st' [.sent e]
  | extracted {raw es} : ¬ Replies env st → Outlook env st st' (.extracted raw :: es)

theorem quiet_nil : Quiet [] := by
  intro e he
  exact absurd he List.not_mem_nil

theorem quiet_singleton {e : Event} (hextracted : e.isExtracted = false)
    (hheartbeat : e.isHeartbeat = false) : Quiet [e] := by
  intro e' he
  rw [List.mem_singleton.mp he]
  exact ⟨hextracted, hheartbeat⟩

section Step
variable {env} {st st' : RunState W} {es es' : List Event}

theorem replies_stepping {todo : List ScenarioStep} (hc : st.control = .stepping todo) :
    Replies env st ↔ SendsHeartbeat env todo st.world st.session := by
  rw [Replies, hc]

theorem not_replies (h : ∀ todo, st.control ≠ .stepping todo) : ¬ Replies env st := by
  rw [Replies]
  cases hc : st.control with
  | stepping todo => exact absurd hc (h todo)
  | _ => exact id

theorem not_replies_fail {what : Bytes} : ¬ Replies env (st.fail what) := id

theorem outlook_send {first : Field} {rest : List Field} {step : ScenarioStep}
    {todo : List ScenarioStep} (hc : st.control = .stepping (step :: todo))
    (ht : step.type = .send) (hf : step.fields = first :: rest) :
    Outlook env st (sendStep env (st.begun todo) first (first :: rest)).1
      (sendStep env (st.begun todo) first (first :: rest)).2 := by
  have hreplies : Replies env st ↔
      (outgoingText env st.world st.session (first :: rest)).length ≤ 4096 ∧
        (headType (ascii "0") (first :: rest) = ascii "0" ∨
          (env.send (env.systemNow st.world).2
            (outgoingText env st.world st.session (first :: rest))).1 = true ∧
          SendsHeartbeat env todo (env.send (env.systemNow st.world).2
            (outgoingText env st.world st.session (first :: rest))).2
            st.session.onMessageSent) := by
    simp [replies_stepping hc, SendsHeartbeat, ht, hf]
  by_cases hfits : (outgoingText env st.world st.session (first :: rest)).length ≤ 4096
  · cases hsend : env.send (env.systemNow st.world).2
        (outgoingText env st.world st.session (first :: rest)) with
    | mk ok world =>
      obtain ⟨e, he, hstep⟩ := sendStep_of_fits (st.begun todo) hfits hsend
      rw [hsend] at hreplies
      rw [hstep]
      by_cases h0 : headType (ascii "0") (first :: rest) = ascii "0"
      · exact .heartbeat (he.mpr h0) (hreplies.mpr ⟨hfits, Or.inl h0⟩)
      · apply Outlook.quiet
        · apply quiet_singleton rfl
          rw [← Bool.not_eq_true, he]
          exact h0
        · rw [hreplies, and_iff_right hfits, or_iff_right h0]
          cases ok with
          | true => exact and_iff_right rfl
          | false => exact iff_of_false (fun h => Bool.false_ne_true h.1) not_replies_fail
  · rw [sendStep_of_unfit (st.begun todo) hfits]
    apply Outlook.quiet quiet_nil
    exact iff_of_false (fun h => hfits (hreplies.mp h).1) not_replies_fail

theorem outlook_begin {step : ScenarioStep} {todo : List ScenarioStep}
    (hc : st.control = .stepping (step :: todo)) :
    Outlook env st (beginStep env (st.begun todo) step todo).1
      (beginStep env (st.begun todo) step todo).2 := by
  have hreplies : Replies env st ↔ SendsHeartbeat env (step :: todo) st.world st.session :=
    replies_stepping hc
  rw [SendsHeartbeat] at hreplies
  rw [beginStep]
  cases ht : step.type with
  | connect =>
    rw [ht] at hreplies
    cases hconnect : env.connect st.world with
    | mk ok world =>
      rw [hconnect] at hreplies
      cases ok with
      | true =>
        simp only [RunState.begun, hconnect]
        apply Outlook.quiet (quiet_singleton rfl rfl)
        exact hreplies.trans (and_iff_right rfl)
      | false =>
        simp only [RunState.begun, hconnect]
        apply Outlook.quiet (quiet_singleton rfl rfl)
        exact iff_of_false (fun h => Bool.false_ne_true (hreplies.mp h).1) not_replies_fail
  | disconnect =>
    rw [ht] at hreplies
    exact .quiet (quiet_singleton rfl rfl) hreplies
  | mock =>
    rw [ht] at hreplies
    exact .quiet quiet_nil hreplies
  | expect =>
    rw [ht] at hreplies
    exact .quiet quiet_nil hreplies
  | send =>
    cases hf : step.fields with
    | nil =>
      rw [ht] at hreplies
      apply Outlook.quiet quiet_nil
      exact iff_of_false (fun h => (hreplies.mp h).1 hf) id
    | cons first rest => exact outlook_send hc ht hf

theorem outlook_poll (h : Stepped env st st' es) {fields : List Field} {startTime : ℤ}
    {todo : List ScenarioStep} (hc : st.control = .polling fields startTime todo) :
    Outlook env st st' es := by
  have hnot : ¬ Replies env st := not_replies (by simp [hc])
  cases h with
  | receive _ _ _ => exact .quiet (quiet_singleton rfl rfl) (iff_of_false hnot id)
  | unparsable _ _ _ => exact .extracted hnot
  | sessionDisconnect _ _ _ _ => exact .extracted hnot
  | satisfy _ _ _ _ _ => exact .extracted hnot
  | respond _ _ _ _ _ _ => exact .extracted hnot
  | ignore _ _ _ _ _ _ => exact .extracted hnot
  | mismatch _ _ _ _ _ => exact .extracted hnot
  | _ => simp [*] at hc

theorem outlook_step (h : runStep env st = some (st', es)) : Outlook env st st' es := by
  cases hc : st.control with
  | stepping todo =>
    simp only [runStep, hc] at h
    cases todo with
    | nil =>
      obtain ⟨rfl, rfl⟩ := Prod.mk.inj (Option.some.inj h)
      exact .quiet quiet_nil (replies_stepping hc)
    | cons step todo =>
      have hbegin : Outlook env st _ _ := outlook_begin hc
      rwa [Option.some.inj h] at hbegin
  | waiting fields startTime todo =>
    have hnot : ¬ Replies env st := not_replies (by simp [hc])
    cases runStep_stepped env h with
    | timeout _ => exact .quiet quiet_nil (iff_of_false hnot not_replies_fail)
    | inTime _ => exact .quiet quiet_nil (iff_of_false hnot id)
    | _ => simp [*] at hc
  | polling fields startTime todo => exact outlook_poll (runStep_stepped env h) hc
  | returned result => simp [runStep, hc] at h
  | undefined => simp [runStep, hc] at h

theorem not_replies_of_ended (h : runStep env st = none) : ¬ Replies env st := by
  apply not_replies
  intro todo hc
  cases todo with
  | nil => simp [runStep, hc] at h
  | cons step todo => simp [runStep, hc] at h

/-- Whether the rest of a run answers in time is decided by the state it starts in. -/
theorem answered_iff (hrun : Run (runStep env) st es st') (hdue : Due env es st') :
    Answered es ↔ Replies env st := by
  have hall := hrun.backward (fun u es => Due env es st' → (Answered es ↔ Replies env u)) ?_ ?_
  · exact hall hdue
  · intro hdue
    have hended := hdue.resolve_left (by simp)
    exact iff_of_false not_answered_nil (not_replies_of_ended hended)
  · intro u u' es es' hstep ih hdue
    cases outlook_step hstep with
    | quiet hquiet hiff =>
      rw [answered_append_of_quiet hquiet, hiff]
      exact ih ((due_append_of_quiet env hquiet st').mp hdue)
    | heartbeat he hreplies =>
      apply iff_of_true _ hreplies
      exact (answered_cons rfl).mpr (Or.inl he)
    | extracted hnot => exact iff_of_false (not_answered_extracted _ _) hnot

/-! ### The step that reads the request -/

/-- No mock rule is active, and none is going to be. -/
def WithoutMocks (st : RunState W) : Prop :=
  st.activeMocks = [] ∧
    match st.control with
    | .stepping todo => ∀ step ∈ todo, step.type ≠ .mock
    | .waiting _ _ todo => ∀ step ∈ todo, step.type ≠ .mock
    | .polling _ _ todo => ∀ step ∈ todo, step.type ≠ .mock
    | _ => True

theorem withoutMocks_step (h : Stepped env st st' es) (hst : WithoutMocks st) :
    WithoutMocks st' := by
  obtain ⟨hactive, hsteps⟩ := hst
  have hlater {step : ScenarioStep} {todo : List ScenarioStep}
      (hc : st.control = .stepping (step :: todo)) : ∀ step ∈ todo, step.type ≠ .mock := by
    rw [hc] at hsteps
    exact (List.forall_mem_cons.mp hsteps).2
  have hpolling {fields : List Field} {startTime : ℤ} {todo : List ScenarioStep}
      (hc : st.control = .polling fields startTime todo) : ∀ step ∈ todo, step.type ≠ .mock := by
    rw [hc] at hsteps
    exact hsteps
  cases h with
  | connect hc _ _ => exact ⟨hactive, hlater hc⟩
  | disconnect hc _ => exact ⟨hactive, hlater hc⟩
  | send hc _ _ _ _ _ _ => exact ⟨hactive, hlater hc⟩
  | expect hc _ => exact ⟨hactive, hlater hc⟩
  | mock hc ht =>
    rw [hc] at hsteps
    exact absurd ht (hsteps _ List.mem_cons_self)
  | inTime hc =>
    rw [hc] at hsteps
    exact ⟨hactive, hsteps⟩
  | receive hc _ _ => exact ⟨hactive, hpolling hc⟩
  | satisfy hc _ _ _ _ => exact ⟨hactive, hpolling hc⟩
  | respond hc _ _ _ _ _ => exact ⟨hactive, hpolling hc⟩
  | ignore hc _ _ _ _ _ => exact ⟨hactive, hpolling hc⟩
  | _ => exact ⟨hactive, trivial⟩

theorem eq_of_split {raw : Bytes} {r r' : Reading} {front back rest : List Event}
    (hrest : readings rest = [])
    (h : .extracted raw :: .read r' :: rest = front ++ .read r :: back) :
    r = r' ∧ back = rest := by
  cases front with
  | nil => simp at h
  | cons e front =>
    have htail := (List.cons.inj h).2
    cases front with
    | nil =>
      obtain ⟨hread, hback⟩ := List.cons.inj htail
      exact ⟨(Event.read.inj hread).symm, hback.symm⟩
    | cons e' front =>
      -- a second reading would lie in `rest`
      have hlast : rest = front ++ .read r :: back := (List.cons.inj htail).2
      rw [hlast, readings, List.filterMap_append] at hrest
      simp at hrest

theorem skip_testRequest {fields : List Field} {startTime : ℤ} {todo : List ScenarioStep}
    {raw buffer : Bytes} {msg : FixMessage} (hst : WithoutMocks st)
    (hc : st.control = .polling fields startTime todo)
    (hx : extractNextMessage soh st.rxBuffer = (some raw, buffer))
    (hp : FixMessage.parse raw soh = .ok msg)
    (hd : (st.session.receiveMessage msg).2.action ≠ .disconnect)
    (hm : matchFields msg fields = false) (h1 : msg.getField 35 = some (ascii "1")) :
    runStep env st = some ({ st.shown buffer msg with control := .waiting fields startTime todo },
      [.extracted raw, .read (st.reading raw msg)]) := by
  have hmocks : processMocks env msg st.activeMocks st.world (st.session.receiveMessage msg).1 =
      (false, st.world, (st.session.receiveMessage msg).1, []) := by
    rw [hst.1]
    rfl
  simp only [runStep, hc, poll, hx, hp, if_neg hd, handleMessage, hm, hmocks, h1, or_true,
    if_true, Bool.false_eq_true, if_false]
  rfl

/-- Behind a request in its turn the run goes on, and sends a heartbeat if the scenario does. -/
theorem scripts_iff (h : runStep env st = some (st', es)) (hst : WithoutMocks st)
    {front back : List Event} {r : Reading} (hes : es = front ++ .read r :: back) (hr : TestsInTurn r) :
    Quiet back ∧ (Scripts env st r ↔ Replies env st') := by
  have hnone (hreadings : readings es = []) : False := by
    rw [hes, readings, List.filterMap_append] at hreadings
    simp at hreadings
  cases runStep_stepped env h with
  | satisfy hc _ _ _ hm =>
    obtain ⟨rfl, rfl⟩ := eq_of_split rfl hes
    refine ⟨quiet_singleton rfl rfl, ?_⟩
    rw [Scripts, hc]
    exact and_iff_right (matchFields_iff.mp hm)
  | ignore hc _ _ _ hm _ =>
    obtain ⟨rfl, rfl⟩ := eq_of_split rfl hes
    refine ⟨quiet_nil, ?_⟩
    rw [Scripts, hc]
    apply iff_of_false _ id
    intro hscripts
    exact absurd (matchFields_iff.mpr hscripts.1) (hm ▸ Bool.false_ne_true)
  | respond _ _ _ _ _ hresp =>
    obtain ⟨rule, hrule, _⟩ := hresp.triggered
    rw [hst.1] at hrule
    exact absurd hrule List.not_mem_nil
  | mismatch hc hx hp hd hm =>
    obtain ⟨rfl, rfl⟩ := eq_of_split rfl hes
    rw [skip_testRequest hst hc hx hp hd hm hr.testRequest] at h
    simp [RunState.fail] at h
  | sessionDisconnect _ _ _ hd =>
    obtain ⟨rfl, rfl⟩ := eq_of_split rfl hes
    exact absurd hd hr.stays
  | _ => exact (hnone rfl).elim

end Step

/-- Every test request in its turn satisfies its EXPECT step, and the steps behind that one send
a heartbeat. -/
def HeartbeatsScripted (s t : RunState W) (es : List Event) : Prop :=
  ∀ u r after, Reads env s t es u r after → TestsInTurn r → Due env after t → Scripts env u r

theorem reads_answered_iff {s t u : RunState W} {es after : List Event} {r : Reading}
    (hs : WithoutMocks s) (hreads : Reads env s t es u r after) (hr : TestsInTurn r)
    (hdue : Due env after t) : Answered after ↔ Scripts env u r := by
  obtain ⟨past, u', front, back, rest, hpast, hu, hrest, _, rfl⟩ := hreads
  have hwithout : WithoutMocks u :=
    hpast.invariant WithoutMocks hs fun hstep h => withoutMocks_step (runStep_stepped env hstep) h
  obtain ⟨hquiet, hscripts⟩ := scripts_iff hu hwithout rfl hr
  rw [answered_append_of_quiet hquiet, hscripts]
  exact answered_iff hrest ((due_append_of_quiet env hquiet t).mp hdue)

/-- In a run without mock rules, every test request in its turn is answered in time exactly when
each of them satisfies its EXPECT step and the scenario itself sends a heartbeat behind it. -/
theorem testRequests_answered_iff {world : W} {session : FixSession} {scenario : Scenario}
    {es : List Event} {st : RunState W} (hmocks : ∀ step ∈ scenario.steps, step.type ≠ .mock)
    (hrun : Run (runStep env) (RunState.start world session [] scenario) es st) :
    RequestsAnswered env es st ↔
      HeartbeatsScripted env (RunState.start world session [] scenario) st es := by
  have hstart : WithoutMocks (RunState.start world session [] scenario) := ⟨rfl, hmocks⟩
  constructor
  · intro hanswered u r after hreads hr hdue
    apply (reads_answered_iff env hstart hreads hr hdue).mp
    obtain ⟨past, u', front, back, rest, _, _, _, hsplit, _⟩ := hreads
    exact hanswered (past ++ front) r after hsplit hr hdue
  · intro hscripted pre r after hsplit hr hdue
    obtain ⟨u, hreads⟩ := exists_reads env hrun hsplit
    exact (reads_answered_iff env hstart hreads hr hdue).mpr (hscripted u r after hreads hr hdue)

end Run

def testRequestText : Bytes := ascii "8=F\x019=10\x0135=1\x0134=2\x0110=066\x01"

def answeringScenario : Scenario where
  name := ascii "answering"
  steps := [⟨.expect, [⟨35, ascii "A"⟩]⟩, ⟨.expect, [⟨35, ascii "1"⟩]⟩, ⟨.send, [⟨35, ascii "0"⟩]⟩]

def answeringRun : List Event × RunState Script :=
  exec (runStep scripted) 30 (RunState.start
    { inbox := [ascii "8=F\x019=10\x0135=A\x0134=1\x0110=081\x01", testRequestText] }
    counterparty [] answeringScenario)

theorem testRequests_answered_answering :
    RequestsAnswered scripted answeringRun.1 answeringRun.2 ↔
      HeartbeatsScripted scripted (RunState.start
        { inbox := [ascii "8=F\x019=10\x0135=A\x0134=1\x0110=081\x01", testRequestText] }
        counterparty [] answeringScenario) answeringRun.2 answeringRun.1 :=
  testRequests_answered_iff scripted (by decide) (run_exec _ _ _)

def waitingScenario : Scenario where
  name := ascii "waiting"
  steps := [⟨.expect, [⟨35, ascii "A"⟩]⟩, ⟨.expect, [⟨35, ascii "D"⟩]⟩]

def waitingRun : List Event × RunState Script :=
  exec (runStep scripted) 30 (RunState.start
    { inbox := [ascii "8=F\x019=10\x0135=A\x0134=1\x0110=081\x01", testRequestText,
        ascii "8=F\x019=10\x0135=D\x0134=3\x0110=086\x01"] } counterparty [] waitingScenario)

def testReading : Reading where
  stepsExecuted := 2
  raw := testRequestText
  msg := { raw := testRequestText, fields := [⟨8, ascii "F"⟩, ⟨9, ascii "10"⟩, ⟨35, ascii "1"⟩,
    ⟨34, ascii "2"⟩, ⟨10, ascii "066"⟩] }
  before := { counterparty with loggedOn := true, nextInSeq := 2 }
  answer := ⟨.sendHeartbeat, 2, ascii "Test Request received"⟩

/-- The run skips the request and passes without a word to the peer. -/
theorem testRequests_answered_waiting :
    ¬ ∀ (W : Type) (env : Environment W) (world : W) (session : FixSession) (scenario : Scenario)
      (es : List Event) (st : RunState W), (∀ step ∈ scenario.steps, step.type ≠ .mock) →
      Run (runStep env) (RunState.start world session [] scenario) es st →
      RequestsAnswered env es st := by
  intro h
  have hanswered := h Script scripted _ counterparty waitingScenario waitingRun.1 waitingRun.2
    (by decide) (run_exec _ _ _)
  have hsplit : waitingRun.1 =
      waitingRun.1.take 6 ++ .read testReading :: waitingRun.1.drop 7 := by decide +kernel
  have hr : TestsInTurn testReading := ⟨by decide, by decide, by decide⟩
  have hdue : Due scripted (waitingRun.1.drop 7) waitingRun.2 := Or.inl (by decide +kernel)
  exact absurd (hanswered _ _ _ hsplit hr hdue) (by decide +kernel)

end Fixure
