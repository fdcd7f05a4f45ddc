import Fixure.Verdict

/-!
# One run over several connections

A CONNECT step opens a new connection, but the receive buffer and the session of a run
outlive it. What is left in the buffer can get into a message of the new connection exactly
when it holds a `8=`. The session asks for a logon exactly when it was logged off before
the step.
-/

namespace Fixure
open Process Search Splitter

section Run
variable {W : Type} {env : Environment W} {st st' : RunState W} {es es' : List Event}

/-! ### The receive buffer -/

/-- Every extracted message is cut out of the bytes `got` that were received before it and not
used yet. -/
def OnlyReceived : Bytes → List Event → Prop
  | _, [] => True
  | got, .received data :: es => OnlyReceived (got ++ data.getD []) es
  | got, .extracted raw :: es =>
    ∃ junk rest, got = junk ++ (raw ++ rest) ∧ OnlyReceived rest es
  | got, _ :: es => OnlyReceived got es

/-- The runs from the state on extract only what they receive, and they are those of the same
state with an empty buffer. -/
structure StartsClean (env : Environment W) (st : RunState W) : Prop where
  onlyReceived : ∀ {es t}, Run (runStep env) st es t → OnlyReceived [] es
  asEmpty : ∀ {es t}, Run (runStep env) st es t →
    ∃ t', Run (runStep env) { st with rxBuffer := [] } es t' ∧
      { t' with rxBuffer := t.rxBuffer } = t

theorem extract_of_noBegin {separator : UInt8} {b : Bytes} (h : ¬ ascii "8=" <:+: b) :
    extractNextMessage separator b = (none, []) :=
  extract_of_find_none (find_eq_none_iff.mpr h)

/-- The buffer holds received bytes only, or nothing that a message could start with. -/
def Clean (got b : Bytes) : Prop := b <:+ got ∨ ¬ ascii "8=" <:+: b

theorem clean_extracted {got b raw r : Bytes} (hb : Clean got b)
    (h : extractNextMessage soh b = (some raw, r)) : ∃ junk, got = junk ++ (raw ++ r) := by
  rcases hb with ⟨unread, rfl⟩ | hb
  · obtain ⟨junk, rfl, _⟩ := extract_eq_some h
    exact ⟨unread ++ junk, by simp⟩
  · rw [extract_of_noBegin hb] at h
    cases h

theorem clean_received {got b r data : Bytes} (hb : Clean got b)
    (h : extractNextMessage soh b = (none, r)) : Clean (got ++ data) (r ++ data) := by
  apply Or.inl
  rcases hb with hb | hb
  · have hr := extract_suffix soh b
    rw [h] at hr
    obtain ⟨x, rfl⟩ := hr.trans hb
    exact ⟨x, by simp⟩
  · rw [extract_of_noBegin hb] at h
    rw [← (Prod.mk.inj h).2]
    exact ⟨got, rfl⟩

theorem onlyReceived_step (h : Stepped env st st' es) {got : Bytes} (hb : Clean got st.rxBuffer)
    (hrest : ∀ got', Clean got' st'.rxBuffer → OnlyReceived got' es') :
    OnlyReceived got (es ++ es') := by
  cases h with
  | receive _ hx _ => exact hrest _ (clean_received hb hx)
  | unparsable _ hx _ =>
    obtain ⟨junk, hgot⟩ := clean_extracted hb hx
    exact ⟨junk, _, hgot, hrest _ (Or.inl List.suffix_rfl)⟩
  | sessionDisconnect _ hx _ _ =>
    obtain ⟨junk, hgot⟩ := clean_extracted hb hx
    exact ⟨junk, _, hgot, hrest _ (Or.inl List.suffix_rfl)⟩
  | satisfy _ hx _ _ _ =>
    obtain ⟨junk, hgot⟩ := clean_extracted hb hx
    exact ⟨junk, _, hgot, hrest _ (Or.inl List.suffix_rfl)⟩
  | respond _ hx _ _ _ _ =>
    obtain ⟨junk, hgot⟩ := clean_extracted hb hx
    exact ⟨junk, _, hgot, hrest _ (Or.inl List.suffix_rfl)⟩
  | ignore _ hx _ _ _ _ =>
    obtain ⟨junk, hgot⟩ := clean_extracted hb hx
    exact ⟨junk, _, hgot, hrest _ (Or.inl List.suffix_rfl)⟩
  | mismatch _ hx _ _ _ =>
    obtain ⟨junk, hgot⟩ := clean_extracted hb hx
    exact ⟨junk, _, hgot, hrest _ (Or.inl List.suffix_rfl)⟩
  | _ => exact hrest got hb

theorem onlyReceived_of_noBegin (h : ¬ ascii "8=" <:+: st.rxBuffer)
    (hrun : Run (runStep env) st es st') : OnlyReceived [] es := by
  have hall := hrun.backward
    (fun u es => ∀ got, Clean got u.rxBuffer → OnlyReceived got es) (fun _ _ => trivial) ?_
  · exact hall [] (Or.inr h)
  · intro u u' es es' hstep ih got hgot
    exact onlyReceived_step (runStep_stepped env hstep) hgot ih

/-- Two buffers that the next attempt treats alike. -/
def SameNext (b b' : Bytes) : Prop := extractNextMessage soh b' = extractNextMessage soh b

theorem beginStep_rxBuffer (env : Environment W) (st : RunState W) (step : ScenarioStep)
    (todo : List ScenarioStep) (b : Bytes) :
    (beginStep env st step todo).1.rxBuffer = st.rxBuffer ∧
      beginStep env { st with rxBuffer := b } step todo =
        ({ (beginStep env st step todo).1 with rxBuffer := b }, (beginStep env st step todo).2) := by
  cases ht : step.type with
  | connect =>
    simp only [beginStep, ht]
    cases env.connect st.world with
    | mk ok world => cases ok <;> exact ⟨rfl, rfl⟩
  | disconnect =>
    simp only [beginStep, ht]
    exact ⟨trivial, trivial⟩
  | expect =>
    simp only [beginStep, ht]
    exact ⟨trivial, trivial⟩
  | mock =>
    simp only [beginStep, ht]
    exact ⟨trivial, trivial⟩
  | send =>
    simp only [beginStep, ht]
    cases step.fields with
    | nil => exact ⟨rfl, rfl⟩
    | cons first rest =>
      simp only [sendStep]
      split
      · exact ⟨rfl, rfl⟩
      · split
        · exact ⟨rfl, rfl⟩
        · exact ⟨rfl, rfl⟩

theorem runStep_rxBuffer {b : Bytes} (hb : SameNext st.rxBuffer b)
    (h : runStep env st = some (st', es)) :
    ∃ b', runStep env { st with rxBuffer := b } = some ({ st' with rxBuffer := b' }, es) ∧
      SameNext st'.rxBuffer b' := by
  rw [runStep] at h
  cases hc : st.control with
  | stepping todo =>
    cases todo with
    | nil =>
      simp only [hc] at h
      obtain ⟨rfl, rfl⟩ := Prod.mk.inj (Option.some.inj h)
      exact ⟨b, by simp only [runStep], hb⟩
    | cons step todo =>
      simp only [hc] at h
      obtain ⟨hsame, hbegin⟩ := beginStep_rxBuffer env (st.begun todo) step todo b
      rw [Option.some.inj h] at hsame hbegin
      refine ⟨b, ?_, ?_⟩
      · simp only [runStep]
        exact congrArg some hbegin
      · rw [hsame]
        exact hb
  | waiting fields startTime todo =>
    simp only [hc] at h
    split_ifs at h with htime
    · obtain ⟨rfl, rfl⟩ := Prod.mk.inj (Option.some.inj h)
      exact ⟨b, by simp only [runStep, if_pos htime]; rfl, hb⟩
    · obtain ⟨rfl, rfl⟩ := Prod.mk.inj (Option.some.inj h)
      exact ⟨b, by simp only [runStep, if_neg htime], hb⟩
  | polling fields startTime todo =>
    simp only [hc] at h
    refine ⟨st'.rxBuffer, ?_, rfl⟩
    have hpoll : poll env { st with rxBuffer := b } fields startTime todo =
        poll env st fields startTime todo := by
      have hnext : extractNextMessage soh b = extractNextMessage soh st.rxBuffer := hb
      simp only [poll, hnext]
    simp only [hc] at hpoll
    exact (congrArg some hpoll).trans h
  | returned result => simp [hc] at h
  | undefined => simp [hc] at h

/-- The same state but for the buffer, and buffers that the next attempt treats alike. -/
def SameBut (s t : RunState W) : Prop :=
  ∃ b, t = { s with rxBuffer := b } ∧ SameNext s.rxBuffer b

theorem asEmpty_of_noBegin (h : ¬ ascii "8=" <:+: st.rxBuffer)
    (hrun : Run (runStep env) st es st') :
    ∃ t', Run (runStep env) { st with rxBuffer := [] } es t' ∧
      { t' with rxBuffer := st'.rxBuffer } = st' := by
  have hempty : SameNext st.rxBuffer [] := by
    rw [SameNext, extract_of_noBegin h]
    exact extract_of_noBegin (by decide)
  have hsame : SameBut st { st with rxBuffer := [] } := ⟨[], rfl, hempty⟩
  have hstep {s s' t : RunState W} {es : List Event} (hst : SameBut s t)
      (hs : runStep env s = some (s', es)) :
      ∃ t', runStep env t = some (t', es) ∧ SameBut s' t' := by
    obtain ⟨b, rfl, hb⟩ := hst
    obtain ⟨b', hs', hb'⟩ := runStep_rxBuffer hb hs
    exact ⟨_, hs', b', rfl, hb'⟩
  obtain ⟨t, hrun', b, rfl, _⟩ := hrun.simulate SameBut hsame hstep
  exact ⟨_, hrun', rfl⟩

/-! ### What is left at a CONNECT -/

theorem connect_cases {v : RunState W} (h : runStep env st = some (v, [.connected true])) :
    ∃ step todo world, st.control = .stepping (step :: todo) ∧
      v = { st.begun todo with world := world } := by
  have hstep := runStep_stepped env h
  generalize hes : [Event.connected true] = es at hstep
  cases hstep with
  | connect hc _ _ => exact ⟨_, _, _, hc, rfl⟩
  | _ => cases hes

theorem extract_begins {b m r : Bytes} (h : extractNextMessage soh b = (some m, r)) :
    ascii "8=" <+: m := by
  obtain ⟨_, mid, text, _, rfl, _⟩ := extract_shape (by decide) h
  exact List.prefix_append _ _

theorem begins_of_refused {b r : Bytes} (hb : ascii "8=" <:+: b)
    (h : extractNextMessage soh b = (none, r)) : ascii "8=" <+: r := by
  obtain ⟨start, h8⟩ := Option.isSome_iff_exists.mp (find_isSome_iff.mpr hb)
  rw [extract_of_find_some h8] at h
  obtain ⟨junk, rest, rfl, rfl, _⟩ := find_eq_some_split (by decide) h8
  rw [cutMessage_eq_none h, List.append_assoc, List.drop_left]
  exact List.prefix_append _ _

theorem runStep_extracts {fields : List Field} {startTime : ℤ} {todo : List ScenarioStep}
    {raw r : Bytes} (hc : st.control = .polling fields startTime todo)
    (h : extractNextMessage soh st.rxBuffer = (some raw, r)) :
    ∃ t es, runStep env st = some (t, .extracted raw :: es) := by
  simp only [runStep, hc, poll, h]
  split
  · exact ⟨_, _, rfl⟩
  · split
    · exact ⟨_, _, rfl⟩
    · exact ⟨_, _, rfl⟩

theorem runStep_receives {fields : List Field} {startTime : ℤ} {todo : List ScenarioStep}
    {r : Bytes} {data : Option Bytes} {world : W}
    (hc : st.control = .polling fields startTime todo)
    (h : extractNextMessage soh st.rxBuffer = (none, r))
    (hreceive : env.receive st.world 500 = (data, world)) :
    runStep env st = some ({ st with world := world, rxBuffer := r ++ data.getD [],
                                     control := .waiting fields startTime todo },
      [.received data]) := by
  simp only [runStep, hc, poll, h, hreceive]
  cases data with
  | some data => rfl
  | none => rw [Option.getD_none, List.append_nil]

/-- With a start of a message in the buffer, an EXPECT step that receives the end of one reads
what it did not receive. -/
theorem not_onlyReceived_of_begin (session : FixSession) (mocks : List ScenarioStep) {b : Bytes}
    (n : ℕ) (h : ascii "8=" <:+: b) :
    ∃ es t, Run (runStep scripted)
        ⟨{ inbox := [ascii "10=\x01"] }, session, mocks, b, n, .stepping [⟨.expect, []⟩]⟩ es t ∧
      ¬ OnlyReceived [] es := by
  have hnot {raw got junk rest : Bytes} (hraw : ascii "8=" <+: raw)
      (hgot : got = junk ++ (raw ++ rest)) : ascii "8=" <:+: got := by
    rw [hgot]
    exact hraw.isInfix.trans ⟨junk, rest, by simp⟩
  cases hx : extractNextMessage soh b with
  | mk piece r =>
    cases piece with
    | some raw =>
      obtain ⟨t, es, hstep⟩ := @runStep_extracts Script scripted
        ⟨{ inbox := [ascii "10=\x01"], seconds := 2 }, session, mocks, b, n + 1, .polling [] 0 []⟩
        [] 0 [] raw r rfl hx
      refine ⟨_, t, .next rfl (.next rfl (.next hstep (.refl t))), ?_⟩
      rintro ⟨junk, rest, hgot, _⟩
      exact absurd (hnot (extract_begins hx) hgot) (by decide)
    | none =>
      have hframe : HasFrame soh (r ++ ascii "10=\x01") := by
        obtain ⟨x, rfl⟩ := begins_of_refused h hx
        have hten : ascii "10=\x01" = ascii "10=" ++ [soh] := rfl
        exact ⟨[], x, [soh], by rw [hten]; simp, by simp⟩
      obtain ⟨raw, rest, hy⟩ := (extract_isSome_iff (by decide)).mpr hframe
      have hreceive := @runStep_receives Script scripted
        ⟨{ inbox := [ascii "10=\x01"], seconds := 2 }, session, mocks, b, n + 1, .polling [] 0 []⟩
        [] 0 [] r _ _ rfl hx rfl
      obtain ⟨t, es, hstep⟩ := @runStep_extracts Script scripted
        ⟨{ inbox := [], seconds := 3 }, session, mocks, r ++ ascii "10=\x01", n + 1,
          .polling [] 0 []⟩ [] 0 [] raw rest rfl hy
      refine ⟨_, t, .next rfl (.next rfl (.next hreceive (.next rfl (.next hstep (.refl t))))), ?_⟩
      rintro ⟨junk, rest, hgot, _⟩
      exact absurd (hnot (extract_begins hy) hgot) (show ¬ ascii "8=" <:+: ascii "10=\x01" by decide)

/-- After a CONNECT, every run reads only what is received after it, and does what it would do with
an empty buffer, exactly when no start of a message was left in the buffer. -/
theorem connect_startsClean_iff {v : RunState W}
    (hconnect : runStep env st = some (v, [.connected true])) :
    (∀ (W' : Type) (env' : Environment W') (world : W') (todo : List ScenarioStep),
      StartsClean env' ⟨world, v.session, v.activeMocks, v.rxBuffer, v.stepsExecuted,
        .stepping todo⟩) ↔ ¬ ascii "8=" <:+: st.rxBuffer := by
  obtain ⟨step, todo, world, _, rfl⟩ := connect_cases hconnect
  constructor
  · intro h hbegin
    obtain ⟨es, t, hrun, hnot⟩ := not_onlyReceived_of_begin st.session st.activeMocks
      (st.stepsExecuted + 1) hbegin
    exact hnot ((h Script scripted _ _).onlyReceived hrun)
  · intro h W' env' world todo
    exact ⟨onlyReceived_of_noBegin h, asEmpty_of_noBegin h⟩

end Run

theorem connect_startsClean_reconnected :
    (∀ (W' : Type) (env' : Environment W') (world : W') (todo : List ScenarioStep),
      StartsClean env' ⟨world, counterparty, [], ascii "9=5\x01", 4, .stepping todo⟩) ↔
        ¬ ascii "8=" <:+: ascii "9=5\x01" :=
  @connect_startsClean_iff Script scripted
    ⟨⟨[], [], 0⟩, counterparty, [], ascii "9=5\x01", 3, .stepping [⟨.connect, []⟩]⟩ _ rfl

def logonThenOrder : List Bytes :=
  [ascii "8=F\x019=10\x0135=A\x0134=1\x0110=081\x018=F\x019=10\x0135=D\x0134=2\x0110=085\x01"]

def reconnectScenario : Scenario where
  name := ascii "reconnect"
  steps := [⟨.connect, []⟩, ⟨.expect, [⟨35, ascii "A"⟩]⟩, ⟨.disconnect, []⟩, ⟨.connect, []⟩,
    ⟨.expect, [⟨35, ascii "D"⟩]⟩]

def reconnectRun (inbox : List Bytes) (n : ℕ) : List Event × RunState Script :=
  exec (runStep scripted) n (RunState.start { inbox := inbox } counterparty [] reconnectScenario)

/-- One chunk brings the logon and an order, and the order is read on the second connection. -/
def leftoverRun : List Event × RunState Script := reconnectRun logonThenOrder 20

theorem connect_startsClean_leftover :
    ¬ ∀ (W : Type) (env : Environment W) (world : W) (session : FixSession)
      (mocks : List ScenarioStep) (scenario : Scenario) (es : List Event) (st : RunState W)
      (before between after : List Event),
      Run (runStep env) (RunState.start world session mocks scenario) es st →
      es = before ++ .disconnected :: between ++ .connected true :: after →
      OnlyReceived [] after := by
  intro h
  have hsplit : leftoverRun.1 = leftoverRun.1.take 5 ++ .disconnected :: [] ++
      .connected true :: leftoverRun.1.drop 7 := by decide +kernel
  have hclean := h Script scripted _ counterparty [] reconnectScenario
    leftoverRun.1 leftoverRun.2 _ _ _ (run_exec _ _ _) hsplit
  have hfirst : leftoverRun.1.drop 7 =
      .extracted (ascii "8=F\x019=10\x0135=D\x0134=2\x0110=085\x01") :: leftoverRun.1.drop 8 := by
    decide +kernel
  rw [hfirst] at hclean
  obtain ⟨junk, rest, hnil, _⟩ := hclean
  have horder := (List.append_eq_nil_iff.mp (List.append_eq_nil_iff.mp hnil.symm).2).1
  exact absurd horder (by decide)

/-! ### The first message of a connection -/

structure Accepts (answer : ProcessResult) : Prop where
  stays : answer.action ≠ .disconnect
  noReject : answer.action ≠ .sendReject
  noGap : answer.action ≠ .sendResendRequest
  noDuplicate : answer.info ≠ ascii "Duplicate message ignored"

structure AsksLogon (msg : FixMessage) (answer : ProcessResult) : Prop where
  onlyLogon : Accepts answer → msg.getField 35 = some (ascii "A")
  logonAnswered : msg.getField 35 = some (ascii "A") → msg.getInt 34 ≠ none →
    answer.action = .sendLogon

/-- A message that a logged-on session with this next number turns away as well: it is no
readable Logon, and in its turn it is a Logout or a reset that names no number. -/
structure TurnedAway (next : Int32) (msg : FixMessage) : Prop where
  noLogon : msg.getField 35 = some (ascii "A") → msg.getInt 34 = none
  notInTurn : ∀ t, msg.getField 35 = some t → msg.getInt 34 = some next →
    t = ascii "5" ∨ t = ascii "4" ∧ msg.getInt 36 = none

section Session
variable {s s' : FixSession} {msg : FixMessage} {r : ProcessResult}

theorem expected_asksLogon_iff {t : Bytes} (h35 : msg.getField 35 = some t)
    (h34 : msg.getInt 34 = some s.nextInSeq) (h : AnswersExpected msg t r) :
    AsksLogon msg r ↔ TurnedAway s.nextInSeq msg := by
  constructor
  · intro hasks
    refine ⟨?_, ?_⟩
    · intro hA
      by_contra h34'
      exact h.noLogon (hasks.logonAnswered hA h34')
    · intro u hu _
      obtain rfl := Option.some.inj (h35.symm.trans hu)
      by_contra hneither
      rw [not_or] at hneither
      have haccepts : Accepts r := ⟨fun hends => hneither.1 (h.disconnect_iff.mp hends),
        fun hreject => hneither.2 (h.reject_iff.mp hreject), h.noGap, h.noDuplicate⟩
      exact h.noLogon (hasks.logonAnswered (hasks.onlyLogon haccepts) (by simp [h34]))
  · intro haway
    refine ⟨?_, ?_⟩
    · intro haccepts
      rcases haway.notInTurn t h35 h34 with ht | hreset
      · exact absurd (h.disconnect_iff.mpr ht) haccepts.stays
      · exact absurd (h.reject_iff.mpr hreset) haccepts.noReject
    · intro hA h34'
      exact absurd (haway.noLogon hA) h34'

theorem asksLogon_of_away (h35 : msg.getField 35 ≠ some (ascii "A") ∨ msg.getInt 34 = none)
    (h : ¬ Accepts r) : AsksLogon msg r :=
  ⟨fun haccepts => absurd haccepts h,
    fun hA h34 => (h35.elim (fun hne => hne hA) (fun hnone => h34 hnone)).elim⟩

theorem asksLogon_iff (h : Received s msg s' r) :
    AsksLogon msg r ↔ (s.loggedOn = true → TurnedAway s.nextInSeq msg) := by
  -- a message with another number is turned away, but a Logon asks for its answer
  have hother {t : Bytes} {n : Int32} (h35 : msg.getField 35 = some t)
      (h34 : msg.getInt 34 = some n) (hon : s.loggedOn = true) (hne : n ≠ s.nextInSeq)
      (hrefuses : ¬ Accepts r) (hlogon : r.action ≠ .sendLogon) :
      AsksLogon msg r ↔ (s.loggedOn = true → TurnedAway s.nextInSeq msg) := by
    constructor
    · intro hasks _
      refine ⟨?_, ?_⟩
      · intro hA
        by_contra h34'
        exact hlogon (hasks.logonAnswered hA h34')
      · intro _ _ hnext
        rw [h34] at hnext
        exact absurd (Option.some.inj hnext) hne
    · intro haway
      apply asksLogon_of_away _ hrefuses
      by_contra hA
      rw [not_or, not_not] at hA
      exact hA.2 ((haway hon).noLogon hA.1)
  cases h with
  | missingType h35 =>
    apply iff_of_true
    · exact asksLogon_of_away (Or.inl (by simp [h35])) (fun h => h.noReject rfl)
    · exact fun _ => ⟨by simp [h35], by simp [h35]⟩
  | missingSeqNum _ h34 =>
    apply iff_of_true
    · exact asksLogon_of_away (Or.inr h34) (fun h => h.noReject rfl)
    · exact fun _ => ⟨fun _ => h34, by simp [h34]⟩
  | notLogon h35 _ hoff hne =>
    apply iff_of_true
    · apply asksLogon_of_away (Or.inl _) (fun h => h.stays rfl)
      rw [h35]
      exact fun h => hne (Option.some.inj h)
    · simp [hoff]
  | logon h35 _ hoff =>
    apply iff_of_true
    · exact ⟨fun _ => h35, fun _ _ => rfl⟩
    · simp [hoff]
  | expected h35 h34 hon hexp =>
    rw [expected_asksLogon_iff h35 h34 hexp.answers]
    simp [hon]
  | gap h35 h34 hon hlt =>
    exact hother h35 h34 hon (Int32.ne_of_lt hlt).symm (fun h => h.noGap rfl) (by simp)
  | duplicate h35 h34 hon hlt _ =>
    exact hother h35 h34 hon (Int32.ne_of_lt hlt) (fun h => h.noDuplicate rfl) (by simp)
  | tooLow h35 h34 hon hlt _ =>
    exact hother h35 h34 hon (Int32.ne_of_lt hlt) (fun h => h.stays rfl) (by simp)

end Session

section Run
variable {W : Type} {env : Environment W} {st st' : RunState W} {es es' : List Event}

/-- The first message read meets the logon and the expected number of the session `s`. -/
def FirstMeets (s : FixSession) (es : List Event) : Prop :=
  ∀ r, (readings es).head? = some r → r.answer = (r.before.receiveMessage r.msg).2 ∧
    r.before.loggedOn = s.loggedOn ∧ r.before.nextInSeq = s.nextInSeq

theorem firstMeets_quiet {s s' : FixSession} (hr : readings es = [])
    (hsame : s'.loggedOn = s.loggedOn ∧ s'.nextInSeq = s.nextInSeq) (h : FirstMeets s' es') :
    FirstMeets s (es ++ es') := by
  have hrs : readings (es ++ es') = readings es' := by
    rw [readings, List.filterMap_append]
    exact congrArg (· ++ _) hr
  intro r hhead
  obtain ⟨hanswer, hon, hnext⟩ := h r (hrs ▸ hhead)
  exact ⟨hanswer, hon.trans hsame.1, hnext.trans hsame.2⟩

theorem firstMeets_reading {raw : Bytes} {msg : FixMessage} {rest : List Event} :
    FirstMeets st.session ((.extracted raw :: .read (st.reading raw msg) :: rest) ++ es') := by
  intro r hhead
  obtain rfl := Option.some.inj hhead
  exact ⟨rfl, rfl, rfl⟩

theorem firstMeets_step (h : Stepped env st st' es) (hrest : FirstMeets st'.session es') :
    FirstMeets st.session (es ++ es') := by
  cases h with
  | sessionDisconnect _ _ _ _ => exact firstMeets_reading
  | satisfy _ _ _ _ _ => exact firstMeets_reading
  | respond _ _ _ _ _ _ => exact firstMeets_reading
  | ignore _ _ _ _ _ _ => exact firstMeets_reading
  | mismatch _ _ _ _ _ => exact firstMeets_reading
  | _ => exact firstMeets_quiet rfl ⟨rfl, rfl⟩ hrest

/-- After a CONNECT, the first message read is asked to be a Logon and, as one, is answered as such,
exactly when the session was logged off before the CONNECT or turns the message away in
any case. -/
theorem connect_asksLogon_iff {v t : RunState W} {r : Reading}
    (hconnect : runStep env st = some (v, [.connected true])) (hrun : Run (runStep env) v es t)
    (hfirst : (readings es).head? = some r) :
    AsksLogon r.msg r.answer ↔
      (st.session.loggedOn = true → TurnedAway st.session.nextInSeq r.msg) := by
  obtain ⟨step, todo, world, _, rfl⟩ := connect_cases hconnect
  have hmeets := hrun.backward (fun u es => FirstMeets u.session es) (fun r hr => by cases hr)
    (fun hs h => firstMeets_step (runStep_stepped env hs) h)
  obtain ⟨hanswer, hon, hnext⟩ := hmeets r hfirst
  rw [hanswer, asksLogon_iff (receiveMessage_received r.before r.msg), hon, hnext]
  rfl

end Run

deriving instance DecidableEq for RunState

/-- The order comes in a chunk of its own, on the second connection. -/
def orderBehindLogon : List Bytes :=
  [ascii "8=F\x019=10\x0135=A\x0134=1\x0110=081\x01",
    ascii "8=F\x019=10\x0135=D\x0134=2\x0110=085\x01"]

def beforeReconnect : List Event × RunState Script := reconnectRun orderBehindLogon 7

def afterReconnect : List Event × RunState Script := reconnectRun orderBehindLogon 8

def reconnectReading : Reading where
  stepsExecuted := 5
  raw := ascii "8=F\x019=10\x0135=D\x0134=2\x0110=085\x01"
  msg := ⟨ascii "8=F\x019=10\x0135=D\x0134=2\x0110=085\x01",
    [⟨8, ascii "F"⟩, ⟨9, ascii "10"⟩, ⟨35, ascii "D"⟩, ⟨34, ascii "2"⟩, ⟨10, ascii "085"⟩]⟩
  before := { counterparty with nextInSeq := 2, loggedOn := true }
  answer := ⟨.processApplicationMessage, 0, ascii "Application message processed"⟩

theorem connect_asksLogon_order :
    AsksLogon reconnectReading.msg reconnectReading.answer ↔
      (beforeReconnect.2.session.loggedOn = true →
        TurnedAway beforeReconnect.2.session.nextInSeq reconnectReading.msg) :=
  @connect_asksLogon_iff Script scripted beforeReconnect.2 _ afterReconnect.2 _ reconnectReading
    (by decide +kernel) (run_exec (runStep scripted) 5 _) (by decide +kernel)

theorem connect_asksLogon_reconnected :
    ¬ ∀ (W : Type) (env : Environment W) (world : W) (config : SessionConfig)
      (mocks : List ScenarioStep) (scenario : Scenario) (es es' : List Event)
      (st v t : RunState W) (r : Reading),
      Run (runStep env) (RunState.start world { config := config } mocks scenario) es st →
      runStep env st = some (v, [.connected true]) → Run (runStep env) v es' t →
      (readings es').head? = some r → AsksLogon r.msg r.answer := by
  intro h
  have hasks := h Script scripted _ counterparty.config [] reconnectScenario beforeReconnect.1 _
    beforeReconnect.2 afterReconnect.2 _ reconnectReading (run_exec _ _ _) (by decide +kernel)
    (run_exec (runStep scripted) 5 _) (by decide +kernel)
  have hlogon := hasks.onlyLogon ⟨by decide, by decide, by decide, by decide⟩
  exact absurd hlogon (by decide)

end Fixure
