import Fixure.Conservation
import Fixure.Outgoing
import Fixure.Reception
import Fixure.Scripted

/-!
# One runner hears another

The bytes that one runner sends reach another one, in whatever chunks. As long as no chunk ends
between the two first bytes of a message, the second runner extracts the messages of the first,
reads in them what was written, and its session takes them all in their turn.
-/

namespace Fixure
open Search Splitter Process

/-! ### Messages that can be read -/

/-- A message of the run whose values leave the framing alone, with a type that neither resets the
numbers nor ends the session. -/
structure Legible (e : SentEvent) : Prop where
  free : ∀ f ∈ e.fields, soh ∉ f.value
  count : e.fields.length ≤ 254
  frameable : ∀ f ∈ copiedFields e.fields, f.Frameable
  notReset : scriptedType e.fields ≠ some (ascii "4")
  notLogout : scriptedType e.fields ≠ some (ascii "5")

instance (e : SentEvent) : Decidable (Legible e) :=
  decidable_of_iff ((∀ f ∈ e.fields, soh ∉ f.value) ∧ e.fields.length ≤ 254 ∧
      (∀ f ∈ copiedFields e.fields, f.Frameable) ∧ scriptedType e.fields ≠ some (ascii "4") ∧
      scriptedType e.fields ≠ some (ascii "5"))
    ⟨fun ⟨hfree, hcount, hframeable, h4, h5⟩ => ⟨hfree, hcount, hframeable, h4, h5⟩,
      fun ⟨hfree, hcount, hframeable, h4, h5⟩ => ⟨hfree, hcount, hframeable, h4, h5⟩⟩

/-- What a receiver finds in the text of the message. -/
structure Spoken (e : SentEvent) (n : Int32) (msg : FixMessage) : Prop where
  parsed : FixMessage.parse e.text soh = .ok msg
  content : ∃ first rest, e.fields = first :: rest ∧ msg.fields = wireFields soh first rest
  msgType : msg.getField 35 = scriptedType e.fields
  seqNum : msg.getInt 34 = some n

theorem spoken_of_carries {e : SentEvent} {n : Int32} (h : Carries e n) (hlegible : Legible e) :
    Framed soh e.text ∧ ∃ msg, Spoken e n msg := by
  obtain ⟨buffer, hbuffer, hwritten⟩ := h.written
  obtain ⟨msg, hparsed, hseq⟩ := h.readable hlegible.free hlegible.count
  cases hfields : e.fields with
  | nil =>
    rw [hfields] at hwritten
    cases hwritten
  | cons first rest =>
    have hfree := hlegible.free
    have hcount := hlegible.count
    have hframeable := hlegible.frameable
    rw [hfields] at hwritten hfree hcount hframeable
    obtain ⟨h8, hfit, htext⟩ :=
      (serializeMessage_eq_ok_iff first rest (by omega) soh).mp hwritten
    have hbody : (bodyFields rest).length ≤ 253 := by
      have hless := List.length_filter_le (fun f => !isFraming f.tag) rest
      rw [List.length_cons] at hcount
      rw [bodyFields]
      omega
    have hread := parse_wire (by decide) (by decide) hfree hbody (by omega)
    rw [htext] at hparsed
    have hmsg := Except.ok.inj (hparsed.symm.trans hread)
    refine ⟨?_, msg, htext ▸ hparsed, ⟨first, rest, hfields, by rw [hmsg]⟩, ?_, hseq⟩
    · rw [htext]
      exact framed_wire fun hten => (ten_infix_coveredText_iff rest h8).mp hten hframeable
    · rw [hmsg, FixMessage.getField, scriptedType, hfields, ← List.head?_filter,
        ← List.head?_filter, wireFields_filter rest h8 (by decide)]

theorem scriptedType_outgoing (session : FixSession) (msgType sendingTime : Bytes)
    (fields : List Field) :
    scriptedType (outgoingFields session msgType sendingTime fields) = some msgType := by
  rw [outgoingFields_eq]
  rfl

/-! ### Taking the messages in their turn -/

/-- The session waits for the message with number `n`, or for a Logon that `sent` begins with. -/
structure Awaits (s : FixSession) (n : Int32) (sent : List SentEvent) : Prop where
  number : s.loggedOn = true → s.nextInSeq = n
  logon : s.loggedOn = false → ∀ e, sent.head? = some e → scriptedType e.fields = some (ascii "A")

instance (s : FixSession) (n : Int32) (sent : List SentEvent) : Decidable (Awaits s n sent) :=
  decidable_of_iff ((s.loggedOn = true → s.nextInSeq = n) ∧
      (s.loggedOn = false → ∀ e ∈ sent.head?, scriptedType e.fields = some (ascii "A")))
    ⟨fun h => ⟨h.1, h.2⟩, fun h => ⟨h.number, h.logon⟩⟩

theorem received_awaited {s s' : FixSession} {msg : FixMessage} {r : ProcessResult} {n : Int32}
    {t : Bytes} (h : Received s msg s' r) (hnumber : s.loggedOn = true → s.nextInSeq = n)
    (hlogon : s.loggedOn = false → t = ascii "A") (h35 : msg.getField 35 = some t)
    (h34 : msg.getInt 34 = some n) (h4 : t ≠ ascii "4") (h5 : t ≠ ascii "5") :
    Taken s msg r ∧ r.action ≠ .disconnect ∧ s'.loggedOn = true ∧ s'.nextInSeq = n + 1 := by
  cases h with
  | missingType hnone => exact absurd (h35.symm.trans hnone) (by simp)
  | missingSeqNum _ hnone => exact absurd (h34.symm.trans hnone) (by simp)
  | notLogon h35' _ hoff hA =>
    obtain rfl := Option.some.inj (h35.symm.trans h35')
    exact absurd (hlogon hoff) hA
  | logon _ h34' _ =>
    obtain rfl := Option.some.inj (h34.symm.trans h34')
    exact ⟨⟨.inl rfl, by simp, by simp, show ascii "Logon processed" ≠ _ by decide⟩, by simp, rfl,
      rfl⟩
  | expected h35' h34' hon hexp =>
    obtain rfl := Option.some.inj (h35.symm.trans h35')
    obtain rfl := Option.some.inj (h34.symm.trans h34')
    have hanswers := hexp.answers
    refine ⟨⟨.inr h34, hanswers.noGap, ?_, hanswers.noDuplicate⟩, ?_, ?_⟩
    · exact fun hreject => h4 (hanswers.reject_iff.mp hreject).1
    · exact fun hends => h5 (hanswers.disconnect_iff.mp hends)
    · cases hexp with
      | reset ht _ => exact absurd ht h4
      | resetUnreadable ht _ => exact absurd ht h4
      | logout ht => exact absurd ht h5
      | _ => exact ⟨hon, rfl⟩
  | gap _ h34' hon hlt =>
    obtain rfl := Option.some.inj (h34.symm.trans h34')
    rw [hnumber hon] at hlt
    exact absurd hlt Int32.lt_irrefl
  | duplicate _ h34' hon hlt _ =>
    obtain rfl := Option.some.inj (h34.symm.trans h34')
    rw [hnumber hon] at hlt
    exact absurd hlt Int32.lt_irrefl
  | tooLow _ h34' hon hlt _ =>
    obtain rfl := Option.some.inj (h34.symm.trans h34')
    rw [hnumber hon] at hlt
    exact absurd hlt Int32.lt_irrefl

/-! ### Cutting the stream -/

/-- No chunk ends behind the first byte of a message. -/
def CutsClean (ms chunks : List Bytes) : Prop :=
  ∀ front, front <+: chunks → ∀ k, front.flatten ≠ (ms.take k).flatten ++ ascii "8"

instance (ms chunks : List Bytes) : Decidable (CutsClean ms chunks) :=
  decidable_of_iff (∀ front ∈ chunks.inits, ∀ k ≤ ms.length,
      front.flatten ≠ (ms.take k).flatten ++ ascii "8") <| by
    constructor
    · intro h front hfront k
      rw [List.take_eq_take_min]
      exact h front ((List.mem_inits _ _).mpr hfront) _ (min_le_right _ _)
    · intro h front hfront k _
      exact h front ((List.mem_inits _ _).mp hfront) k

theorem CutsClean.front {ms chunks front : List Bytes} (h : CutsClean ms chunks)
    (hfront : front <+: chunks) : CutsClean ms front :=
  fun f hf => h f (hf.trans hfront)

/-- A refused attempt on the beginning of a framed message keeps the buffer, unless it clears the
first byte of the message. -/
theorem extract_refused_of_prefix {m b r rest : Bytes} (hm : Framed soh m) (hb : b <+: m ++ rest)
    (hclean : b ≠ ascii "8") (h : extractNextMessage soh b = (none, r)) : r = b := by
  obtain ⟨t, rfl⟩ := hm.begins
  rcases b with _ | ⟨x, _ | ⟨y, b⟩⟩
  · rw [extract_of_find_none (by decide)] at h
    exact (Prod.mk.inj h).2.symm
  · have hx : [x] = ascii "8" := by
      rw [List.append_assoc] at hb
      exact congrArg ([·]) (List.cons_prefix_cons.mp hb).1
    exact absurd hx hclean
  · have hbegins : ascii "8=" <+: x :: y :: b := by
      rw [List.append_assoc] at hb
      obtain ⟨hx, hb⟩ := List.cons_prefix_cons.mp hb
      obtain ⟨hy, _⟩ := List.cons_prefix_cons.mp hb
      rw [hx, hy]
      exact List.prefix_append _ _
    have hfind : find (ascii "8=") (x :: y :: b) = some 0 := by
      obtain ⟨u, hu⟩ := hbegins
      rw [← hu]
      exact find_prefix _
    rw [extract_of_find_some hfind, List.drop_zero] at h
    exact cutMessage_eq_none h

theorem extract_nil : extractNextMessage soh [] = (none, []) :=
  extract_of_find_none (by decide)

/-- In a stream of framed messages that is cut cleanly, an attempt that fails keeps the buffer. -/
theorem refused_keeps {ms taken chunks : List Bytes} {b r : Bytes}
    (hms : ∀ m ∈ ms, Framed soh m) (htracks : CutsAlong ms chunks.flatten taken b)
    (hpre : chunks.flatten <+: ms.flatten) (hclean : CutsClean ms chunks)
    (h : extractNextMessage soh b = (none, r)) : r = b := by
  rcases htracks.ahead hpre with rfl | ⟨m, rest, hm, hb⟩
  · rw [extract_nil] at h
    exact (Prod.mk.inj h).2.symm
  · refine extract_refused_of_prefix (hms m (List.mem_of_getElem? hm)) hb ?_ h
    rintro rfl
    refine hclean chunks (List.prefix_refl _) taken.length ?_
    rw [← htracks.taken_eq]
    exact htracks.received_eq

/-! ### Runs -/

/-- The `i`-th message can be framed and read, and carries the `i`-th number from `n` on. -/
structure Speaks (e : SentEvent) (n : Int32) : Prop where
  framed : Framed soh e.text
  spoken : ∃ msg, Spoken e n msg
  typed : ∃ t, scriptedType e.fields = some t ∧ t ≠ ascii "4" ∧ t ≠ ascii "5"

def Speech (n : Int32) (sent : List SentEvent) : Prop :=
  ∀ i e, sent[i]? = some e → Speaks e (n + Int32.ofNat i)

/-- The message was read as it was written, and the session took it. -/
structure Hears (e : SentEvent) (n : Int32) (r : Reading) : Prop where
  raw_eq : r.raw = e.text
  spoken : Spoken e n r.msg
  taken : Taken r.before r.msg r.answer
  stays : r.answer.action ≠ .disconnect

def Event.chunks : Event → List Bytes
  | .received (some data) => [data]
  | _ => []

theorem flatten_chunks (es : List Event) :
    (es.flatMap Event.chunks).flatten = es.flatMap Event.bytes := by
  induction es with
  | nil => rfl
  | cons e es ih =>
    have hhead : e.chunks.flatten = e.bytes := by
      rcases e with _ | _ | (_ | data) | _ | _ | _ | _ <;> simp [Event.chunks, Event.bytes]
    rw [List.flatMap_cons, List.flatMap_cons, List.flatten_append, hhead, ih]

/-- What was extracted are the first messages of `sent`, and each was read and taken. -/
structure Heard {W : Type} (n : Int32) (sent : List SentEvent) (past : List Event)
    (st : RunState W) : Prop where
  tracks : CutsAlong (sent.map SentEvent.text) (past.flatMap Event.chunks).flatten (extractions past)
    st.rxBuffer
  count : (extractions past).length = (readings past).length
  hears : ∀ i r, (readings past)[i]? = some r →
    ∃ e, sent[i]? = some e ∧ Hears e (n + Int32.ofNat i) r
  awaits : Awaits st.session (n + Int32.ofNat (readings past).length)
    (sent.drop (readings past).length)

section Heard
variable {W : Type} {env : Environment W} {n : Int32} {sent : List SentEvent}
  {past es : List Event} {st st' : RunState W}

theorem Speech.framed (h : Speech n sent) : ∀ m ∈ sent.map SentEvent.text, Framed soh m := by
  intro m hm
  obtain ⟨e, he, rfl⟩ := List.mem_map.mp hm
  obtain ⟨i, hi⟩ := List.getElem?_of_mem he
  exact (h i e hi).framed

theorem extractions_append (past es : List Event) :
    extractions (past ++ es) = extractions past ++ extractions es :=
  List.filterMap_append

theorem readings_append (past es : List Event) :
    readings (past ++ es) = readings past ++ readings es :=
  List.filterMap_append

/-- Events that say nothing about messages or bytes, and leave what was received alone. -/
theorem Heard.quiet (h : Heard n sent past st) (hextractions : extractions es = [])
    (hreadings : readings es = []) (hchunks : es.flatMap Event.chunks = [])
    (hbuffer : st'.rxBuffer = st.rxBuffer) (hon : st'.session.loggedOn = st.session.loggedOn)
    (hnext : st'.session.nextInSeq = st.session.nextInSeq) : Heard n sent (past ++ es) st' := by
  have hsame : readings (past ++ es) = readings past := by
    rw [readings_append, hreadings, List.append_nil]
  have hsameTexts : extractions (past ++ es) = extractions past := by
    rw [extractions_append, hextractions, List.append_nil]
  constructor
  · rw [hsameTexts, List.flatMap_append, hchunks, List.append_nil, hbuffer]
    exact h.tracks
  · rw [hsameTexts, hsame, h.count]
  · rw [hsame]
    exact h.hears
  · rw [hsame]
    exact ⟨fun hlogged => hnext.trans (h.awaits.number (hon ▸ hlogged)),
      fun hlogged => h.awaits.logon (hon ▸ hlogged)⟩

theorem Heard.receive (h : Heard n sent past st) (hspeech : Speech n sent)
    (hpre : (past.flatMap Event.chunks).flatten <+: (sent.map SentEvent.text).flatten)
    (hclean : CutsClean (sent.map SentEvent.text) (past.flatMap Event.chunks)) {buffer : Bytes}
    (data : Option Bytes) (hx : extractNextMessage soh st.rxBuffer = (none, buffer))
    (hbuffer : st'.rxBuffer = buffer ++ data.getD [])
    (hsession : st'.session = st.session) : Heard n sent (past ++ [.received data]) st' := by
  obtain rfl : buffer = st.rxBuffer := refused_keeps hspeech.framed h.tracks hpre hclean hx
  have hsame : readings (past ++ [.received data]) = readings past := by
    rw [readings_append]
    exact List.append_nil _
  have hsameTexts : extractions (past ++ [.received data]) = extractions past := by
    rw [extractions_append]
    exact List.append_nil _
  constructor
  · rw [hsameTexts, List.flatMap_append, List.flatten_append, hbuffer]
    cases data with
    | none => simpa [Event.chunks] using h.tracks
    | some data => simpa [Event.chunks] using h.tracks.receive data
  · rw [hsameTexts, hsame, h.count]
  · rw [hsame]
    exact h.hears
  · rw [hsame, hsession]
    exact h.awaits

/-- What is extracted next is the next message, and the session takes it. -/
theorem Heard.next (h : Heard n sent past st) (hspeech : Speech n sent)
    (hpre : (past.flatMap Event.chunks).flatten <+: (sent.map SentEvent.text).flatten)
    {raw buffer : Bytes} (hx : extractNextMessage soh st.rxBuffer = (some raw, buffer)) :
    CutsAlong (sent.map SentEvent.text) (past.flatMap Event.chunks).flatten (extractions past ++ [raw])
        buffer ∧
      ∃ e msg, sent[(readings past).length]? = some e ∧ FixMessage.parse raw soh = .ok msg ∧
        Hears e (n + Int32.ofNat (readings past).length) (st.reading raw msg) ∧
        (st.session.receiveMessage msg).1.loggedOn = true ∧
        (st.session.receiveMessage msg).1.nextInSeq =
          n + Int32.ofNat (readings past).length + 1 := by
  have hdelimited : ∀ m ∈ sent.map SentEvent.text, Delimited (extractNextMessage soh) m :=
    fun m hm => (extract_lawful soh).delimited (extract_framed (hspeech.framed m hm))
  obtain ⟨hraw, htracks⟩ := h.tracks.take hpre (by rw [extract_nil]) hdelimited hx
  rw [h.count, List.getElem?_map, Option.map_eq_some_iff] at hraw
  obtain ⟨e, he, rfl⟩ := hraw
  obtain ⟨_, ⟨msg, hspoken⟩, t, htype, h4, h5⟩ := hspeech _ e he
  have hlogon : st.session.loggedOn = false → t = ascii "A" := by
    intro hoff
    have hA := h.awaits.logon hoff e (by rw [List.head?_drop, he])
    exact Option.some.inj (htype.symm.trans hA)
  obtain ⟨htaken, hstays, hon, hnext⟩ :=
    received_awaited (receiveMessage_received st.session msg) h.awaits.number hlogon
      (hspoken.msgType.trans htype) hspoken.seqNum h4 h5
  exact ⟨htracks, e, msg, he, hspoken.parsed, ⟨rfl, hspoken, htaken, hstays⟩, hon, hnext⟩

theorem Heard.take (h : Heard n sent past st) (hspeech : Speech n sent)
    (hpre : (past.flatMap Event.chunks).flatten <+: (sent.map SentEvent.text).flatten)
    {raw buffer : Bytes} {msg : FixMessage}
    (hx : extractNextMessage soh st.rxBuffer = (some raw, buffer))
    (hp : FixMessage.parse raw soh = .ok msg) (hextractions : extractions es = [raw])
    (hreadings : readings es = [st.reading raw msg]) (hquiet : es.flatMap Event.chunks = [])
    (hbuffer : st'.rxBuffer = buffer)
    (hon : st'.session.loggedOn = (st.session.receiveMessage msg).1.loggedOn)
    (hnext : st'.session.nextInSeq = (st.session.receiveMessage msg).1.nextInSeq) :
    Heard n sent (past ++ es) st' := by
  obtain ⟨htracks, e, msg', he, hp', hhears, hon', hnext'⟩ := h.next hspeech hpre hx
  obtain rfl := Except.ok.inj (hp'.symm.trans hp)
  have hlater : readings (past ++ es) = readings past ++ [st.reading raw msg'] := by
    rw [readings_append, hreadings]
  have hlength : (readings (past ++ es)).length = (readings past).length + 1 := by
    rw [hlater, List.length_append, List.length_singleton]
  have hlaterTexts : extractions (past ++ es) = extractions past ++ [raw] := by
    rw [extractions_append, hextractions]
  constructor
  · rw [hlaterTexts, List.flatMap_append, hquiet, List.append_nil, hbuffer]
    exact htracks
  · rw [hlaterTexts, hlength, List.length_append, h.count, List.length_singleton]
  · rw [hlater]
    intro i r hr
    rcases lt_trichotomy i (readings past).length with hlt | rfl | hgt
    · rw [List.getElem?_append_left hlt] at hr
      exact h.hears i r hr
    · rw [List.getElem?_concat_length] at hr
      obtain rfl := Option.some.inj hr
      exact ⟨e, he, hhears⟩
    · rw [List.getElem?_append_right hgt.le] at hr
      have hbeyond : 1 ≤ i - (readings past).length := by omega
      rw [List.getElem?_eq_none hbeyond] at hr
      cases hr
  · rw [hlength, Int32.ofNat_add, ← Int32.add_assoc]
    have hlogged : st'.session.loggedOn = true := hon.trans hon'
    refine ⟨fun _ => hnext.trans hnext', fun hoff => ?_⟩
    rw [hlogged] at hoff
    cases hoff

theorem heard_step (h : Stepped env st st' es) (hheard : Heard n sent past st)
    (hspeech : Speech n sent)
    (hpre : (past.flatMap Event.chunks).flatten <+: (sent.map SentEvent.text).flatten)
    (hclean : CutsClean (sent.map SentEvent.text) (past.flatMap Event.chunks)) :
    Heard n sent (past ++ es) st' := by
  cases h with
  | receive _ hx _ => exact hheard.receive hspeech hpre hclean _ hx rfl rfl
  | unparsable _ hx hp =>
    obtain ⟨_, _, msg, _, hp', _⟩ := hheard.next hspeech hpre hx
    exact absurd (hp'.symm.trans hp) (by simp)
  | sessionDisconnect _ hx hp hd =>
    obtain ⟨_, _, msg, _, hp', hhears, _⟩ := hheard.next hspeech hpre hx
    obtain rfl := Except.ok.inj (hp'.symm.trans hp)
    exact absurd hd hhears.stays
  | satisfy _ hx hp _ _ => exact hheard.take hspeech hpre hx hp rfl rfl rfl rfl rfl rfl
  | respond _ hx hp _ _ _ => exact hheard.take hspeech hpre hx hp rfl rfl rfl rfl rfl rfl
  | ignore _ hx hp _ _ _ => exact hheard.take hspeech hpre hx hp rfl rfl rfl rfl rfl rfl
  | mismatch _ hx hp _ _ => exact hheard.take hspeech hpre hx hp rfl rfl rfl rfl rfl rfl
  | _ => exact hheard.quiet rfl rfl rfl rfl rfl rfl

theorem heard_run {world : W} {session : FixSession} {mocks : List ScenarioStep}
    {scenario : Scenario} (hspeech : Speech n sent) (hawaits : Awaits session n sent)
    (hrun : Run (runStep env) (.start world session mocks scenario) es st)
    (hpre : (es.flatMap Event.chunks).flatten <+: (sent.map SentEvent.text).flatten)
    (hclean : CutsClean (sent.map SentEvent.text) (es.flatMap Event.chunks)) :
    Heard n sent es st := by
  refine hrun.forward (fun past st =>
    (past.flatMap Event.chunks).flatten <+: (sent.map SentEvent.text).flatten →
      CutsClean (sent.map SentEvent.text) (past.flatMap Event.chunks) → Heard n sent past st)
    ?_ ?_ hpre hclean
  · intro _ _
    refine ⟨.start _, rfl, fun i r hr => (by cases hr), ?_⟩
    simpa [readings, RunState.start] using hawaits
  · intro past s s' es hs hpast hpre hclean
    rw [List.flatMap_append] at hpre hclean
    have hbefore : (past.flatMap Event.chunks).flatten <+: (sent.map SentEvent.text).flatten := by
      rw [List.flatten_append] at hpre
      exact (List.prefix_append _ _).trans hpre
    have hcleanBefore := hclean.front (List.prefix_append _ _)
    exact heard_step (runStep_stepped env hs) (hpast hbefore hcleanBefore) hspeech hbefore
      hcleanBefore

end Heard

/-! ### Both runners -/

section Speech
variable {W : Type} {env : Environment W} {st st' : RunState W} {es : List Event}

theorem typed_step (h : Stepped env st st' es) :
    ∀ e ∈ takenEvents es, ∃ t, scriptedType e.fields = some t := by
  intro e he
  cases h with
  | send _ _ hfields _ _ _ _ =>
    obtain rfl := List.mem_singleton.mp (List.mem_of_mem_filter he)
    exact ⟨_, hfields ▸ scriptedType_outgoing _ _ _ _⟩
  | sendFailed _ _ hfailed =>
    obtain rfl := List.mem_singleton.mp (List.mem_of_mem_filter he)
    exact absurd (List.of_mem_filter he) (by simp [hfailed])
  | respond _ _ _ _ _ hresp =>
    obtain rfl := List.mem_singleton.mp (List.mem_of_mem_filter he)
    obtain ⟨_, _, _, hfields⟩ := hresp.fields_eq
    exact ⟨_, hfields ▸ scriptedType_outgoing _ _ _ _⟩
  | _ => cases he

theorem speech_run (hrun : Run (runStep env) st es st') (hmocks : MocksTaken es)
    (hlegible : ∀ e ∈ takenEvents es, Legible e) :
    Speech st.session.nextOutSeq (takenEvents es) := by
  have htyped : ∀ e ∈ takenEvents es, ∃ t, scriptedType e.fields = some t := by
    refine hrun.forward (fun past _ => ∀ e ∈ takenEvents past, ∃ t, scriptedType e.fields = some t)
      (by simp [takenEvents, sentEvents]) ?_
    intro past s s' es hs hpast e he
    rw [takenEvents_append] at he
    exact (List.mem_append.mp he).elim (hpast e) (typed_step (runStep_stepped env hs) e)
  intro i e he
  have hmem := List.mem_of_getElem? he
  obtain ⟨t, ht⟩ := htyped e hmem
  obtain ⟨hframed, hspoken⟩ :=
    spoken_of_carries ((numbered_run hrun hmocks).carries i e he) (hlegible e hmem)
  refine ⟨hframed, hspoken, t, ht, ?_, ?_⟩
  · rintro rfl
    exact (hlegible e hmem).notReset ht
  · rintro rfl
    exact (hlegible e hmem).notLogout ht

end Speech

/-- What a runner receives are bytes that another runner sent. Then the messages it extracts are
the messages of the other one, the first ones in their order; it reads in each what was written,
its session takes each in its turn, and it then waits for the next number. -/
theorem runner_hears {V W : Type} {speaker : Environment V} {listener : Environment W}
    {v : V} {w : W} {speaking listening : FixSession} {mocks mocks' : List ScenarioStep}
    {scenario scenario' : Scenario} {spoken heard : List Event} {st : RunState V}
    {st' : RunState W}
    (hspeaks : Run (runStep speaker) (.start v speaking mocks scenario) spoken st)
    (hmocks : MocksTaken spoken) (hlegible : ∀ e ∈ takenEvents spoken, Legible e)
    (hlistens : Run (runStep listener) (.start w listening mocks' scenario') heard st')
    (hbytes : heard.flatMap Event.bytes <+: (takenEvents spoken).flatMap SentEvent.text)
    (hclean : CutsClean ((takenEvents spoken).map SentEvent.text) (heard.flatMap Event.chunks))
    (hawaits : Awaits listening speaking.nextOutSeq (takenEvents spoken)) :
    extractions heard = ((takenEvents spoken).map SentEvent.text).take (readings heard).length ∧
      (∀ i r, (readings heard)[i]? = some r → ∃ e, (takenEvents spoken)[i]? = some e ∧
        Hears e (speaking.nextOutSeq + Int32.ofNat i) r) ∧
      Awaits st'.session (speaking.nextOutSeq + Int32.ofNat (readings heard).length)
        ((takenEvents spoken).drop (readings heard).length) := by
  rw [← flatten_chunks, List.flatMap_def (f := SentEvent.text)] at hbytes
  have hspeech := speech_run hspeaks hmocks hlegible
  have hheard := heard_run hspeech hawaits hlistens hbytes hclean
  exact ⟨hheard.count ▸ hheard.tracks.taken_eq, hheard.hears, hheard.awaits⟩

def speakingStart : RunState Script :=
  .start { inbox := [] } { config := { senderCompId := ascii "C", targetCompId := ascii "S" } } []
    ⟨ascii "speak", [⟨.connect, []⟩, ⟨.send, [⟨35, ascii "A"⟩]⟩,
      ⟨.send, [⟨35, ascii "D"⟩, ⟨55, ascii "10"⟩]⟩]⟩

def speakingRun : List Event × RunState Script := exec (runStep scripted) 9 speakingStart

/-- The stream comes in two chunks, the second of which begins inside the first message. -/
def listeningStart : RunState Script :=
  let stream := (takenEvents speakingRun.1).flatMap SentEvent.text
  .start { inbox := [stream.take 30, stream.drop 30] }
    { config := { senderCompId := ascii "S", targetCompId := ascii "C" } } []
    ⟨ascii "listen", [⟨.connect, []⟩, ⟨.expect, [⟨35, ascii "A"⟩]⟩, ⟨.expect, [⟨35, ascii "D"⟩]⟩]⟩

def listeningRun : List Event × RunState Script := exec (runStep scripted) 20 listeningStart

theorem runner_hears_order :
    extractions listeningRun.1 =
        ((takenEvents speakingRun.1).map SentEvent.text).take (readings listeningRun.1).length ∧
      ∀ i r, (readings listeningRun.1)[i]? = some r →
        ∃ e, (takenEvents speakingRun.1)[i]? = some e ∧ Hears e (1 + Int32.ofNat i) r := by
  have hspeaks : Run (runStep scripted) speakingStart speakingRun.1 speakingRun.2 :=
    run_exec _ 9 _
  have hlistens : Run (runStep scripted) listeningStart listeningRun.1 listeningRun.2 :=
    run_exec _ 20 _
  obtain ⟨htexts, hhears, _⟩ := runner_hears hspeaks (by decide +kernel) (by decide +kernel)
    hlistens (by decide +kernel) (by decide +kernel) (by decide +kernel)
  exact ⟨htexts, hhears⟩

end Fixure
