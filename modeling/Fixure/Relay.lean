import Fixure.Delivery

/-!
# Through the proxy

Between two runners the proxy receives what the first one sends, and the second one receives what
the proxy sends on. The bytes stay as they are. So the second runner still hears the first, and the
proxy has taken every message off the stream before the second runner can have it.
-/

namespace Fixure
open Search Decimal Splitter Process

/-! ### The second separator -/

/-- Where no bar stands behind the checksum, an attempt with the bar takes nothing. -/
theorem cut_bar_none {covered value : Bytes} (hten : ¬ ascii "10=" <:+: covered ++ ascii "10")
    (hvalue : bar ∉ value) :
    (cutMessage bar (covered ++ (ascii "10=" ++ (value ++ [soh])))).1 = none := by
  cases hcut : cutMessage bar (covered ++ (ascii "10=" ++ (value ++ [soh]))) with
  | mk piece r =>
    cases piece with
    | none => rfl
    | some m =>
      obtain ⟨a, text, hsplit, _, _, hfind⟩ := cutMessage_eq_some hcut
      have hfirst : find (ascii "10=") (covered ++ ascii "10=" ++ (value ++ [soh])) =
          some covered.length := find_append (by decide) hten _
      rw [List.append_assoc, hfind, Option.some.injEq] at hfirst
      obtain ⟨_, hbehind⟩ := List.append_inj hsplit hfirst.symm
      have hmem : bar ∈ ascii "10=" ++ (value ++ [soh]) := by
        rw [hbehind]
        simp
      rcases List.mem_append.mp hmem with hmem | hmem
      · exact absurd hmem (by decide)
      · rcases List.mem_append.mp hmem with hmem | hmem
        · exact absurd hmem hvalue
        · exact absurd hmem (by decide)

theorem extract_bar_wire {first : Field} {rest : List Field}
    (hno : ¬ ascii "10=" <:+: coveredText soh first rest) :
    (extractNextMessage bar (wire soh first rest)).1 = none := by
  obtain ⟨t, ht⟩ := (framed_wire hno).begins
  have hfind : find (ascii "8=") (wire soh first rest) = some 0 := by
    rw [← ht]
    exact find_prefix _
  have hdigits : bar ∉ (checksumField (coveredText soh first rest)).value := fun hbar =>
    absurd (isDigit_of_mem_threeDigits (Nat.mod_lt _ (by decide)) hbar) (by decide)
  rw [extract_of_find_some hfind, List.drop_zero, wire_eq_checkSum, List.append_assoc (ascii "10=")]
  exact cut_bar_none (ten_notInfix_covered hno) hdigits

theorem nextMessage_nil : nextMessage [] = (none, []) := by decide

theorem nextMessage_framed {m : Bytes} (hm : Framed soh m) (x : Bytes) :
    nextMessage (m ++ x) = (some m, x) :=
  nextMessage_of_taken (extract_framed hm x)

/-- The forwarder takes the message with the first separator, however much of it has come. -/
theorem usedSeparator_ahead {m b rest piece r : Bytes} (hm : Framed soh m)
    (hbar : (extractNextMessage bar m).1 = none) (hb : b <+: m ++ rest)
    (h : nextMessage b = (some piece, r)) :
    extractNextMessage soh b = (some piece, r) ∧ usedSeparator b = soh := by
  cases hsoh : extractNextMessage soh b with
  | mk taken left =>
    cases taken with
    | some text =>
      rw [nextMessage_of_taken hsoh] at h
      exact ⟨h, by rw [usedSeparator, hsoh]; rfl⟩
    | none =>
      -- the buffer ends inside the message, so the bar would take a piece of the whole message
      have hrefused := congrArg Prod.fst hsoh
      rw [nextMessage_of_refused hrefused] at h
      have hinside : b <+: m := by
        rcases List.prefix_or_prefix_of_prefix hb (List.prefix_append m rest) with hle | hle
        · exact hle
        · obtain ⟨x, rfl⟩ := hle
          rw [extract_framed hm] at hrefused
          cases hrefused
      obtain ⟨x, rfl⟩ := hinside
      rw [(extract_lawful bar).stable h x] at hbar
      cases hbar

theorem delimited_nextMessage {m : Bytes} (hm : Framed soh m)
    (hbar : (extractNextMessage bar m).1 = none) : Delimited nextMessage m := by
  intro b rest piece r hb h
  exact (extract_lawful soh).delimited (extract_framed hm) hb
    (usedSeparator_ahead hm hbar hb h).1

/-! ### What the forwarder sees -/

/-- A framed message that an attempt with the bar leaves alone. -/
structure Relayable (m : Bytes) : Prop where
  framed : Framed soh m
  unbarred : (extractNextMessage bar m).1 = none

def ForwardEvent.seen : ForwardEvent → List Observation
  | .observed seen => [seen]
  | _ => []

def takenTexts (es : List ForwardEvent) : List Bytes :=
  (es.flatMap ForwardEvent.messages).map Prod.snd

/-- The forwarder has taken the first messages of the stream, and among them all of those that it
has sent on as a whole. -/
structure Watched {W : Type} (wire : Wire W) (ms : List Bytes) (past : List ForwardEvent)
    (st : ForwardState W) : Prop where
  tracks : CutsAlong ms (past.flatMap ForwardEvent.chunks).flatten (takenTexts past) st.rxBuffer
  separators : ∀ m ∈ past.flatMap ForwardEvent.messages, m.1 = soh
  relayed : Relayed wire (past.flatMap ForwardEvent.chunks).flatten
    (past.flatMap ForwardEvent.sentOn) st
  ahead : TakesAll ms (past.flatMap ForwardEvent.sentOn) (takenTexts past)
  drained : (∀ chunk, st.control ≠ .inspecting chunk) → st.control ≠ .closed →
    TakesAll ms (past.flatMap ForwardEvent.chunks).flatten (takenTexts past)

section Watched
variable {W : Type} {wire : Wire W} {iteration : Iteration} {isClientToServer : Bool}
  {ms : List Bytes} {past es : List ForwardEvent} {st st' : ForwardState W}

theorem watched_start (hms : ∀ m ∈ ms, Relayable m) (world : W) (proxy : Proxy) :
    Watched wire ms [] (.start world proxy) := by
  have hnext : ∀ m ∈ ms, ∀ x, (nextMessage (m ++ x)).1 ≠ none := fun m hm x => by
    simp [nextMessage_framed (hms m hm).framed]
  have hall : TakesAll ms [] [] := (CutsAlong.start ms).takesAll hnext (by rw [nextMessage_nil])
  exact ⟨.start ms, by simp, .inl rfl, hall, fun _ _ => hall⟩

theorem nextMessage_keeps (hms : ∀ m ∈ ms, Relayable m) {chunks : List Bytes} {taken : List Bytes}
    {b r : Bytes} (htracks : CutsAlong ms chunks.flatten taken b)
    (hpre : chunks.flatten <+: ms.flatten) (hclean : CutsClean ms chunks)
    (h : nextMessage b = (none, r)) : r = b := by
  cases hsoh : extractNextMessage soh b with
  | mk piece left =>
    cases piece with
    | some text =>
      rw [nextMessage_of_taken hsoh] at h
      cases h
    | none =>
      have hrefused := congrArg Prod.fst hsoh
      rw [nextMessage_of_refused hrefused] at h
      have hleft := extract_refused (congrArg Prod.fst h)
      rw [h] at hleft
      obtain rfl := (Prod.mk.inj hleft).2
      exact refused_keeps (fun m hm => (hms m hm).framed) htracks hpre hclean
        (extract_refused hrefused)

theorem takenTexts_append (past es : List ForwardEvent) :
    takenTexts (past ++ es) = takenTexts past ++ takenTexts es := by
  rw [takenTexts, List.flatMap_append, List.map_append]
  rfl

/-- A step that neither receives nor takes nor sends anything. -/
theorem Watched.quiet (h : Watched wire ms past st) {left : Bytes} (hleft : left = st.rxBuffer)
    (hbuffer : st'.rxBuffer = left)
    (hrelayed : Relayed wire (past.flatMap ForwardEvent.chunks).flatten
      (past.flatMap ForwardEvent.sentOn) st')
    (hdrained : (∀ chunk, st'.control ≠ .inspecting chunk) → st'.control ≠ .closed →
      TakesAll ms (past.flatMap ForwardEvent.chunks).flatten (takenTexts past)) :
    Watched wire ms past st' :=
  ⟨by rw [hbuffer, hleft]; exact h.tracks, h.separators, hrelayed, h.ahead, hdrained⟩

theorem watched_step (hms : ∀ m ∈ ms, Relayable m) (h : Forwarded wire st st' es)
    (hwatched : Watched wire ms past st)
    (hpre : (past.flatMap ForwardEvent.chunks).flatten <+: ms.flatten)
    (hclean : CutsClean ms (past.flatMap ForwardEvent.chunks)) :
    Watched wire ms (past ++ es) st' := by
  have hrelayed : Relayed wire ((past ++ es).flatMap ForwardEvent.chunks).flatten
      ((past ++ es).flatMap ForwardEvent.sentOn) st' := by
    rw [List.flatMap_append, List.flatMap_append, List.flatten_append]
    exact hwatched.relayed.step h
  have hnext : ∀ m ∈ ms, ∀ x, (nextMessage (m ++ x)).1 ≠ none := fun m hm x => by
    simp [nextMessage_framed (hms m hm).framed]
  have hdone (hc : ∃ rest, st.control = .forwarding rest) :
      TakesAll ms (past.flatMap ForwardEvent.chunks).flatten (takenTexts past) := by
    obtain ⟨rest, hc⟩ := hc
    exact hwatched.drained (fun chunk => by simp [hc]) (by simp [hc])
  cases h with
  | stop hc =>
    rw [List.append_nil] at hrelayed ⊢
    exact hwatched.quiet rfl rfl hrelayed fun _ hopen => absurd rfl hopen
  | sent hc =>
    rw [List.append_nil] at hrelayed ⊢
    exact hwatched.quiet rfl rfl hrelayed fun _ _ => hdone ⟨_, hc⟩
  | sendFailed hc =>
    rw [List.append_nil] at hrelayed ⊢
    exact hwatched.quiet rfl rfl hrelayed fun _ _ => hdone ⟨_, hc⟩
  | drained hc hrefused =>
    rw [List.append_nil] at hrelayed ⊢
    refine hwatched.quiet (nextMessage_keeps hms hwatched.tracks hpre hclean hrefused) rfl hrelayed ?_
    exact fun _ _ => hwatched.tracks.takesAll hnext (by rw [hrefused])
  | @receive _ data hc _ =>
    have htexts : takenTexts (past ++ [.received data]) = takenTexts past := by
      rw [takenTexts_append]
      exact List.append_nil _
    refine ⟨?_, ?_, hrelayed, ?_, fun hrest => absurd rfl (hrest data)⟩
    · rw [htexts, List.flatMap_append, List.flatten_append]
      simpa [ForwardEvent.chunks] using hwatched.tracks.receive data
    · simpa [ForwardEvent.messages] using hwatched.separators
    · rw [htexts, List.flatMap_append]
      simpa [ForwardEvent.sentOn] using hwatched.ahead
  | @extract chunk text rest traffic seen hc htaken hrest =>
    obtain ⟨hm, htracks⟩ := hwatched.tracks.take hpre (by rw [nextMessage_nil])
      (fun m hm => delimited_nextMessage (hms m hm).framed (hms m hm).unbarred) htaken
    have hsoh : usedSeparator st.rxBuffer = soh := by
      rcases hwatched.tracks.ahead hpre with hempty | ⟨m, rest, hm, hb⟩
      · rw [hempty, nextMessage_nil] at htaken
        cases htaken
      · have hrelayable := hms m (List.mem_of_getElem? hm)
        exact (usedSeparator_ahead hrelayable.framed hrelayable.unbarred hb htaken).2
    have htexts : takenTexts (past ++ [.extracted (usedSeparator st.rxBuffer) text,
        .observed seen]) = takenTexts past ++ [text] := by
      rw [takenTexts_append]
      rfl
    refine ⟨?_, ?_, hrelayed, ?_, fun hinspecting => absurd rfl (hinspecting chunk)⟩
    · rw [htexts, List.flatMap_append]
      simpa [ForwardEvent.chunks, hrest] using htracks
    · rw [List.flatMap_append]
      intro m hm
      rcases List.mem_append.mp hm with hm | hm
      · exact hwatched.separators m hm
      · rw [List.mem_singleton.mp hm]
        exact hsoh
    · rw [htexts, List.flatMap_append]
      simpa [ForwardEvent.sentOn] using hwatched.ahead.mono (List.prefix_refl _)
        (by rw [List.length_append]; omega)
  | send hc =>
    have htexts (data : Bytes) : takenTexts (past ++ [.forwarded data]) = takenTexts past := by
      rw [takenTexts_append]
      exact List.append_nil _
    have hreceived (data : Bytes) :
        (past ++ [ForwardEvent.forwarded data]).flatMap ForwardEvent.chunks =
        past.flatMap ForwardEvent.chunks := by
      rw [List.flatMap_append]
      exact List.append_nil _
    have hall := hdone ⟨_, hc⟩
    refine ⟨?_, ?_, hrelayed, ?_, ?_⟩
    · rw [htexts, hreceived]
      exact hwatched.tracks
    · simpa [ForwardEvent.messages] using hwatched.separators
    · have hsent := hrelayed.isPrefix
      rw [hreceived] at hsent
      rw [htexts]
      exact hall.mono hsent (Nat.le_refl _)
    · rw [htexts, hreceived]
      exact fun _ _ => hall

theorem watched_run (hms : ∀ m ∈ ms, Relayable m) {world : W} {proxy : Proxy}
    (hrun : Run (forwardStep wire iteration isClientToServer) (.start world proxy) es st)
    (hpre : (es.flatMap ForwardEvent.chunks).flatten <+: ms.flatten)
    (hclean : CutsClean ms (es.flatMap ForwardEvent.chunks)) : Watched wire ms es st := by
  refine hrun.forward (fun past st => (past.flatMap ForwardEvent.chunks).flatten <+: ms.flatten →
    CutsClean ms (past.flatMap ForwardEvent.chunks) → Watched wire ms past st) ?_ ?_ hpre hclean
  · exact fun _ _ => watched_start hms world proxy
  · intro past s s' es hs hpast hpre hclean
    rw [List.flatMap_append] at hpre hclean
    have hbefore : (past.flatMap ForwardEvent.chunks).flatten <+: ms.flatten := by
      rw [List.flatten_append] at hpre
      exact (List.prefix_append _ _).trans hpre
    have hcleanBefore := hclean.front (List.prefix_append _ _)
    exact watched_step hms (forwardStep_forwarded hs) (hpast hbefore hcleanBefore) hbefore
      hcleanBefore

/-- Every text that is taken is observed, as what the parser makes of it. -/
theorem seen_step (h : forwardStep wire iteration isClientToServer st = some (st', es)) :
    (es.flatMap ForwardEvent.seen).map Observation.result =
      (takenTexts es).map parseExtracted := by
  have hquiet {s : ForwardState W} {es : List ForwardEvent} (h : some (s, []) = some (st', es)) :
      (es.flatMap ForwardEvent.seen).map Observation.result =
        (takenTexts es).map parseExtracted := by
    obtain ⟨_, rfl⟩ := Prod.mk.inj (Option.some.inj h)
    rfl
  rw [forwardStep] at h
  cases hc : st.control with
  | receiving =>
    simp only [hc] at h
    split at h
    · exact hquiet h
    · split at h
      · exact hquiet h
      · obtain ⟨_, rfl⟩ := Prod.mk.inj (Option.some.inj h)
        rfl
  | inspecting chunk =>
    simp only [hc] at h
    cases hnext : nextMessage st.rxBuffer with
    | mk piece rest =>
      cases piece with
      | none =>
        simp only [hnext] at h
        exact hquiet h
      | some text =>
        simp only [hnext] at h
        obtain ⟨_, rfl⟩ := Prod.mk.inj (Option.some.inj h)
        simp [takenTexts, ForwardEvent.seen, ForwardEvent.messages, observe_result]
  | forwarding rest =>
    cases rest with
    | nil =>
      simp only [hc] at h
      exact hquiet h
    | cons b rest =>
      simp only [hc] at h
      split_ifs at h
      · exact hquiet h
      · obtain ⟨_, rfl⟩ := Prod.mk.inj (Option.some.inj h)
        rfl
  | closed => simp [hc] at h

theorem seen_run {st : ForwardState W}
    (hrun : Run (forwardStep wire iteration isClientToServer) st es st') :
    (es.flatMap ForwardEvent.seen).map Observation.result =
      (takenTexts es).map parseExtracted := by
  refine hrun.forward (fun past _ => (past.flatMap ForwardEvent.seen).map Observation.result =
    (takenTexts past).map parseExtracted) rfl ?_
  intro past s s' es hs hpast
  rw [List.flatMap_append, List.map_append, hpast, seen_step hs, takenTexts_append, List.map_append]

end Watched

/-! ### Two runners and the proxy -/

theorem relayable_of_carries {e : SentEvent} {n : Int32} (h : Carries e n)
    (hlegible : Legible e) : Relayable e.text := by
  obtain ⟨buffer, hbuffer, hwritten⟩ := h.written
  cases hfields : e.fields with
  | nil =>
    rw [hfields] at hwritten
    cases hwritten
  | cons first rest =>
    have hframeable := hlegible.frameable
    rw [hfields] at hwritten hframeable
    obtain ⟨h8, _, htext⟩ := (serializeMessage_eq_ok_iff first rest (by omega) soh).mp hwritten
    have hno : ¬ ascii "10=" <:+: coveredText soh first rest :=
      fun hten => (ten_infix_coveredText_iff rest h8).mp hten hframeable
    rw [htext]
    exact ⟨framed_wire hno, extract_bar_wire hno⟩

/-- A runner speaks to another one through the proxy. The listener still hears the speaker, as if
the proxy were not there; and each message that it has read, the proxy has observed before, and
understood like the listener unless there is a bar in the message. -/
theorem proxy_relays {U V W : Type} {speaker : Environment U} {listener : Environment V}
    {wire : Wire W} {iteration : Iteration} {isClientToServer : Bool} {u : U} {v : V} {w : W}
    {proxy : Proxy} {speaking listening : FixSession} {mocks mocks' : List ScenarioStep}
    {scenario scenario' : Scenario} {spoken heard : List Event} {passed : List ForwardEvent}
    {st : RunState U} {between : ForwardState W} {st' : RunState V}
    (hspeaks : Run (runStep speaker) (.start u speaking mocks scenario) spoken st)
    (hmocks : MocksTaken spoken) (hlegible : ∀ e ∈ takenEvents spoken, Legible e)
    (hforwards : Run (forwardStep wire iteration isClientToServer) (.start w proxy) passed between)
    (hreceives : (passed.flatMap ForwardEvent.chunks).flatten <+:
      (takenEvents spoken).flatMap SentEvent.text)
    (hclean : CutsClean ((takenEvents spoken).map SentEvent.text)
      (passed.flatMap ForwardEvent.chunks))
    (hlistens : Run (runStep listener) (.start v listening mocks' scenario') heard st')
    (hbytes : heard.flatMap Event.bytes <+: passed.flatMap ForwardEvent.sentOn)
    (hclean' : CutsClean ((takenEvents spoken).map SentEvent.text) (heard.flatMap Event.chunks))
    (hawaits : Awaits listening speaking.nextOutSeq (takenEvents spoken)) :
    extractions heard <+: takenTexts passed ∧
      takenTexts passed <+: (takenEvents spoken).map SentEvent.text ∧
      (∀ m ∈ passed.flatMap ForwardEvent.messages, m.1 = soh) ∧
      ∀ i r, (readings heard)[i]? = some r →
        (∃ e, (takenEvents spoken)[i]? = some e ∧
          Hears e (speaking.nextOutSeq + Int32.ofNat i) r) ∧
        ∃ seen, (passed.flatMap ForwardEvent.seen)[i]? = some seen ∧
          (bar ∉ r.raw → seen.result = .ok r.msg) := by
  set ms := (takenEvents spoken).map SentEvent.text with hms
  have hrelayable : ∀ m ∈ ms, Relayable m := by
    intro m hm
    obtain ⟨e, he, rfl⟩ := List.mem_map.mp hm
    obtain ⟨i, hi⟩ := List.getElem?_of_mem he
    exact relayable_of_carries ((numbered_run hspeaks hmocks).carries i e hi) (hlegible e he)
  rw [List.flatMap_def (f := SentEvent.text), ← hms] at hreceives
  have hwatched := watched_run hrelayable hforwards hreceives hclean
  have hsent := hwatched.relayed.isPrefix
  rw [← flatten_chunks] at hbytes
  have hheard := heard_run (speech_run hspeaks hmocks hlegible) hawaits hlistens
    (hbytes.trans (hsent.trans hreceives)) hclean'
  have hbound : (extractions heard).length ≤ ms.length := by
    rw [hheard.tracks.taken_eq]
    exact List.length_take_le' _ _
  have hcount : (extractions heard).length ≤ (takenTexts passed).length := by
    apply hwatched.ahead _ hbound
    rw [← hheard.tracks.taken_eq]
    refine List.IsPrefix.trans ?_ hbytes
    rw [hheard.tracks.received_eq]
    exact List.prefix_append _ _
  have htexts : extractions heard <+: takenTexts passed := by
    rw [hheard.tracks.taken_eq, hwatched.tracks.taken_eq]
    exact List.take_prefix_take_left hcount
  refine ⟨htexts, ?_, hwatched.separators, fun i r hr => ?_⟩
  · rw [hwatched.tracks.taken_eq]
    exact List.take_prefix _ _
  obtain ⟨e, he, hhears⟩ := hheard.hears i r hr
  refine ⟨⟨e, he, hhears⟩, ?_⟩
  have hi : i < (takenTexts passed).length := by
    have hlt := (List.getElem?_eq_some_iff.mp hr).1
    rw [← hheard.count] at hlt
    omega
  have htaken : (takenTexts passed)[i]? = some r.raw := by
    rw [hwatched.tracks.taken_eq, List.getElem?_take_of_lt hi, hms, List.getElem?_map, he,
      hhears.raw_eq]
    rfl
  have hresult := congrArg (·[i]?) (seen_run hforwards)
  simp only [List.getElem?_map, htaken, Option.map_some] at hresult
  obtain ⟨seen, hseen, hparsed⟩ := Option.map_eq_some_iff.mp hresult
  refine ⟨seen, hseen, fun hbar => ?_⟩
  have hspoken : FixMessage.parse r.raw soh = .ok r.msg := hhears.raw_eq ▸ hhears.spoken.parsed
  have hframed : Framed soh r.raw := by
    rw [hhears.raw_eq]
    exact (hrelayable _ (List.mem_map_of_mem (List.mem_of_getElem? he))).framed
  rw [hparsed, (parseExtracted_forwardable_iff ⟨⟨_, hspoken⟩, hframed⟩).mpr hbar, hspoken]

def speakerStream : Bytes := (takenEvents speakingRun.1).flatMap SentEvent.text

def passingRun : List ForwardEvent × ForwardState Inbound :=
  exec (forwardStep scriptedWire ⟨id, .refl⟩ true) 20
    (.start ⟨[speakerStream.take 25, speakerStream.drop 25], true⟩ {})

def proxyStream : Bytes := passingRun.1.flatMap ForwardEvent.sentOn

def hearingStart : RunState Script :=
  .start { inbox := [proxyStream.take 60, proxyStream.drop 60] }
    { config := { senderCompId := ascii "S", targetCompId := ascii "C" } } []
    ⟨ascii "hear", [⟨.expect, [⟨35, ascii "A"⟩]⟩, ⟨.expect, [⟨35, ascii "D"⟩]⟩]⟩

def hearingRun : List Event × RunState Script := exec (runStep scripted) 20 hearingStart

theorem proxy_relays_order :
    extractions hearingRun.1 <+: takenTexts passingRun.1 ∧
      takenTexts passingRun.1 <+: (takenEvents speakingRun.1).map SentEvent.text := by
  have hforwards : Run (forwardStep scriptedWire ⟨id, .refl⟩ true)
      (.start ⟨[speakerStream.take 25, speakerStream.drop 25], true⟩ {}) passingRun.1
      passingRun.2 := run_exec _ 20 _
  have hlistens : Run (runStep scripted) hearingStart hearingRun.1 hearingRun.2 := run_exec _ 20 _
  obtain ⟨hheard, htaken, _⟩ := proxy_relays (run_exec (runStep scripted) 9 speakingStart)
    (by decide +kernel) (by decide +kernel) hforwards (by decide +kernel) (by decide +kernel)
    hlistens (by decide +kernel) (by decide +kernel) (by decide +kernel)
  exact ⟨hheard, htaken⟩

end Fixure
