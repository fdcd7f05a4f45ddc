import Fixure.Forwarding
import Fixure.Runner

/-!
# What the framer does with the bytes

Runner and forwarder feed a buffer and cut it by the same attempts. In every state that a run
of either reaches, the buffer is an end of what was received, and the messages extracted are
ranges of it, one behind the other. Every message costs a byte of the buffer, so extracting
ends.
-/

namespace Fixure
open Search Splitter Process

theorem framed_of_extract {separator : UInt8} (hsep : separator ∉ ascii "10=") {b m r : Bytes}
    (h : extractNextMessage separator b = (some m, r)) : Framed separator m := by
  obtain ⟨junk, mid, text, _, rfl, hfree, hfirst⟩ := extract_shape hsep h
  refine ⟨List.prefix_append _ _, ascii "8=" ++ mid, text, by simp, ?_, ?_⟩
  · rw [List.mem_append, not_or]
    exact ⟨hsep, hfree⟩
  · rw [List.append_assoc, infix_append_of_noStraddle (noStraddle_begin _)]
    exact not_or.mpr ⟨by decide, hfirst⟩

theorem cutting_extract : Cutting extractNextMessage where
  refused {separator b r} h := by
    have hsuffix := extract_suffix separator b
    rwa [h] at hsuffix
  taken {separator b m r} h := by
    obtain ⟨junk, hb, _, hcut⟩ := extract_eq_some h
    obtain ⟨a, text, _, rfl, _⟩ := cutMessage_eq_some hcut
    exact ⟨by simp, junk, hb⟩

/-- What is known of the buffer and the messages taken from it after `received`, each with the
separator of the attempt. -/
structure Conserved (separators : List UInt8) (received : Bytes)
    (messages : List (UInt8 × Bytes)) (rxBuffer : Bytes) : Prop where
  suffix : rxBuffer <:+ received
  framed : ∀ m ∈ messages, m.1 ∈ separators ∧ Framed m.1 m.2
  inOrder : InOrder received (messages.map Prod.snd)

section Fed
variable {separators : List UInt8} {received rxBuffer : Bytes} {messages : List (UInt8 × Bytes)}

theorem conserved_of_fed (hfree : ∀ separator ∈ separators, separator ∉ ascii "10=")
    (h : Fed separators extractNextMessage received messages rxBuffer) :
    Conserved separators received messages rxBuffer where
  suffix := h.suffix cutting_extract
  framed := h.forall_taken fun separator hs => framed_of_extract (hfree separator hs)
  inOrder := h.inOrder cutting_extract

theorem fed_nextMessage_taken {m r : Bytes}
    (h : Fed [soh, bar] extractNextMessage received messages rxBuffer)
    (hnext : nextMessage rxBuffer = (some m, r)) :
    Fed [soh, bar] extractNextMessage received (messages ++ [(usedSeparator rxBuffer, m)]) r := by
  rw [usedSeparator]
  cases hsoh : extractNextMessage soh rxBuffer with
  | mk piece rest =>
    cases piece with
    | some text =>
      rw [nextMessage_of_taken hsoh] at hnext
      exact h.take List.mem_cons_self (hsoh.trans hnext)
    | none =>
      have hrefused := congrArg Prod.fst hsoh
      rw [nextMessage_of_refused hrefused, ← extract_fromStart] at hnext
      exact (h.refuse (extract_refused hrefused)).take (.tail soh List.mem_cons_self) hnext

theorem fed_nextMessage_refused {r : Bytes}
    (h : Fed [soh, bar] extractNextMessage received messages rxBuffer)
    (hnext : nextMessage rxBuffer = (none, r)) :
    Fed [soh, bar] extractNextMessage received messages r := by
  cases hsoh : extractNextMessage soh rxBuffer with
  | mk piece rest =>
    cases piece with
    | some text =>
      rw [nextMessage_of_taken hsoh] at hnext
      cases hnext
    | none =>
      rw [nextMessage_of_refused (congrArg Prod.fst hsoh)] at hnext
      exact h.refuse hnext

end Fed

/-! ### The runner -/

namespace Event

def bytes : Event → Bytes
  | .received (some data) => data
  | _ => []

def messages : Event → List (UInt8 × Bytes)
  | .extracted raw => [(soh, raw)]
  | _ => []

end Event

section Runner
variable {W : Type} {env : Environment W}

theorem Stepped.fed {st st' : RunState W} {es : List Event} {received : Bytes}
    {messages : List (UInt8 × Bytes)} (h : Stepped env st st' es)
    (hfed : Fed [soh] extractNextMessage received messages st.rxBuffer) :
    Fed [soh] extractNextMessage (received ++ es.flatMap Event.bytes)
      (messages ++ es.flatMap Event.messages) st'.rxBuffer := by
  have hkeep {es : List Event} (hbytes : es.flatMap Event.bytes = [])
      (hmessages : es.flatMap Event.messages = []) :
      Fed [soh] extractNextMessage (received ++ es.flatMap Event.bytes)
        (messages ++ es.flatMap Event.messages) st.rxBuffer := by
    rwa [hbytes, hmessages, List.append_nil, List.append_nil]
  have htake {raw buffer : Bytes} {es : List Event}
      (hx : extractNextMessage soh st.rxBuffer = (some raw, buffer))
      (hbytes : es.flatMap Event.bytes = []) (hmessages : es.flatMap Event.messages = []) :
      Fed [soh] extractNextMessage (received ++ (.extracted raw :: es).flatMap Event.bytes)
        (messages ++ (.extracted raw :: es).flatMap Event.messages) buffer := by
    rw [List.flatMap_cons, List.flatMap_cons, hbytes, hmessages]
    simpa [Event.bytes, Event.messages] using hfed.take List.mem_cons_self hx
  cases h with
  | @receive _ _ _ _ _ data _ hx _ =>
    cases data with
    | none => simpa [Event.bytes, Event.messages] using hfed.refuse hx
    | some data => simpa [Event.bytes, Event.messages] using (hfed.refuse hx).receive data
  | unparsable _ hx => exact htake hx rfl rfl
  | sessionDisconnect _ hx => exact htake hx rfl rfl
  | satisfy _ hx => exact htake hx rfl rfl
  | respond _ hx => exact htake hx rfl rfl
  | ignore _ hx => exact htake hx rfl rfl
  | mismatch _ hx => exact htake hx rfl rfl
  | _ => exact hkeep rfl rfl

theorem run_fed {st st' : RunState W} {es : List Event} (h : Run (runStep env) st es st') :
    Fed [soh] extractNextMessage (st.rxBuffer ++ es.flatMap Event.bytes)
      (es.flatMap Event.messages) st'.rxBuffer := by
  apply h.forward fun past st' => Fed [soh] extractNextMessage
    (st.rxBuffer ++ past.flatMap Event.bytes) (past.flatMap Event.messages) st'.rxBuffer
  · rw [List.flatMap_nil, List.append_nil]
    exact .start _
  · intro past s s' es hs hfed
    rw [List.flatMap_append, List.flatMap_append, ← List.append_assoc]
    exact (runStep_stepped env hs).fed hfed

theorem run_extracted_le {st st' : RunState W} {es : List Event}
    (h : Run (runStep env) st es st') (hnone : es.flatMap Event.bytes = []) :
    (es.flatMap Event.messages).length + st'.rxBuffer.length ≤ st.rxBuffer.length := by
  have hle := (run_fed h).length_le cutting_extract
  rwa [hnone, List.append_nil] at hle

end Runner

/-! ### The forwarder -/

section Forwarder
variable {W : Type} {wire : Wire W} {iteration : Iteration} {isClientToServer : Bool}

theorem Forwarded.fed {st st' : ForwardState W} {es : List ForwardEvent} {received : Bytes}
    {messages : List (UInt8 × Bytes)} (h : Forwarded wire st st' es)
    (hfed : Fed [soh, bar] extractNextMessage received messages st.rxBuffer) :
    Fed [soh, bar] extractNextMessage (received ++ (es.flatMap ForwardEvent.chunks).flatten)
      (messages ++ es.flatMap ForwardEvent.messages) st'.rxBuffer := by
  have hkeep {es : List ForwardEvent} (hbytes : es.flatMap ForwardEvent.chunks = [])
      (hmessages : es.flatMap ForwardEvent.messages = []) :
      Fed [soh, bar] extractNextMessage (received ++ (es.flatMap ForwardEvent.chunks).flatten)
        (messages ++ es.flatMap ForwardEvent.messages) st.rxBuffer := by
    rwa [hbytes, hmessages, List.flatten_nil, List.append_nil, List.append_nil]
  cases h with
  | @receive _ data _ _ =>
    simpa [ForwardEvent.chunks, ForwardEvent.messages] using hfed.receive data
  | extract _ hnext hrest =>
    have htaken := fed_nextMessage_taken hfed hnext
    rw [← hrest] at htaken
    simpa [ForwardEvent.chunks, ForwardEvent.messages] using htaken
  | drained _ hnext =>
    simpa [ForwardEvent.chunks, ForwardEvent.messages] using fed_nextMessage_refused hfed hnext
  | _ => exact hkeep rfl rfl

theorem forward_fed {st st' : ForwardState W} {es : List ForwardEvent}
    (h : Run (forwardStep wire iteration isClientToServer) st es st') :
    Fed [soh, bar] extractNextMessage (st.rxBuffer ++ (es.flatMap ForwardEvent.chunks).flatten)
      (es.flatMap ForwardEvent.messages) st'.rxBuffer := by
  apply h.forward fun past (st' : ForwardState W) => Fed [soh, bar] extractNextMessage
    (st.rxBuffer ++ (past.flatMap ForwardEvent.chunks).flatten)
    (past.flatMap ForwardEvent.messages) st'.rxBuffer
  · rw [List.flatMap_nil, List.flatten_nil, List.append_nil]
    exact .start _
  · intro past s s' es hs hfed
    rw [List.flatMap_append, List.flatMap_append, List.flatten_append, ← List.append_assoc]
    exact (forwardStep_forwarded hs).fed hfed

/-- The loop over the buffer comes to its end, and the chunk is sent on. -/
theorem exists_run_drained {st : ForwardState W} {chunk : Bytes}
    (hc : st.control = .inspecting chunk) :
    ∃ es st', Run (forwardStep wire iteration isClientToServer) st es st' ∧
      st'.control = .forwarding chunk := by
  induction hn : st.rxBuffer.length using Nat.strong_induction_on generalizing st with
  | _ n ih =>
    cases hnext : nextMessage st.rxBuffer with
    | mk piece rest =>
      cases piece with
      | none =>
        have hs : forwardStep wire iteration isClientToServer st =
            some ({ st with rxBuffer := rest, control := .forwarding chunk }, []) := by
          simp only [forwardStep, hc, hnext]
        exact ⟨_, _, .next hs (.refl _), rfl⟩
      | some text =>
        have hs : ∃ traffic es, forwardStep wire iteration isClientToServer st =
            some (⟨traffic, .inspecting chunk⟩, es) ∧ Traffic.rxBuffer traffic = rest := by
          simp only [forwardStep, hc, hnext]
          exact ⟨_, _, rfl, observe_rxBuffer _ _⟩
        obtain ⟨traffic, es, hs, hrest⟩ := hs
        have hlt : traffic.rxBuffer.length < n := by
          rw [hrest, ← hn]
          exact nextMessage_shortens _ _ _ hnext
        obtain ⟨es', st', hrun, hend⟩ := @ih _ hlt ⟨traffic, .inspecting chunk⟩ rfl rfl
        exact ⟨_, st', .next hs hrun, hend⟩

end Forwarder

/-- In every state of every run of either loop the framer has neither invented, doubled nor
reordered bytes, and extracting ends. -/
theorem framer_conserves {W V : Type} (env : Environment W) (wire : Wire V)
    (iteration : Iteration) (isClientToServer : Bool) :
    (∀ world session mocks scenario es st,
        Run (runStep env) (.start world session mocks scenario) es st →
        Conserved [soh] (es.flatMap Event.bytes) (es.flatMap Event.messages) st.rxBuffer) ∧
      (∀ world proxy es st,
        Run (forwardStep wire iteration isClientToServer) (.start world proxy) es st →
        Conserved [soh, bar] (es.flatMap ForwardEvent.chunks).flatten
          (es.flatMap ForwardEvent.messages) st.rxBuffer) ∧
      (∀ b m r, extractNextMessage soh b = (some m, r) ∨ nextMessage b = (some m, r) →
        r.length < b.length) ∧
      (∀ st es st', Run (runStep env) st es st' → es.flatMap Event.bytes = [] →
        (es.flatMap Event.messages).length + st'.rxBuffer.length ≤ st.rxBuffer.length) ∧
      ∀ st chunk, st.control = .inspecting chunk →
        ∃ es st', Run (forwardStep wire iteration isClientToServer) st es st' ∧
          st'.control = .forwarding chunk := by
  refine ⟨fun world session mocks scenario es st h => ?_, fun world proxy es st h => ?_,
    fun b m r h => ?_, fun st es st' h hnone => run_extracted_le h hnone,
    fun st chunk hc => exists_run_drained hc⟩
  · exact conserved_of_fed (by decide +kernel) (run_fed h)
  · exact conserved_of_fed (by decide +kernel) (forward_fed h)
  · rcases h with h | h
    · exact (extract_lawful soh).shorter h
    · exact nextMessage_shortens _ _ _ h

/-- A chunk that holds a message with each of the separators, and half of a third one. -/
theorem framer_conserves_twoSeparators :
    let run := exec (forwardStep scriptedWire ⟨id, .refl⟩ true) 9
      (.start ⟨[ascii "x8=F\x0110=1\x01y8=G|10=2|8=", ascii "H|10="], true⟩ {})
    Conserved [soh, bar] (run.1.flatMap ForwardEvent.chunks).flatten
      (run.1.flatMap ForwardEvent.messages) run.2.rxBuffer :=
  (framer_conserves scripted scriptedWire ⟨id, .refl⟩ true).2.1 _ _ _ _ (run_exec _ 9 _)

end Fixure
