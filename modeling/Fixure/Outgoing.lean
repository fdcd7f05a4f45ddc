import Fixure.RoundTrip
import Fixure.Runner

/-!
# Sequence numbers of outgoing messages

Both places that send a message take its number from the session and advance the counter
afterwards, but a mock response advances it whether or not the connection took the
message. The numbers of the messages that went out are consecutive in every run in which
the connection takes all mock responses.
-/

namespace Fixure
open Decimal Process

/-- The message carries the sequence number `n`: it was written from fields with this
number in their only field 34, and where the separator is not part of a value the parser
reads it there. -/
structure Carries (e : SentEvent) (n : Int32) : Prop where
  written : ∃ buffer : Bytes, buffer.length = 4096 ∧
    serializeMessage e.fields buffer soh = .ok e.text
  seqNum : (e.fields.filter fun f => f.tag = 34) = [⟨34, intNumeral n.toInt⟩]
  readable : (∀ f ∈ e.fields, soh ∉ f.value) → e.fields.length ≤ 254 →
    ∃ msg, FixMessage.parse e.text soh = .ok msg ∧ msg.getInt 34 = some n

theorem wireFields_filter {separator : UInt8} {first : Field} (rest : List Field)
    (h8 : first.tag = 8) {tag : Int32} (htag : isFraming tag = false) :
    ((wireFields separator first rest).filter fun f => f.tag = tag) =
      (first :: rest).filter fun f => f.tag = tag := by
  have hbody : ((bodyFields rest).filter fun f => f.tag = tag) =
      rest.filter fun f => f.tag = tag := by
    rw [bodyFields, List.filter_filter]
    refine List.filter_congr fun f _ => ?_
    by_cases h : f.tag = tag
    · simp [h, htag]
    · simp [h]
  have hdrop (f : Field) (fs : List Field) (hf : isFraming f.tag = true) :
      ((f :: fs).filter fun f => f.tag = tag) = fs.filter fun f => f.tag = tag := by
    refine List.filter_cons_of_neg ?_
    rw [decide_eq_true_iff]
    rintro rfl
    rw [hf] at htag
    cases htag
  rw [wireFields, coveredFields, List.filter_append, hdrop _ _ rfl, hdrop _ _ rfl, hbody,
    hdrop _ _ rfl, List.filter_nil, List.append_nil, hdrop _ _ (by rw [h8]; rfl)]

theorem carries_of_written {e : SentEvent} {n : Int32} {buffer : Bytes}
    (hbuffer : buffer.length = 4096) (hwritten : serializeMessage e.fields buffer soh = .ok e.text)
    (hseq : (e.fields.filter fun f => f.tag = 34) = [⟨34, intNumeral n.toInt⟩]) : Carries e n := by
  refine ⟨⟨buffer, hbuffer, hwritten⟩, hseq, fun hfree hcount => ?_⟩
  cases hfields : e.fields with
  | nil =>
    rw [hfields] at hwritten
    cases hwritten
  | cons first rest =>
    rw [hfields] at hwritten hseq hfree hcount
    obtain ⟨h8, hfit, htext⟩ :=
      (serializeMessage_eq_ok_iff first rest (by omega) soh).mp hwritten
    have hbody : (bodyFields rest).length ≤ 253 := by
      have := List.length_filter_le (fun f => !isFraming f.tag) rest
      rw [List.length_cons] at hcount
      rw [bodyFields]
      omega
    refine ⟨_, htext ▸ parse_wire (by decide) (by decide) hfree hbody (by omega), ?_⟩
    refine getInt_eq_some_iff.mpr ⟨intNumeral n.toInt, ?_, (spells_intNumeral _).leads⟩
    rw [FixMessage.getField, ← List.head?_filter, wireFields_filter rest h8 (by decide), hseq]
    rfl

theorem outgoingFields_seqNum (session : FixSession) (msgType sendingTime : Bytes)
    (fields : List Field) :
    ((outgoingFields session msgType sendingTime fields).filter fun f => f.tag = 34) =
      [⟨34, intNumeral session.nextOutSeq.toInt⟩] := by
  have hextra : ((fields.filter fun f => !isHeader f).filter fun f => f.tag = 34) = [] := by
    rw [List.filter_filter]
    refine List.filter_eq_nil_iff.mpr fun f _ => ?_
    by_cases h : f.tag = 34
    · simp [h, isHeader]
    · simp [h]
  rw [outgoingFields, List.filter_append, hextra, List.append_nil, FixSession.prepareHeader]
  simp [Writer.toChars_tag]

/-! ### Runs -/

def sentEvents (es : List Event) : List SentEvent :=
  es.filterMap fun
    | .sent e => some e
    | _ => none

def takenEvents (es : List Event) : List SentEvent := (sentEvents es).filter SentEvent.ok

theorem takenEvents_append (es es' : List Event) :
    takenEvents (es ++ es') = takenEvents es ++ takenEvents es' := by
  rw [takenEvents, sentEvents, List.filterMap_append, List.filter_append]
  rfl

/-- `events` carry consecutive numbers from `s` on, and `t` is the next one. -/
structure Numbered (s : Int32) (events : List SentEvent) (t : Int32) : Prop where
  carries : ∀ i e, events[i]? = some e → Carries e (s + Int32.ofNat i)
  next : t = s + Int32.ofNat events.length

theorem Numbered.nil (s : Int32) : Numbered s [] s :=
  ⟨fun i e h => by simp at h, by simp⟩

theorem Numbered.single {s : Int32} {e : SentEvent} (h : Carries e s) :
    Numbered s [e] (s + 1) := by
  refine ⟨fun i e' h' => ?_, rfl⟩
  cases i with
  | zero =>
    obtain rfl := Option.some.inj h'
    simpa using h
  | succ i => simp at h'

theorem Numbered.append {s t u : Int32} {xs ys : List SentEvent} (h : Numbered s xs t)
    (h' : Numbered t ys u) : Numbered s (xs ++ ys) u := by
  constructor
  · intro i e he
    rcases lt_or_ge i xs.length with hlt | hge
    · rw [List.getElem?_append_left hlt] at he
      exact h.carries i e he
    · rw [List.getElem?_append_right hge] at he
      have hcarries := h'.carries _ e he
      rwa [h.next, Int32.add_assoc, ← Int32.ofNat_add, Nat.add_sub_cancel' hge] at hcarries
  · rw [h'.next, h.next, Int32.add_assoc, ← Int32.ofNat_add, List.length_append]

theorem received_nextOutSeq {s s' : FixSession} {msg : FixMessage} {r : ProcessResult}
    (h : Received s msg s' r) : s'.nextOutSeq = s.nextOutSeq := by
  cases h with
  | expected _ _ _ hexp => cases hexp <;> rfl
  | _ => rfl

def MocksTaken (es : List Event) : Prop := ∀ e ∈ sentEvents es, e.sender = .mock → e.ok = true

instance (es : List Event) : Decidable (MocksTaken es) :=
  inferInstanceAs (Decidable (∀ e ∈ sentEvents es, e.sender = .mock → e.ok = true))

section Step
variable {W : Type} {env : Environment W} {st st' : RunState W} {es : List Event}

theorem takenEvents_sent {e : SentEvent} : takenEvents [.sent e] = if e.ok then [e] else [] := by
  cases h : e.ok <;> simp [takenEvents, sentEvents, h]

theorem numbered_step (h : Stepped env st st' es) (hmocks : MocksTaken es) :
    Numbered st.session.nextOutSeq (takenEvents es) st'.session.nextOutSeq := by
  have hread (msg : FixMessage) : (st.session.receiveMessage msg).1.nextOutSeq =
      st.session.nextOutSeq := received_nextOutSeq (receiveMessage_received st.session msg)
  cases h with
  | @send _ _ _ _ _ _ sent _ _ hfields hbuffer hwritten _ hok =>
    have hseq := hfields ▸ outgoingFields_seqNum st.session _ _ _
    rw [takenEvents_sent, hok]
    exact .single (carries_of_written hbuffer hwritten hseq)
  | sendFailed _ _ hfailed =>
    rw [takenEvents_sent, hfailed]
    exact .nil _
  | @respond _ _ _ raw _ msg _ sent _ _ _ _ _ hresp =>
    have hok : sent.ok = true := hmocks sent (by simp [sentEvents]) hresp.sender_eq
    obtain ⟨msgType, sendingTime, extra, hfields⟩ := hresp.fields_eq
    obtain ⟨buffer, hbuffer, hwritten⟩ := hresp.written
    have hseq := hfields ▸ outgoingFields_seqNum _ msgType sendingTime extra
    have htaken :
        takenEvents [.extracted raw, .read (st.reading raw msg), .sent sent] = [sent] := by
      simp [takenEvents, sentEvents, hok]
    rw [htaken, ← hread msg]
    exact .single (carries_of_written hbuffer hwritten hseq)
  | sessionDisconnect _ _ _ _ => exact hread _ ▸ .nil _
  | satisfy _ _ _ _ _ => exact hread _ ▸ .nil _
  | ignore _ _ _ _ _ _ => exact hread _ ▸ .nil _
  | mismatch _ _ _ _ _ => exact hread _ ▸ .nil _
  | _ => exact .nil _

theorem numbered_run {st : RunState W} (hrun : Run (runStep env) st es st')
    (hmocks : MocksTaken es) :
    Numbered st.session.nextOutSeq (takenEvents es) st'.session.nextOutSeq := by
  refine hrun.forward (fun past s => MocksTaken past →
    Numbered st.session.nextOutSeq (takenEvents past) s.session.nextOutSeq)
    (fun _ => .nil _) ?_ hmocks
  intro past s s' es hs hpast hmocks
  rw [MocksTaken, sentEvents, List.filterMap_append, List.forall_mem_append] at hmocks
  rw [takenEvents_append]
  exact (hpast hmocks.1).append (numbered_step (runStep_stepped env hs) hmocks.2)

end Step

def mockScenario : Scenario where
  name := ascii "mock"
  steps := [⟨.mock, [⟨35, ascii "A"⟩, ⟨35, ascii "8"⟩]⟩, ⟨.expect, [⟨35, ascii "D"⟩]⟩,
    ⟨.send, [⟨35, ascii "0"⟩]⟩]

def mockRun (sends : List Bool) : List Event × RunState Script :=
  exec (runStep scripted) 20 (RunState.start
    { inbox := [ascii "8=F\x019=10\x0135=A\x0134=1\x0110=081\x01",
        ascii "8=F\x019=10\x0135=D\x0134=2\x0110=085\x01"], sends := sends }
    { config := { senderCompId := ascii "C", targetCompId := ascii "S" } } [] mockScenario)

end Fixure
