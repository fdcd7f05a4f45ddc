import Fixure.Delivery

/-!
# Two runners that talk to each other

Each of two runners receives what the other one sends. Whatever has been exchanged, each has read
the messages of the other in their order. And when nothing is left on the way to a runner and in
its buffer, its session waits for just the number that the other one uses next.
-/

namespace Fixure
open Process Splitter

/-- What `heard` tells of receiving comes from `spoken`, and a session can take it up. -/
structure Audible (spoken heard : List Event) (next : Int32) (listening : FixSession) : Prop where
  mocks : MocksTaken spoken
  legible : ∀ e ∈ takenEvents spoken, Legible e
  bytes : heard.flatMap Event.bytes <+: (takenEvents spoken).flatMap SentEvent.text
  clean : CutsClean ((takenEvents spoken).map SentEvent.text) (heard.flatMap Event.chunks)
  awaits : Awaits listening next (takenEvents spoken)

instance (spoken heard : List Event) (next : Int32) (listening : FixSession) :
    Decidable (Audible spoken heard next listening) :=
  decidable_of_iff (MocksTaken spoken ∧ (∀ e ∈ takenEvents spoken, Legible e) ∧
      heard.flatMap Event.bytes <+: (takenEvents spoken).flatMap SentEvent.text ∧
      CutsClean ((takenEvents spoken).map SentEvent.text) (heard.flatMap Event.chunks) ∧
      Awaits listening next (takenEvents spoken))
    ⟨fun h => ⟨h.1, h.2.1, h.2.2.1, h.2.2.2.1, h.2.2.2.2⟩,
      fun h => ⟨h.mocks, h.legible, h.bytes, h.clean, h.awaits⟩⟩

/-- Every byte that was sent has arrived and been used. -/
structure Drained {W : Type} (spoken heard : List Event) (st : RunState W) : Prop where
  arrived : heard.flatMap Event.bytes = (takenEvents spoken).flatMap SentEvent.text
  used : st.rxBuffer = []

instance {W : Type} (spoken heard : List Event) (st : RunState W) :
    Decidable (Drained spoken heard st) :=
  decidable_of_iff (heard.flatMap Event.bytes = (takenEvents spoken).flatMap SentEvent.text ∧
      st.rxBuffer = [])
    ⟨fun h => ⟨h.1, h.2⟩, fun h => ⟨h.arrived, h.used⟩⟩

/-- One runner attends to another: it has read the first messages of it, and once nothing is left to
read it has read them all and waits for the next number. -/
structure Attends {V W : Type} (spoken heard : List Event) (n : Int32) (st : RunState V)
    (st' : RunState W) : Prop where
  extracted : extractions heard =
    ((takenEvents spoken).map SentEvent.text).take (readings heard).length
  hears : ∀ i r, (readings heard)[i]? = some r →
    ∃ e, (takenEvents spoken)[i]? = some e ∧ Hears e (n + Int32.ofNat i) r
  agrees : Drained spoken heard st' →
    (readings heard).length = (takenEvents spoken).length ∧
      (st'.session.loggedOn = true → st'.session.nextInSeq = st.session.nextOutSeq)

section Attends
variable {V W : Type} {speaker : Environment V} {listener : Environment W} {v : V} {w : W}
  {speaking listening : FixSession} {mocks mocks' : List ScenarioStep}
  {scenario scenario' : Scenario} {spoken heard : List Event} {st : RunState V}
  {st' : RunState W}

theorem Heard.drained {n : Int32} {sent : List SentEvent} {past : List Event} {st : RunState W}
    (h : Heard n sent past st) (hspeech : Speech n sent)
    (hall : (past.flatMap Event.chunks).flatten = (sent.map SentEvent.text).flatten)
    (hused : st.rxBuffer = []) : (readings past).length = sent.length := by
  have htracks := h.tracks
  rw [hall, hused] at htracks
  have hne : ∀ m ∈ sent.map SentEvent.text, m ≠ [] := by
    rintro m hm rfl
    exact absurd (hspeech.framed [] hm).begins (by decide)
  rw [← h.count, htracks.drained hne, List.length_map]

theorem attends_of_audible
    (hspeaks : Run (runStep speaker) (.start v speaking mocks scenario) spoken st)
    (hlistens : Run (runStep listener) (.start w listening mocks' scenario') heard st')
    (h : Audible spoken heard speaking.nextOutSeq listening) :
    Attends spoken heard speaking.nextOutSeq st st' := by
  have hspeech := speech_run hspeaks h.mocks h.legible
  have hpre : (heard.flatMap Event.chunks).flatten <+:
      ((takenEvents spoken).map SentEvent.text).flatten := by
    rw [flatten_chunks, ← List.flatMap_def]
    exact h.bytes
  have hheard := heard_run hspeech h.awaits hlistens hpre h.clean
  refine ⟨hheard.count ▸ hheard.tracks.taken_eq, hheard.hears, fun hdrained => ?_⟩
  have hcount : (readings heard).length = (takenEvents spoken).length := by
    refine hheard.drained hspeech ?_ hdrained.used
    rw [flatten_chunks, ← List.flatMap_def]
    exact hdrained.arrived
  refine ⟨hcount, fun hon => ?_⟩
  rw [hheard.awaits.number hon, (numbered_run hspeaks h.mocks).next, hcount]

/-- Two runners that hear each other read each other's messages in their order, and when nothing is
left to read on either side, the counters of the two sessions agree. -/
theorem runners_agree
    (hleft : Run (runStep speaker) (.start v speaking mocks scenario) spoken st)
    (hright : Run (runStep listener) (.start w listening mocks' scenario') heard st')
    (hto : Audible spoken heard speaking.nextOutSeq listening)
    (hback : Audible heard spoken listening.nextOutSeq speaking) :
    Attends spoken heard speaking.nextOutSeq st st' ∧
      Attends heard spoken listening.nextOutSeq st' st :=
  ⟨attends_of_audible hleft hright hto, attends_of_audible hright hleft hback⟩

end Attends

/-- The answer of the runner on the right. -/
def helloText : Bytes :=
  ascii ("8=FIX.4.2\x019=45\x0135=A\x0149=S\x0156=C\x0134=1\x0152=19700101-00:00:00.000\x01" ++
    "10=093\x01")

def leftSession : FixSession :=
  { config := { senderCompId := ascii "C", targetCompId := ascii "S" } }

def rightSession : FixSession :=
  { config := { senderCompId := ascii "S", targetCompId := ascii "C" } }

def leftStart : RunState Script :=
  .start { inbox := [helloText] } leftSession []
    ⟨ascii "left", [⟨.connect, []⟩, ⟨.send, [⟨35, ascii "A"⟩]⟩, ⟨.expect, [⟨35, ascii "A"⟩]⟩,
      ⟨.send, [⟨35, ascii "D"⟩, ⟨11, ascii "o1"⟩]⟩]⟩

def leftRun : List Event × RunState Script := exec (runStep scripted) 20 leftStart

/-- What the left runner sends comes in two chunks. -/
def rightStart : RunState Script :=
  let stream := (takenEvents leftRun.1).flatMap SentEvent.text
  .start { inbox := [stream.take 40, stream.drop 40] } rightSession []
    ⟨ascii "right", [⟨.connect, []⟩, ⟨.expect, [⟨35, ascii "A"⟩]⟩, ⟨.send, [⟨35, ascii "A"⟩]⟩,
      ⟨.expect, [⟨35, ascii "D"⟩]⟩]⟩

def rightRun : List Event × RunState Script := exec (runStep scripted) 30 rightStart

theorem runners_agree_order :
    (readings rightRun.1).length = 2 ∧ (readings leftRun.1).length = 1 ∧
      rightRun.2.session.nextInSeq = leftRun.2.session.nextOutSeq ∧
      leftRun.2.session.nextInSeq = rightRun.2.session.nextOutSeq := by
  have hspoke : Run (runStep scripted) leftStart leftRun.1 leftRun.2 :=
    run_exec (runStep scripted) 20 leftStart
  have hheard : Run (runStep scripted) rightStart rightRun.1 rightRun.2 :=
    run_exec (runStep scripted) 30 rightStart
  obtain ⟨hto, hback, hin, hout, hfirst, hsecond, hon, hon'⟩ :
      Audible leftRun.1 rightRun.1 leftSession.nextOutSeq rightSession ∧
      Audible rightRun.1 leftRun.1 rightSession.nextOutSeq leftSession ∧
      Drained leftRun.1 rightRun.1 rightRun.2 ∧ Drained rightRun.1 leftRun.1 leftRun.2 ∧
      (takenEvents leftRun.1).length = 2 ∧ (takenEvents rightRun.1).length = 1 ∧
      rightRun.2.session.loggedOn = true ∧ leftRun.2.session.loggedOn = true := by
    decide +kernel
  obtain ⟨hright, hleft⟩ := runners_agree hspoke hheard hto hback
  have hcame := hright.agrees hin
  have hwent := hleft.agrees hout
  exact ⟨hcame.1.trans hfirst, hwent.1.trans hsecond, hcame.2 hon, hwent.2 hon'⟩

end Fixure
