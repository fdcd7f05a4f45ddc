import Fixure.Conservation
import Fixure.Environments
import Fixure.InMemory
import Fixure.Outgoing

/-!
# A peer in memory

A runner and the threads of its peer share a connection in memory. Before each call of the runner,
and while it waits for data, the threads of the peer make any calls of theirs. What they are handed
are the messages of the run, whole and in order, and the runner is handed what they sent.
-/

namespace Fixure.InMemory
open Transducer Process

inductive PeerCall (ι : Type)
  | serverSend (data : Bytes) (pick : ℕ)
  | serverReceive (thread : ι)
  | resume (thread : ι) (timedOut : Bool)

def PeerCall.call {ι : Type} : PeerCall ι → Call ι
  | .serverSend data pick => .serverSend data pick
  | .serverReceive thread => .serverReceive thread
  | .resume thread timedOut => .resume .server thread timedOut

/-- All calls made so far, what the peer does at each of its turns, whom the runner wakes when it
sends, and what the clocks show. -/
structure World (ι : Type) where
  calls : List (Call ι) := []
  turns : List (List (PeerCall ι))
  picks : List ℕ := []
  steady : List ℤ := []
  system : List ℤ := []

namespace World
variable {ι : Type} [DecidableEq ι]

def connection (w : World ι) : InMemoryConnection ι := final InMemoryConnection.step {} w.calls

def history (w : World ι) : History ι := trace InMemoryConnection.step {} w.calls

def turn (w : World ι) : World ι :=
  { w with calls := w.calls ++ (w.turns.headD []).map PeerCall.call, turns := w.turns.tail }

def perform (w : World ι) (call : Call ι) : Reply × World ι :=
  ((w.connection.step call).2, { w with calls := w.calls ++ [call] })

def send (w : World ι) (data : Bytes) : Bool × World ι :=
  let (reply, w) := w.perform (.send data (w.picks.headD 0))
  (reply = .pushed true, { w with picks := w.picks.tail })

/-- A receive that finds nothing waits for the peer, until the time is over. -/
def receive (w : World ι) (runner : ι) : Option Bytes × World ι :=
  match w.perform (.receive runner) with
  | (.returned data, w) => (data, w)
  | (_, w) =>
    match w.turn.perform (.resume .client runner true) with
    | (.returned data, w) => (data, w)
    | (_, w) => (none, w)

end World

def inMemory {ι : Type} [DecidableEq ι] (runner : ι) (gmtime : ℤ → Tm) :
    Environment (World ι) where
  connect w := (true, (w.turn.perform .connect).2)
  disconnect w := (w.turn.perform .disconnect).2
  send w data := w.turn.send data
  receive w _ := w.turn.receive runner
  steadyNow w := (w.steady.headD 0, { w with steady := w.steady.tail })
  systemNow w := (w.system.headD 0, { w with system := w.system.tail })
  gmtime := gmtime
  serializeBuf _ := List.replicate 4096 0
  serializeBuf_length _ := List.length_replicate

section World
variable {ι : Type} [DecidableEq ι] {w : World ι} {side : Side}

def World.pushed (w : World ι) (side : Side) : List Bytes :=
  w.history.flatMap (InMemory.pushed side)

def World.handedOut (w : World ι) (side : Side) : List Bytes :=
  w.history.flatMap (InMemory.handedOut side)

theorem history_perform (call : Call ι) :
    (w.perform call).2.history = w.history ++ [move InMemoryConnection.step w.connection call] := by
  rw [World.history, World.perform, trace_append]
  rfl

theorem pushed_perform (call : Call ι) (side : Side) :
    (w.perform call).2.pushed side = w.pushed side ++
      InMemory.pushed side (move InMemoryConnection.step w.connection call) := by
  rw [World.pushed, history_perform, List.flatMap_append, List.flatMap_singleton]
  rfl

theorem handedOut_perform (call : Call ι) (side : Side) :
    (w.perform call).2.handedOut side = w.handedOut side ++
      InMemory.handedOut side (move InMemoryConnection.step w.connection call) := by
  rw [World.handedOut, history_perform, List.flatMap_append, List.flatMap_singleton]
  rfl

/-- At its turn the peer puts nothing in its own inbox and takes nothing from the other one. -/
theorem turn_quiet (c : InMemoryConnection ι) (calls : List (PeerCall ι)) :
    (trace InMemoryConnection.step c (calls.map PeerCall.call)).flatMap (InMemory.pushed .server) =
        [] ∧
      (trace InMemoryConnection.step c (calls.map PeerCall.call)).flatMap
        (InMemory.handedOut .client) = [] := by
  have hmove : ∀ m ∈ trace InMemoryConnection.step c (calls.map PeerCall.call),
      InMemory.pushed .server m = [] ∧ InMemory.handedOut .client m = [] := by
    intro m hm
    have hinput : m.input ∈ calls.map PeerCall.call := by
      have hinputs : (trace InMemoryConnection.step c (calls.map PeerCall.call)).map Move.input =
          calls.map PeerCall.call := trace_input c _
      rw [← hinputs]
      exact List.mem_map_of_mem hm
    obtain ⟨call, _, hcall⟩ := List.mem_map.mp hinput
    rw [InMemory.pushed, InMemory.handedOut, ← hcall]
    cases call with
    | serverSend data pick =>
      rcases m.output with _ | (_ | _) | _ | _ <;> simp [PeerCall.call, Call.serverSend]
    | serverReceive thread =>
      rcases m.output with _ | (_ | _) | _ | _ <;> simp [PeerCall.call, Call.serverReceive]
    | resume thread timedOut =>
      rcases m.output with _ | (_ | _) | _ | _ <;> simp [PeerCall.call]
  exact ⟨List.flatMap_eq_nil_iff.mpr fun m hm => (hmove m hm).1,
    List.flatMap_eq_nil_iff.mpr fun m hm => (hmove m hm).2⟩

theorem history_turn : w.turn.history =
    w.history ++ trace InMemoryConnection.step w.connection
      ((w.turns.headD []).map PeerCall.call) := by
  rw [World.history, World.turn, trace_append]
  rfl

theorem pushed_turn : w.turn.pushed .server = w.pushed .server := by
  rw [World.pushed, history_turn, List.flatMap_append, (turn_quiet _ _).1, List.append_nil]
  rfl

theorem handedOut_turn : w.turn.handedOut .client = w.handedOut .client := by
  rw [World.handedOut, history_turn, List.flatMap_append, (turn_quiet _ _).2, List.append_nil]
  rfl

end World

/-! ### What the runner and its peer exchange -/

def receivedData (es : List Event) : List Bytes :=
  es.filterMap fun
    | .received data => data
    | _ => none

/-- The events tell what the runner has put in for the peer, and what it was handed. -/
structure Exchanged {ι : Type} [DecidableEq ι] (past : List Event) (w : World ι) : Prop where
  pushed : w.pushed .server = (takenEvents past).map SentEvent.text
  handedOut : w.handedOut .client = receivedData past

section Exchange
variable {ι : Type} [DecidableEq ι] {past : List Event} {w : World ι}

theorem Exchanged.turn (h : Exchanged past w) : Exchanged past w.turn where
  pushed := by rw [pushed_turn, h.pushed]
  handedOut := by rw [handedOut_turn, h.handedOut]

/-- A call that puts in `sent` for the peer and hands `received` to the runner. -/
theorem Exchanged.perform (h : Exchanged past w) {call : Call ι} {es : List Event}
    (hpushed : InMemory.pushed .server (move InMemoryConnection.step w.connection call) =
      (takenEvents es).map SentEvent.text)
    (hhanded : InMemory.handedOut .client (move InMemoryConnection.step w.connection call) =
      receivedData es) : Exchanged (past ++ es) (w.perform call).2 where
  pushed := by rw [pushed_perform, h.pushed, hpushed, takenEvents_append, List.map_append]
  handedOut := by
    rw [handedOut_perform, h.handedOut, hhanded, receivedData, receivedData, receivedData,
      List.filterMap_append]

theorem Exchanged.of_calls (h : Exchanged past w) {w' : World ι} (hcalls : w'.calls = w.calls) :
    Exchanged past w' where
  pushed := by
    rw [← h.pushed]
    simp only [World.pushed, World.history, hcalls]
  handedOut := by
    rw [← h.handedOut]
    simp only [World.handedOut, World.history, hcalls]

theorem Exchanged.quiet (h : Exchanged past w) {es : List Event} (htaken : takenEvents es = [])
    (hdata : receivedData es = []) : Exchanged (past ++ es) w where
  pushed := by rw [takenEvents_append, htaken, List.append_nil, h.pushed]
  handedOut := by
    rw [receivedData, List.filterMap_append, ← receivedData, ← receivedData, hdata,
      List.append_nil, h.handedOut]

theorem Exchanged.connect (h : Exchanged past w) :
    Exchanged (past ++ [.connected true]) (w.perform .connect).2 :=
  h.perform rfl rfl

theorem Exchanged.disconnect (h : Exchanged past w) :
    Exchanged (past ++ [.disconnected]) (w.perform .disconnect).2 :=
  h.perform rfl rfl

theorem Exchanged.send (h : Exchanged past w) (sender : Sender) (fields : List Field)
    (data : Bytes) :
    Exchanged (past ++ [.sent ⟨sender, fields, data, (w.send data).1⟩]) (w.send data).2 := by
  have hperformed : Exchanged (past ++ [.sent ⟨sender, fields, data, (w.send data).1⟩])
      (w.perform (.send data (w.picks.headD 0))).2 := by
    cases hon : w.connection.connected with
    | true =>
      refine h.perform ?_ ?_
      · simp [InMemory.pushed, move, Call.send, InMemoryConnection.step, hon, takenEvents_sent,
          World.send, World.perform]
      · simp [InMemory.handedOut, move, Call.send, receivedData]
    | false =>
      refine h.perform ?_ ?_
      · simp [InMemory.pushed, move, Call.send, InMemoryConnection.step, hon, takenEvents_sent,
          World.send, World.perform]
      · simp [InMemory.handedOut, move, Call.send, receivedData]
  exact ⟨hperformed.pushed, hperformed.handedOut⟩

theorem receivedData_received (data : Option Bytes) : receivedData [.received data] = data.toList := by
  cases data <;> rfl

/-- A call of the runner's that returns data, or comes back with nothing, or has to wait. -/
theorem Exchanged.collect (h : Exchanged past w) {call : Call ι} {runner : ι}
    (hcall : call = .receive runner ∨ ∃ timedOut, call = .resume .client runner timedOut) :
    (∀ data, (w.perform call).1 = .returned data →
        Exchanged (past ++ [.received data]) (w.perform call).2) ∧
      ((∀ data, (w.perform call).1 ≠ .returned data) → Exchanged past (w.perform call).2) := by
  have hpushed : InMemory.pushed .server (move InMemoryConnection.step w.connection call) = [] := by
    rcases hcall with rfl | ⟨timedOut, rfl⟩ <;> rfl
  constructor
  · intro data hdata
    refine h.perform hpushed ?_
    rw [receivedData_received]
    have hreply : (w.connection.step call).2 = .returned data := hdata
    rcases hcall with rfl | ⟨timedOut, rfl⟩
    · rw [Call.receive] at hreply ⊢
      simp [InMemory.handedOut, move, hreply]
    · simp [InMemory.handedOut, move, hreply]
  · intro hnone
    have hhanded : InMemory.handedOut .client (move InMemoryConnection.step w.connection call) =
        [] := by
      have hreply : ∀ data, (w.connection.step call).2 ≠ .returned data := hnone
      simp only [InMemory.handedOut, move]
      split
      · next data _ hdata => exact absurd hdata (hreply _)
      · next data _ hdata => exact absurd hdata (hreply _)
      · rfl
    have hperformed : Exchanged (past ++ []) (w.perform call).2 := h.perform hpushed hhanded
    rwa [List.append_nil] at hperformed

theorem Exchanged.receive (h : Exchanged past w) (runner : ι) :
    Exchanged (past ++ [.received (w.receive runner).1]) (w.receive runner).2 := by
  have hfirst := h.collect (.inl (rfl : Call.receive runner = .receive runner))
  rw [World.receive]
  split
  · next data w' heq =>
    have hdata := hfirst.1 data (by rw [heq])
    rwa [heq] at hdata
  · next w' hblocked heq =>
    have hwaits : Exchanged past w' := by
      have hnone := hfirst.2 fun data hdata => hblocked data (by rw [← hdata, heq])
      rwa [heq] at hnone
    have hsecond := hwaits.turn.collect
      (.inr ⟨true, (rfl : Call.resume Side.client runner true = .resume .client runner true)⟩)
    split
    · next data w'' heq' =>
      have hdata := hsecond.1 data (by rw [heq'])
      rwa [heq'] at hdata
    · next w'' hnothing heq' =>
      have hnone := hsecond.2 fun data hdata => hnothing data (by rw [← hdata, heq'])
      rw [heq'] at hnone
      exact hnone.quiet rfl rfl

theorem follows_inMemory (runner : ι) (gmtime : ℤ → Tm) :
    Follows (inMemory runner gmtime) (fun past w => Exchanged past w) where
  connect h := h.turn.connect
  disconnect h := h.turn.disconnect
  send sender fields text h := h.turn.send sender fields text
  receive h := h.turn.receive runner
  steadyNow h := h.of_calls rfl
  systemNow h := h.of_calls rfl
  extracted _ h := h.quiet rfl rfl
  read _ h := h.quiet rfl rfl
  satisfied _ h := h.quiet rfl rfl

/-- The peer is handed the messages that the connection took from the run, each as a whole and in
their order, and what it has not been handed yet waits in its inbox; and the runner is handed what
the peer sent. Where all mock responses were taken, the messages carry consecutive numbers. -/
theorem inMemory_delivers {runner : ι} {gmtime : ℤ → Tm} {world : World ι}
    {session : FixSession} {mocks : List ScenarioStep} {scenario : Scenario} {es : List Event}
    {st : RunState (World ι)} (hfresh : world.calls = [])
    (hrun : Run (runStep (inMemory runner gmtime)) (.start world session mocks scenario) es st) :
    st.world.handedOut .server ++ (st.world.connection.inbox .server).letters =
        (takenEvents es).map SentEvent.text ∧
      receivedData es ++ (st.world.connection.inbox .client).letters = st.world.pushed .client ∧
      (MocksTaken es → ∀ i text, (st.world.handedOut .server)[i]? = some text →
        ∃ e, (takenEvents es)[i]? = some e ∧ e.text = text ∧
          Carries e (session.nextOutSeq + Int32.ofNat i)) := by
  have hstart : Exchanged [] world := by
    constructor
    · simp [World.pushed, World.history, hfresh, trace, takenEvents, sentEvents]
    · simp [World.handedOut, World.history, hfresh, trace, receivedData]
  have hexchanged : Exchanged es st.world := (follows_inMemory runner gmtime).run hrun hstart
  have hfifo (side : Side) : st.world.handedOut side ++ (st.world.connection.inbox side).letters =
      st.world.pushed side := conserved_final st.world.calls side
  have hserver : st.world.handedOut .server ++ (st.world.connection.inbox .server).letters =
      (takenEvents es).map SentEvent.text := by rw [hfifo, hexchanged.pushed]
  refine ⟨hserver, by rw [← hexchanged.handedOut, hfifo], fun hmocks i text htext => ?_⟩
  have hsent : ((takenEvents es).map SentEvent.text)[i]? = some text := by
    rw [← hserver, List.getElem?_append_left (List.getElem?_eq_some_iff.mp htext).1, htext]
  rw [List.getElem?_map, Option.map_eq_some_iff] at hsent
  obtain ⟨e, he, rfl⟩ := hsent
  exact ⟨e, he, rfl, (numbered_run hrun hmocks).carries i e he⟩

end Exchange

/-- The peer takes the first message and answers it; the second one wakes a thread of it. -/
def talkingStart : RunState (World ℕ) :=
  .start { turns := [[], [], [.serverReceive 1, .serverSend
      (ascii "8=F\x019=10\x0135=A\x0134=1\x0110=081\x01") 0], [.serverReceive 2]] }
    { config := { senderCompId := ascii "C", targetCompId := ascii "S" } } []
    ⟨ascii "talk", [⟨.connect, []⟩, ⟨.send, [⟨35, ascii "A"⟩]⟩, ⟨.expect, [⟨35, ascii "A"⟩]⟩,
      ⟨.send, [⟨35, ascii "D"⟩]⟩]⟩

def talkingRun : List Event × RunState (World ℕ) :=
  exec (runStep (inMemory 0 fun _ => ⟨70, 0, 1, 0, 0, 0⟩)) 9 talkingStart

theorem inMemory_delivers_talking :
    talkingRun.2.world.handedOut .server ++
          (talkingRun.2.world.connection.inbox .server).letters =
        (takenEvents talkingRun.1).map SentEvent.text ∧
      ∀ i text, (talkingRun.2.world.handedOut .server)[i]? = some text →
        ∃ e, (takenEvents talkingRun.1)[i]? = some e ∧ e.text = text ∧
          Carries e (1 + Int32.ofNat i) := by
  have hrun : Run (runStep (inMemory 0 fun _ => ⟨70, 0, 1, 0, 0, 0⟩)) talkingStart talkingRun.1
      talkingRun.2 := run_exec _ 9 _
  obtain ⟨htexts, _, hcarries⟩ := inMemory_delivers rfl hrun
  exact ⟨htexts, hcarries (by decide +kernel)⟩

end Fixure.InMemory
