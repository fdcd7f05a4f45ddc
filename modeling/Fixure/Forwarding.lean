import Fixure.Feeding
import Fixure.Process
import Fixure.Proxy

/-!
# Forwarding

A forwarder receives a chunk, extracts what its buffer holds, trying `SOH` first and `|` where
that fails, and sends the chunk on. It is a process that takes one turn of its loops at a time.
An attempt that fails changes the buffer in the same way with either separator, so on a stream
without one of them the forwarder extracts what an attempt with the other alone would.
-/

namespace Fixure
open Search Splitter Process

/-! ### Attempts with two separators -/

/-- What an attempt that fails leaves of the buffer. -/
def fromStart (b : Bytes) : Bytes :=
  match find (ascii "8=") b with
  | none => []
  | some start => b.drop start

section Attempt
variable {separator : UInt8} {b : Bytes}

theorem fromStart_of_none (h : find (ascii "8=") b = none) : fromStart b = [] := by
  rw [fromStart, h]

theorem fromStart_of_some {start : ℕ} (h : find (ascii "8=") b = some start) :
    fromStart b = b.drop start := by
  rw [fromStart, h]

theorem extract_refused (h : (extractNextMessage separator b).1 = none) :
    extractNextMessage separator b = (none, fromStart b) := by
  cases h8 : find (ascii "8=") b with
  | none => rw [extract_of_find_none h8, fromStart_of_none h8]
  | some start =>
    rw [extract_of_find_some h8] at h ⊢
    rw [fromStart_of_some h8]
    exact Prod.ext h (cutMessage_eq_none (Prod.ext h rfl))

theorem extract_fromStart : extractNextMessage separator (fromStart b) =
    extractNextMessage separator b := by
  cases h8 : find (ascii "8=") b with
  | none =>
    rw [extract_of_find_none h8, fromStart_of_none h8]
    exact extract_of_find_none (by decide)
  | some start =>
    rw [extract_of_find_some h8, fromStart_of_some h8]
    obtain ⟨junk, rest, rfl, rfl, _⟩ := find_eq_some_split (by decide) h8
    have hfront : find (ascii "8=") (ascii "8=" ++ rest) = some 0 := find_prefix rest
    rw [List.append_assoc, List.drop_left, extract_of_find_some hfront, List.drop_zero]

theorem extract_of_notMem (h : separator ∉ b) :
    extractNextMessage separator b = (none, fromStart b) := by
  apply extract_refused
  cases hext : extractNextMessage separator b with
  | mk piece r =>
    cases piece with
    | none => rfl
    | some m =>
      obtain ⟨junk, rfl, _, hcut⟩ := extract_eq_some hext
      obtain ⟨a, text, _, rfl, _⟩ := cutMessage_eq_some hcut
      exact absurd (by simp) h

/-- The second attempt sees what the first one would have seen. -/
theorem nextMessage_of_refused (h : (extractNextMessage soh b).1 = none) :
    nextMessage b = extractNextMessage bar b := by
  rw [nextMessage, extract_refused h]
  exact extract_fromStart

theorem nextMessage_of_taken {m r : Bytes} (h : extractNextMessage soh b = (some m, r)) :
    nextMessage b = (some m, r) := by
  rw [nextMessage, h]

theorem nextMessage_of_bar_notMem (h : bar ∉ b) : nextMessage b = extractNextMessage soh b := by
  cases hsoh : extractNextMessage soh b with
  | mk piece r =>
    cases piece with
    | some m => exact nextMessage_of_taken hsoh
    | none =>
      have hrefused := congrArg Prod.fst hsoh
      rw [nextMessage_of_refused hrefused, extract_of_notMem h, ← hsoh, extract_refused hrefused]

theorem nextMessage_of_soh_notMem (h : soh ∉ b) : nextMessage b = extractNextMessage bar b := by
  apply nextMessage_of_refused
  rw [extract_of_notMem h]

theorem nextMessage_suffix (b : Bytes) : (nextMessage b).2 <:+ b := by
  cases hsoh : extractNextMessage soh b with
  | mk piece r =>
    cases piece with
    | some m =>
      have hr := extract_suffix soh b
      rw [hsoh] at hr
      rw [nextMessage_of_taken hsoh]
      exact hr
    | none =>
      rw [nextMessage_of_refused (congrArg Prod.fst hsoh)]
      exact extract_suffix bar b

end Attempt

section Single
variable {cs : List Bytes}

theorem notMem_nextMessage {c : UInt8} {b : Bytes} (h : c ∉ b) : c ∉ (nextMessage b).2 :=
  fun hc => h ((nextMessage_suffix b).mem hc)

theorem notMem_append_chunk {c : UInt8} {b d : Bytes} (h : c ∉ cs.flatten) (hd : d ∈ cs)
    (hb : c ∉ b) : c ∉ b ++ d := by
  intro hc
  rcases List.mem_append.mp hc with hc | hc
  · exact hb hc
  · exact h (List.mem_flatten.mpr ⟨d, hd, hc⟩)

theorem feedAll_of_bar_notMem (h : bar ∉ cs.flatten) :
    feedAll nextMessage [] cs = feedAll (extractNextMessage soh) [] cs := by
  have hagree : AgreeOn (bar ∉ ·) nextMessage (extractNextMessage soh) :=
    ⟨nextMessage_of_bar_notMem, notMem_nextMessage⟩
  exact hagree.feedAll List.not_mem_nil fun d hd => notMem_append_chunk h hd

theorem feedAll_of_soh_notMem (h : soh ∉ cs.flatten) :
    feedAll nextMessage [] cs = feedAll (extractNextMessage bar) [] cs := by
  have hagree : AgreeOn (soh ∉ ·) nextMessage (extractNextMessage bar) :=
    ⟨nextMessage_of_soh_notMem, notMem_nextMessage⟩
  exact hagree.feedAll List.not_mem_nil fun d hd => notMem_append_chunk h hd

end Single

/-- With one of the separators nowhere in the stream, the messages and the buffer are those of
attempts with the other one alone, whatever the chunks. -/
theorem feedAll_nextMessage_single (cs : List Bytes) :
    (bar ∉ cs.flatten → feedAll nextMessage [] cs = feedAll (extractNextMessage soh) [] cs) ∧
      (soh ∉ cs.flatten → feedAll nextMessage [] cs = feedAll (extractNextMessage bar) [] cs) :=
  ⟨feedAll_of_bar_notMem, feedAll_of_soh_notMem⟩

theorem feedAll_nextMessage_single_bar :
    feedAll nextMessage [] [ascii "x8=F|10=1", ascii "|8", ascii "=G|10=2|8="] =
      feedAll (extractNextMessage bar) [] [ascii "x8=F|10=1", ascii "|8", ascii "=G|10=2|8="] :=
  (feedAll_nextMessage_single _).2 (by decide +kernel)

/-! ### The forwarder -/

/-- The two sockets of a forwarder, the flags that its loop checks, and the clock. `recv` gives
what has arrived, or nothing when it fails or the peer has closed; the number that `send` gives
is not positive when it fails. -/
structure Wire (W : Type) where
  active : W → Bool × W
  deactivate : W → W
  recv : W → Option Bytes × W
  send : W → Bytes → ℤ × W
  steadyNow : W → ℤ × W
  inactive : ∀ w, (active (deactivate w)).1 = false

inductive ForwardEvent
  | received (data : Bytes)
  | extracted (separator : UInt8) (text : Bytes)
  | observed (seen : Observation)
  | forwarded (data : Bytes)
  deriving DecidableEq

/-- Where the forwarder stands: in front of its loop, in the loop over the buffer, in the loop
that sends the chunk on, or behind its loop. -/
inductive ForwardControl
  | receiving
  | inspecting (chunk : Bytes)
  | forwarding (rest : Bytes)
  | closed
  deriving DecidableEq

namespace ForwardEvent

def chunks : ForwardEvent → List Bytes
  | .received data => [data]
  | _ => []

def messages : ForwardEvent → List (UInt8 × Bytes)
  | .extracted separator text => [(separator, text)]
  | _ => []

def sentOn : ForwardEvent → Bytes
  | .forwarded data => data
  | _ => []

end ForwardEvent

structure ForwardState (W : Type) extends Traffic W where
  control : ForwardControl

def ForwardState.start {W : Type} (world : W) (proxy : Proxy) : ForwardState W where
  world := world
  proxy := proxy
  rxBuffer := []
  control := .receiving

/-- The separator of the attempt that takes a message off the buffer. -/
def usedSeparator (rxBuffer : Bytes) : UInt8 :=
  if (extractNextMessage soh rxBuffer).1.isSome then soh else bar

section Forward
variable {W : Type} (wire : Wire W) (iteration : Iteration) (isClientToServer : Bool)

def forwardStep : Step (ForwardState W) ForwardEvent := fun st =>
  match st.control with
  | .receiving =>
    match wire.active st.world with
    | (false, world) => some ({ st with world := world, control := .closed }, [])
    | (true, world) =>
      match wire.recv world with
      | (none, world) =>
        some ({ st with world := wire.deactivate world, control := .closed }, [])
      | (some data, world) =>
        some ({ st with world := world, rxBuffer := st.rxBuffer ++ data,
                        control := .inspecting data }, [.received data])
  | .inspecting chunk =>
    match nextMessage st.rxBuffer with
    | (none, rest) => some ({ st with rxBuffer := rest, control := .forwarding chunk }, [])
    | (some text, rest) =>
      let (seen, traffic) := observe wire.steadyNow iteration isClientToServer
        { st.toTraffic with rxBuffer := rest } text
      some (⟨traffic, .inspecting chunk⟩,
        [.extracted (usedSeparator st.rxBuffer) text, .observed seen])
  | .forwarding [] => some ({ st with control := .receiving }, [])
  | .forwarding (b :: rest) =>
    match wire.send st.world (b :: rest) with
    | (sent, world) =>
      if sent ≤ 0 then
        some ({ st with world := wire.deactivate world, control := .receiving }, [])
      else
        some ({ st with world := world, control := .forwarding ((b :: rest).drop sent.toNat) },
          [.forwarded ((b :: rest).take sent.toNat)])
  | .closed => none

end Forward

/-! ### A scripted connection -/

structure Inbound where
  chunks : List Bytes
  active : Bool := true
  deriving DecidableEq

def scriptedWire : Wire Inbound where
  active w := (w.active, w)
  deactivate w := { w with active := false }
  recv w := (w.chunks.head?, { w with chunks := w.chunks.tail })
  send w data := (data.length, w)
  steadyNow w := (0, w)
  inactive _ := rfl

/-! ### What a step can do -/

section Forward
variable {W : Type} (wire : Wire W)

inductive Forwarded (st : ForwardState W) : ForwardState W → List ForwardEvent → Prop
  | stop {world} : st.control = .receiving →
      Forwarded st { st with world := world, control := .closed } []
  | receive {world data} : st.control = .receiving → (wire.active st.world).1 = true →
      Forwarded st { st with world := world, rxBuffer := st.rxBuffer ++ data,
                             control := .inspecting data } [.received data]
  | extract {chunk text rest traffic seen} : st.control = .inspecting chunk →
      nextMessage st.rxBuffer = (some text, rest) → Traffic.rxBuffer traffic = rest →
      Forwarded st ⟨traffic, .inspecting chunk⟩
        [.extracted (usedSeparator st.rxBuffer) text, .observed seen]
  | drained {chunk rest} : st.control = .inspecting chunk →
      nextMessage st.rxBuffer = (none, rest) →
      Forwarded st { st with rxBuffer := rest, control := .forwarding chunk } []
  | sent : st.control = .forwarding [] → Forwarded st { st with control := .receiving } []
  | send {rest world n} : st.control = .forwarding rest →
      Forwarded st { st with world := world, control := .forwarding (rest.drop n) }
        [.forwarded (rest.take n)]
  | sendFailed {rest world} : st.control = .forwarding rest →
      Forwarded st { st with world := wire.deactivate world, control := .receiving } []

variable {wire} {iteration : Iteration} {isClientToServer : Bool}

theorem forwardStep_forwarded {st st' : ForwardState W} {es : List ForwardEvent}
    (h : forwardStep wire iteration isClientToServer st = some (st', es)) :
    Forwarded wire st st' es := by
  rw [forwardStep] at h
  cases hc : st.control with
  | receiving =>
    simp only [hc] at h
    cases hactive : wire.active st.world with
    | mk on world =>
      cases on with
      | false =>
        simp only [hactive] at h
        obtain ⟨rfl, rfl⟩ := Prod.mk.inj (Option.some.inj h)
        exact .stop hc
      | true =>
        simp only [hactive] at h
        cases hrecv : wire.recv world with
        | mk data world =>
          cases data with
          | none =>
            simp only [hrecv] at h
            obtain ⟨rfl, rfl⟩ := Prod.mk.inj (Option.some.inj h)
            exact .stop hc
          | some data =>
            simp only [hrecv] at h
            obtain ⟨rfl, rfl⟩ := Prod.mk.inj (Option.some.inj h)
            exact .receive hc (by rw [hactive])
  | inspecting chunk =>
    simp only [hc] at h
    cases hnext : nextMessage st.rxBuffer with
    | mk piece rest =>
      cases piece with
      | none =>
        simp only [hnext] at h
        obtain ⟨rfl, rfl⟩ := Prod.mk.inj (Option.some.inj h)
        exact .drained hc hnext
      | some text =>
        simp only [hnext] at h
        obtain ⟨rfl, rfl⟩ := Prod.mk.inj (Option.some.inj h)
        exact .extract hc hnext (observe_rxBuffer _ _)
  | forwarding rest =>
    cases rest with
    | nil =>
      simp only [hc] at h
      obtain ⟨rfl, rfl⟩ := Prod.mk.inj (Option.some.inj h)
      exact .sent hc
    | cons b rest =>
      simp only [hc] at h
      split_ifs at h
      · obtain ⟨rfl, rfl⟩ := Prod.mk.inj (Option.some.inj h)
        exact .sendFailed hc
      · obtain ⟨rfl, rfl⟩ := Prod.mk.inj (Option.some.inj h)
        exact .send hc
  | closed => simp [hc] at h

/-! ### What a run extracts and sends on -/

/-- What the loop over the buffer still extracts, and what it leaves. -/
def ForwardState.remaining (st : ForwardState W) : List Bytes × Bytes :=
  match st.control with
  | .inspecting _ => drain nextMessage st.rxBuffer
  | _ => ([], st.rxBuffer)

/-- A run extracts what draining the buffer after each chunk gives. -/
theorem forward_feedAll {world : W} {proxy : Proxy} {es : List ForwardEvent} {st : ForwardState W}
    (h : Run (forwardStep wire iteration isClientToServer) (.start world proxy) es st) :
    feedAll nextMessage [] (es.flatMap ForwardEvent.chunks) =
      ((es.flatMap ForwardEvent.messages).map Prod.snd ++ st.remaining.1, st.remaining.2) := by
  apply h.forward (fun past (st : ForwardState W) =>
    feedAll nextMessage [] (past.flatMap ForwardEvent.chunks) =
      ((past.flatMap ForwardEvent.messages).map Prod.snd ++ st.remaining.1, st.remaining.2))
  · rfl
  · intro past s s' es hs hinv
    rw [ForwardState.remaining] at hinv
    rw [List.flatMap_append, List.flatMap_append]
    cases forwardStep_forwarded hs with
    | stop hc =>
      simp only [hc] at hinv
      simpa [ForwardState.remaining] using hinv
    | receive hc _ =>
      simp only [hc, List.append_nil] at hinv
      simp [ForwardState.remaining, ForwardEvent.chunks, ForwardEvent.messages, feedAll_concat,
        hinv]
    | extract hc hnext hrest =>
      simp only [hc, nextMessage_shortens.drain_of_take hnext] at hinv
      simpa [ForwardState.remaining, ForwardEvent.chunks, ForwardEvent.messages, hrest] using hinv
    | drained hc hnext =>
      simp only [hc, nextMessage_shortens.drain_of_refuse hnext] at hinv
      simpa [ForwardState.remaining] using hinv
    | sent hc =>
      simp only [hc] at hinv
      simpa [ForwardState.remaining] using hinv
    | send hc =>
      simp only [hc] at hinv
      simpa [ForwardState.remaining, ForwardEvent.chunks, ForwardEvent.messages] using hinv
    | sendFailed hc =>
      simp only [hc] at hinv
      simpa [ForwardState.remaining] using hinv

theorem forward_messages {world : W} {proxy : Proxy} {es : List ForwardEvent}
    {st : ForwardState W}
    (h : Run (forwardStep wire iteration isClientToServer) (.start world proxy) es st)
    (hdrained : st.remaining = ([], st.rxBuffer)) :
    (es.flatMap ForwardEvent.messages).map Prod.snd =
      (feedAll nextMessage [] (es.flatMap ForwardEvent.chunks)).1 := by
  rw [forward_feedAll h, hdrained, List.append_nil]

/-- What was sent on so far, against what was received; after a failed send the forwarder
leaves its loop. -/
def Relayed (wire : Wire W) (received forwarded : Bytes) (st : ForwardState W) : Prop :=
  match st.control with
  | .receiving =>
    received = forwarded ∨ (wire.active st.world).1 = false ∧ forwarded <+: received
  | .inspecting chunk => received = forwarded ++ chunk
  | .forwarding rest => received = forwarded ++ rest
  | .closed => forwarded <+: received

theorem Relayed.isPrefix {received forwarded : Bytes} {st : ForwardState W}
    (h : Relayed wire received forwarded st) : forwarded <+: received := by
  rw [Relayed] at h
  cases hc : st.control with
  | receiving =>
    simp only [hc] at h
    rcases h with rfl | ⟨_, h⟩
    · exact List.prefix_rfl
    · exact h
  | inspecting chunk =>
    simp only [hc] at h
    exact ⟨chunk, h.symm⟩
  | forwarding rest =>
    simp only [hc] at h
    exact ⟨rest, h.symm⟩
  | closed => simpa only [hc] using h

theorem Relayed.step {received forwarded : Bytes} {st st' : ForwardState W}
    {es : List ForwardEvent} (h : Relayed wire received forwarded st)
    (hs : Forwarded wire st st' es) :
    Relayed wire (received ++ (es.flatMap ForwardEvent.chunks).flatten)
      (forwarded ++ es.flatMap ForwardEvent.sentOn) st' := by
  have hpre := h.isPrefix
  rw [Relayed] at h
  cases hs with
  | stop hc => simpa [Relayed] using hpre
  | receive hc hactive =>
    simp only [hc, hactive, Bool.true_eq_false, false_and, or_false] at h
    simp [Relayed, ForwardEvent.chunks, ForwardEvent.sentOn, h]
  | extract hc =>
    simp only [hc] at h
    simpa [Relayed, ForwardEvent.chunks, ForwardEvent.sentOn] using h
  | drained hc =>
    simp only [hc] at h
    simpa [Relayed] using h
  | sent hc =>
    simp only [hc, List.append_nil] at h
    simp [Relayed, h]
  | send hc =>
    simp only [hc] at h
    simp [Relayed, ForwardEvent.chunks, ForwardEvent.sentOn, h]
  | sendFailed hc =>
    rw [Relayed]
    simpa [wire.inactive] using Or.inr hpre

/-- The other side gets the bytes as they came, up to some place. -/
theorem forwarded_prefix {world : W} {proxy : Proxy} {es : List ForwardEvent} {st : ForwardState W}
    (h : Run (forwardStep wire iteration isClientToServer) (.start world proxy) es st) :
    es.flatMap ForwardEvent.sentOn <+: (es.flatMap ForwardEvent.chunks).flatten := by
  have hrelayed := h.forward (fun past st => Relayed wire (past.flatMap ForwardEvent.chunks).flatten
    (past.flatMap ForwardEvent.sentOn) st) (Or.inl rfl) ?_
  · exact hrelayed.isPrefix
  · intro past s s' es hs hinv
    rw [List.flatMap_append, List.flatMap_append, List.flatten_append]
    exact hinv.step (forwardStep_forwarded hs)

end Forward

end Fixure
