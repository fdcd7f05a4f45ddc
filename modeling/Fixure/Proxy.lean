import Fixure.Dictionary
import Fixure.Framing
import Fixure.RoundTrip

/-!
# The proxy

A forwarder appends what it received to its buffer, analyses every message the buffer
holds and then forwards the bytes as they came. The trackers are shared by both
directions of all connections. The loop over the buffer extracts with the separator of
the protocol first, but then parses with `|` whatever contains one, and no text that was
framed by `SOH` parses so.
-/

namespace Fixure
open Search Decimal Splitter Tables

structure LatencyTracker where
  startTime : ℤ
  msgType : Bytes
  deriving DecidableEq

/-- What the analysis keeps between messages; times are in nanoseconds. -/
structure Proxy where
  dict : Option Dictionary := none
  orderLatency : Table Bytes LatencyTracker := ∅
  lastClientMsgTime : ℤ := 0
  lastClientMsgType : Bytes := []

/-! ### The log -/

/-- A line of the log, with the two times of a latency. -/
inductive Line
  | parseFailed (error : ParseError)
  | orderLatency (clOrdId : Bytes) (startTime now : ℤ)
  | roundtrip (clientType serverType : Bytes) (startTime now : ℤ)
  | invalid (isClientToServer : Bool) (msgType err : Bytes)
  | valid (isClientToServer : Bool) (msgType : Bytes)
  | unchecked (isClientToServer : Bool) (msgType : Bytes)
  deriving DecidableEq

inductive Stream
  | cout
  | cerr
  deriving DecidableEq

def directionText (isClientToServer : Bool) : Bytes :=
  if isClientToServer then ascii "Client -> Server" else ascii "Server -> Client"

def latencyText (startTime now : ℤ) : Bytes :=
  ascii " Latency: " ++ intNumeral ((now - startTime).tdiv 1000) ++ [32, 194, 181] ++ ascii "s"

def Line.stream : Line → Stream
  | .parseFailed _ => .cerr
  | .invalid _ _ _ => .cerr
  | _ => .cout

def Line.text : Line → Bytes
  | .parseFailed error =>
    ascii "[PROXY] [ERROR] Failed to parse message: " ++ error.toString ++ ascii "\n"
  | .orderLatency clOrdId startTime now =>
    ascii "\x1b[1;36m[PROXY] [TIMING] ClOrdID " ++ clOrdId ++ ascii " Order" ++
      latencyText startTime now ++ ascii "\x1b[0m\n"
  | .roundtrip clientType serverType startTime now =>
    ascii "[PROXY] [TIMING] Roundtrip Client " ++ clientType ++ ascii " -> Server " ++ serverType ++
      latencyText startTime now ++ ascii "\n"
  | .invalid isClientToServer msgType err =>
    ascii "\x1b[1;31m[PROXY] [INVALID] " ++ directionText isClientToServer ++ ascii " MsgType=" ++
      msgType ++ ascii " | Error: " ++ err ++ ascii "\x1b[0m\n"
  | .valid isClientToServer msgType =>
    ascii "\x1b[1;32m[PROXY] [VALID] " ++ directionText isClientToServer ++ ascii " MsgType=" ++
      msgType ++ ascii "\x1b[0m\n"
  | .unchecked isClientToServer msgType =>
    ascii "[PROXY] " ++ directionText isClientToServer ++ ascii " MsgType=" ++ msgType ++ ascii "\n"

/-! ### The analysis of one message -/

namespace Proxy
variable {W : Type} (steadyNow : W → ℤ × W) (iteration : Iteration)

def validation (p : Proxy) (isClientToServer : Bool) (msgType : Bytes) (msg : FixMessage) : Line :=
  match p.dict with
  | none => .unchecked isClientToServer msgType
  | some dict =>
    match dict.validateMessage iteration msgType msg with
    | .error err => .invalid isClientToServer msgType err
    | .ok () => .valid isClientToServer msgType

def trackOrder (p : Proxy) (msgType : Bytes) (msg : FixMessage) (w : W) : Proxy × W :=
  if msgType = ascii "D" then
    match msg.getField 11 with
    | none => (p, w)
    | some clOrdId =>
      let (now, w) := steadyNow w
      ({ p with orderLatency := p.orderLatency.insert clOrdId ⟨now, ascii "D"⟩ }, w)
  else (p, w)

def trackClient (p : Proxy) (msgType : Bytes) (w : W) : Proxy × W :=
  let (now, w) := steadyNow w
  ({ p with lastClientMsgTime := now, lastClientMsgType := msgType }, w)

def measureOrder (p : Proxy) (msgType : Bytes) (msg : FixMessage) (w : W) :
    Option Line × Proxy × W :=
  if msgType = ascii "8" then
    match msg.getField 11 with
    | none => (none, p, w)
    | some clOrdId =>
      match p.orderLatency.lookup clOrdId with
      | none => (none, p, w)
      | some it =>
        let (now, w) := steadyNow w
        (some (.orderLatency clOrdId it.startTime now),
          { p with orderLatency := p.orderLatency.erase clOrdId }, w)
  else (none, p, w)

def measureRoundtrip (p : Proxy) (msgType : Bytes) (w : W) : Option Line × Proxy × W :=
  if p.lastClientMsgType ≠ [] then
    let (now, w) := steadyNow w
    (some (.roundtrip p.lastClientMsgType msgType p.lastClientMsgTime now),
      { p with lastClientMsgType := [] }, w)
  else (none, p, w)

def analyzeMessage (p : Proxy) (msg : FixMessage) (isClientToServer : Bool) (w : W) :
    List Line × Proxy × W :=
  match msg.getField 35 with
  | none => ([], p, w)
  | some msgType =>
    if isClientToServer then
      let (p, w) := p.trackOrder steadyNow msgType msg w
      let (p, w) := p.trackClient steadyNow msgType w
      ([p.validation iteration isClientToServer msgType msg], p, w)
    else
      match p.measureOrder steadyNow msgType msg w with
      | (some line, p, w) => ([line, p.validation iteration isClientToServer msgType msg], p, w)
      | (none, p, w) =>
        let (line, p, w) := p.measureRoundtrip steadyNow msgType w
        (line.toList ++ [p.validation iteration isClientToServer msgType msg], p, w)

end Proxy

/-! ### The loop over the buffer -/

def bar : UInt8 := 124

def nextMessage (rxBuffer : Bytes) : Option Bytes × Bytes :=
  match extractNextMessage soh rxBuffer with
  | (some msg, rest) => (some msg, rest)
  | (none, rest) => extractNextMessage bar rest

def parseExtracted (text : Bytes) : Except ParseError FixMessage :=
  FixMessage.parse text (if bar ∈ text then bar else soh)

/-- What the loop did with an extracted text. -/
inductive Observation
  | analyzed (msg : FixMessage) (lines : List Line)
  | failed (error : ParseError)
  deriving DecidableEq

def Observation.result : Observation → Except ParseError FixMessage
  | .analyzed msg _ => .ok msg
  | .failed error => .error error

def Observation.lines : Observation → List Line
  | .analyzed _ lines => lines
  | .failed error => [.parseFailed error]

/-- A forwarder together with what it shares with the others. -/
structure Traffic (W : Type) where
  world : W
  proxy : Proxy
  rxBuffer : Bytes

section Loop
variable {W : Type} (steadyNow : W → ℤ × W) (iteration : Iteration) (isClientToServer : Bool)

def observe (t : Traffic W) (text : Bytes) : Observation × Traffic W :=
  match parseExtracted text with
  | .error error => (.failed error, t)
  | .ok msg =>
    let (lines, proxy, world) :=
      t.proxy.analyzeMessage steadyNow iteration msg isClientToServer t.world
    (.analyzed msg lines, { t with world := world, proxy := proxy })

def inspectFuel : ℕ → Traffic W → List Observation × Traffic W
  | 0, t => ([], t)
  | n + 1, t =>
    match nextMessage t.rxBuffer with
    | (none, rest) => ([], { t with rxBuffer := rest })
    | (some text, rest) =>
      let (seen, t) := observe steadyNow iteration isClientToServer { t with rxBuffer := rest } text
      let (others, t) := inspectFuel n t
      (seen :: others, t)

/-- The inner loop of `forward_traffic`. -/
def inspect (t : Traffic W) : List Observation × Traffic W :=
  inspectFuel steadyNow iteration isClientToServer (t.rxBuffer.length + 1) t

variable {steadyNow iteration isClientToServer}

theorem observe_result (t : Traffic W) (text : Bytes) :
    (observe steadyNow iteration isClientToServer t text).1.result = parseExtracted text := by
  rw [observe]
  cases parseExtracted text with
  | error error => rfl
  | ok msg => rfl

theorem observe_rxBuffer (t : Traffic W) (text : Bytes) :
    (observe steadyNow iteration isClientToServer t text).2.rxBuffer = t.rxBuffer := by
  rw [observe]
  cases parseExtracted text with
  | error error => rfl
  | ok msg => rfl

/-- The analysis does not touch the buffer, so the loop reads what draining extracts. -/
theorem inspectFuel_results (n : ℕ) (t : Traffic W) :
    (inspectFuel steadyNow iteration isClientToServer n t).1.map Observation.result =
        (drainFuel nextMessage n t.rxBuffer).1.map parseExtracted ∧
      (inspectFuel steadyNow iteration isClientToServer n t).2.rxBuffer =
        (drainFuel nextMessage n t.rxBuffer).2 := by
  induction n generalizing t with
  | zero => exact ⟨rfl, rfl⟩
  | succ n ih =>
    rw [inspectFuel, drainFuel]
    cases hnext : nextMessage t.rxBuffer with
    | mk piece rest =>
      cases piece with
      | none => exact ⟨rfl, rfl⟩
      | some text =>
        have hbuffer : (observe steadyNow iteration isClientToServer { t with rxBuffer := rest }
            text).2.rxBuffer = rest := observe_rxBuffer _ _
        obtain ⟨hresults, hleft⟩ := ih (observe steadyNow iteration isClientToServer
          { t with rxBuffer := rest } text).2
        rw [hbuffer] at hresults hleft
        simp only [List.map_cons, observe_result, hresults, hleft]
        exact ⟨trivial, trivial⟩

theorem inspect_results (t : Traffic W) :
    (inspect steadyNow iteration isClientToServer t).1.map Observation.result =
        (drain nextMessage t.rxBuffer).1.map parseExtracted ∧
      (inspect steadyNow iteration isClientToServer t).2.rxBuffer =
        (drain nextMessage t.rxBuffer).2 :=
  inspectFuel_results _ _

end Loop

theorem nextMessage_shortens : Shortens nextMessage := by
  intro b m r h
  rw [nextMessage] at h
  cases hsoh : extractNextMessage soh b with
  | mk piece rest =>
    cases piece with
    | some text =>
      simp only [hsoh] at h
      exact (extract_lawful soh).shorter (hsoh.trans h)
    | none =>
      simp only [hsoh] at h
      have hsuffix := (extract_suffix soh b).length_le
      rw [hsoh] at hsuffix
      exact lt_of_lt_of_le ((extract_lawful bar).shorter h) hsuffix

/-! ### Valid messages in the buffer -/

structure Forwardable (m : Bytes) : Prop where
  parsed : ∃ msg, FixMessage.parse m soh = .ok msg
  framed : Framed soh m

theorem forwardable_wire {first : Field} {rest : List Field}
    (hfree : ∀ f ∈ first :: rest, soh ∉ f.value) (hcount : (bodyFields rest).length ≤ 253)
    (hlen : (wire soh first rest).length < 2 ^ 31)
    (hno : ¬ ascii "10=" <:+: coveredText soh first rest) : Forwardable (wire soh first rest) :=
  ⟨⟨_, parse_wire (by decide) (by decide) hfree hcount hlen⟩, framed_wire hno⟩

theorem nextMessage_forwardable {m : Bytes} (h : Forwardable m) (x : Bytes) :
    nextMessage (m ++ x) = (some m, x) := by
  rw [nextMessage, extract_framed h.framed]

theorem parse_bar_error {a : Bytes} : ∃ e, FixMessage.parse (a ++ [soh]) bar = .error e := by
  apply Layout.exists_error _ (by decide)
  intro l hl htext
  rcases hl.last_mem htext with h | h | h | h
  · exact absurd h (by decide)
  · exact absurd h (by decide)
  · exact absurd h (by decide)
  · exact absurd h (by decide)

theorem parseExtracted_forwardable_iff {m : Bytes} (h : Forwardable m) :
    parseExtracted m = FixMessage.parse m soh ↔ bar ∉ m := by
  rw [parseExtracted]
  split_ifs with hbar
  · apply iff_of_false _ (not_not.mpr hbar)
    obtain ⟨msg, hmsg⟩ := h.parsed
    obtain ⟨covered, value, rfl, _⟩ := h.framed.ends
    obtain ⟨e, he⟩ := parse_bar_error (a := covered ++ (ascii "10=" ++ value))
    have hsplit : covered ++ (ascii "10=" ++ (value ++ [soh])) =
        (covered ++ (ascii "10=" ++ value)) ++ [soh] := by simp
    rw [hmsg, hsplit, he]
    simp
  · exact iff_of_true rfl hbar

theorem drain_forwardable {ms : List Bytes} (h : ∀ m ∈ ms, Forwardable m) :
    drain nextMessage ms.flatten = (ms, []) := by
  have hrefuse : nextMessage [] = (none, []) := by decide
  have hdrains := drains_flatten (fun m hm => nextMessage_forwardable (h m hm))
    (congrArg Prod.fst hrefuse)
  rw [List.append_nil] at hdrains
  rw [nextMessage_shortens.drain_eq hdrains, hrefuse]

section Analysed
variable {W : Type} (steadyNow : W → ℤ × W) (iteration : Iteration) (isClientToServer : Bool)

/-- The loop analyses the messages it was given, each as the protocol reads it, exactly
when none of them contains a `|`. -/
theorem inspect_forwardable_iff {ms : List Bytes} (h : ∀ m ∈ ms, Forwardable m) (world : W)
    (proxy : Proxy) :
    (inspect steadyNow iteration isClientToServer ⟨world, proxy, ms.flatten⟩).1.map
        Observation.result = ms.map (fun m => FixMessage.parse m soh) ↔
      ∀ m ∈ ms, bar ∉ m := by
  rw [(inspect_results _).1, drain_forwardable h, List.map_inj_left]
  apply forall₂_congr
  intro m hm
  exact parseExtracted_forwardable_iff (h m hm)

theorem inspect_forwardable_heartbeats :
    let ms := [wire soh ⟨8, ascii "F"⟩ [⟨35, ascii "0"⟩],
      wire soh ⟨8, ascii "F"⟩ [⟨35, ascii "0"⟩, ⟨112, ascii "x"⟩]]
    (inspect (fun w : ℤ => (w, w + 1000)) ⟨id, .refl⟩ true ⟨0, {}, ms.flatten⟩).1.map
        Observation.result = ms.map (fun m => FixMessage.parse m soh) ↔
      ∀ m ∈ ms, bar ∉ m :=
  inspect_forwardable_iff _ _ _ (List.forall_mem_cons.mpr
    ⟨forwardable_wire (by decide) (by decide) (by decide) (by decide),
      List.forall_mem_singleton.mpr
        (forwardable_wire (by decide) (by decide) (by decide) (by decide))⟩) _ _

/-- A valid message with a `|` in a text field. -/
def quoteText : Bytes := ascii "8=F\x019=12\x0135=0\x0158=a|b\x0110=086\x01"

theorem inspect_forwardable_bar :
    Forwardable quoteText ∧
      (inspect (fun w : ℤ => (w, w + 1000)) ⟨id, .refl⟩ true ⟨0, {}, quoteText⟩).1.map
        Observation.result ≠ [quoteText].map fun m => FixMessage.parse m soh := by
  have hwire : quoteText = wire soh ⟨8, ascii "F"⟩ [⟨35, ascii "0"⟩, ⟨58, ascii "a|b"⟩] := by
    decide
  constructor
  · rw [hwire]
    exact forwardable_wire (by decide) (by decide) (by decide) (by decide)
  · decide

end Analysed

end Fixure
