import Fixure.Environments
import Fixure.Handles
import Fixure.Outgoing
import Mathlib.Data.List.Forall2

/-!
# The TCP connection

The connection keeps one socket at a time. It closes the old one before it connects again, and the
one that cannot be connected. A send goes on until all bytes are taken, so what the socket took is
whole messages, up to the one that failed.
-/

namespace Fixure.Tcp
open Decimal Process Handles

/-- The calls of the system over its state `K`; descriptors and received bytes are `none` where the
call returns no number above its errors. -/
structure System (K : Type) where
  getaddrinfo : K → Bytes → Bytes → Bool × K
  socket : K → Option ℕ × K
  connect : K → ℕ → Bool × K
  close : K → ℕ → K
  send : K → ℕ → Bytes → ℤ × K
  setReceiveTimeout : K → ℕ → ℕ × ℕ → K
  recv : K → ℕ → ℕ → Option Bytes × K
  steadyNow : K → ℤ × K
  systemNow : K → ℤ × K
  gmtime : ℤ → Tm
  serializeBuf : K → Bytes
  serializeBuf_length : ∀ k, (serializeBuf k).length = 4096

inductive SocketUse
  | wrote (data : Bytes)
  | read (data : Bytes)
  deriving DecidableEq

abbrev SocketEvent := HandleEvent ℕ SocketUse

/-- No function reads the log. -/
structure TcpConnection (K : Type) where
  host : Bytes
  port : Int32
  socket : Option ℕ := none
  kernel : K
  log : List SocketEvent := []

namespace TcpConnection
variable {K : Type} (sys : System K)

def disconnect (c : TcpConnection K) : TcpConnection K :=
  match c.socket with
  | none => c
  | some fd =>
    { c with kernel := sys.close c.kernel fd, socket := none, log := c.log ++ [.closed fd] }

def connect (c : TcpConnection K) : Bool × TcpConnection K :=
  let c := c.disconnect sys
  match sys.getaddrinfo c.kernel c.host (intNumeral c.port.toInt) with
  | (false, k) => (false, { c with kernel := k })
  | (true, k) =>
    match sys.socket k with
    | (none, k) => (false, { c with kernel := k })
    | (some fd, k) =>
      let c : TcpConnection K := { c with socket := some fd, log := c.log ++ [.opened fd] }
      match sys.connect k fd with
      | (false, k) => (false, disconnect sys { c with kernel := k })
      | (true, k) => (true, { c with kernel := k })

/-- The loop of `send`; each round takes a byte at least. -/
def sendLoop (fd : ℕ) : ℕ → TcpConnection K → Bytes → Bool × TcpConnection K
  | 0, c, _ => (true, c)
  | _ + 1, c, [] => (true, c)
  | rounds + 1, c, b :: data =>
    match sys.send c.kernel fd (b :: data) with
    | (sent, k) =>
      if sent ≤ 0 then (false, { c with kernel := k })
      else
        sendLoop fd rounds
          { c with kernel := k, log := c.log ++ [.used fd (.wrote ((b :: data).take sent.toNat))] }
          ((b :: data).drop sent.toNat)

def send (c : TcpConnection K) (data : Bytes) : Bool × TcpConnection K :=
  match c.socket with
  | none => (false, c)
  | some fd => sendLoop sys fd data.length c data

def receive (c : TcpConnection K) (timeout : ℕ) : Option Bytes × TcpConnection K :=
  match c.socket with
  | none => (none, c)
  | some fd =>
    let k := sys.setReceiveTimeout c.kernel fd (timeout / 1000, timeout % 1000 * 1000)
    match sys.recv k fd 2048 with
    | (none, k) => (none, { c with kernel := k })
    | (some data, k) => (some data, { c with kernel := k, log := c.log ++ [.used fd (.read data)] })

end TcpConnection

def tcp {K : Type} (sys : System K) : Environment (TcpConnection K) where
  connect c := c.connect sys
  disconnect c := c.disconnect sys
  send c data := c.send sys data
  receive c timeout := c.receive sys timeout
  steadyNow c := ((sys.steadyNow c.kernel).1, { c with kernel := (sys.steadyNow c.kernel).2 })
  systemNow c := ((sys.systemNow c.kernel).1, { c with kernel := (sys.systemNow c.kernel).2 })
  gmtime := sys.gmtime
  serializeBuf c := sys.serializeBuf c.kernel
  serializeBuf_length c := sys.serializeBuf_length c.kernel

/-! ### The socket -/

/-- The socket is the one handle that is open, with its uses so far. -/
structure Holds {K : Type} (c : TcpConnection K) (current : Option (ℕ × List SocketUse)) : Prop where
  owned : Owned c.log current
  socket_eq : c.socket = current.map Prod.fst

section Socket
variable {K : Type} {sys : System K} {c : TcpConnection K}
  {current : Option (ℕ × List SocketUse)}

theorem Holds.kernel (h : Holds c current) (k : K) : Holds { c with kernel := k } current :=
  ⟨h.owned, h.socket_eq⟩

theorem Holds.disconnect (h : Holds c current) : Holds (c.disconnect sys) none := by
  rw [TcpConnection.disconnect, h.socket_eq]
  cases current with
  | none => exact h
  | some open' => exact ⟨h.owned.closed, rfl⟩

variable (sys) in
theorem Holds.connect (h : Holds c current) :
    ∃ current', Holds (c.connect sys).2 current' ∧
      if (c.connect sys).1 then ∃ fd, current' = some (fd, []) else current' = none := by
  have hoff : Holds (c.disconnect sys) none := h.disconnect
  rw [TcpConnection.connect]
  generalize c.disconnect sys = idle at hoff ⊢
  cases hresolve : sys.getaddrinfo idle.kernel idle.host (intNumeral idle.port.toInt) with
  | mk found k =>
    cases found with
    | false =>
      simp only
      exact ⟨none, hoff.kernel k, rfl⟩
    | true =>
      cases hsocket : sys.socket k with
      | mk result k =>
        cases result with
        | none =>
          simp only [hsocket]
          exact ⟨none, hoff.kernel k, rfl⟩
        | some fd =>
          have hon : Holds { idle with socket := some fd, log := idle.log ++ [.opened fd] }
              (some (fd, [])) := ⟨hoff.owned.opened fd, rfl⟩
          cases hconnect : sys.connect k fd with
          | mk ok k =>
            cases ok with
            | false =>
              simp only [hsocket, hconnect]
              exact ⟨none, (hon.kernel k).disconnect, rfl⟩
            | true =>
              simp only [hsocket, hconnect]
              exact ⟨_, hon.kernel k, fd, rfl⟩

end Socket

/-! ### The bytes -/

def SocketUse.written : SocketUse → Bytes
  | .wrote data => data
  | .read _ => []

/-- What of a text was written: all of it, or less if the send failed. -/
def Written (text : Bytes) (ok : Bool) (piece : Bytes) : Prop :=
  if ok then piece = text else piece <+: text ∧ piece ≠ text

section Bytes
variable {K : Type} {sys : System K} {c : TcpConnection K} {fd : ℕ} {uses : List SocketUse}

theorem sendLoop_writes {rounds : ℕ} {data : Bytes} (hrounds : data.length ≤ rounds)
    (h : Holds c (some (fd, uses))) :
    ∃ more, Holds (TcpConnection.sendLoop sys fd rounds c data).2 (some (fd, uses ++ more)) ∧
      Written data (TcpConnection.sendLoop sys fd rounds c data).1
        (more.flatMap SocketUse.written) := by
  induction rounds generalizing c uses data with
  | zero =>
    obtain rfl : data = [] := List.eq_nil_of_length_eq_zero (Nat.le_zero.mp hrounds)
    refine ⟨[], ?_, rfl⟩
    rwa [TcpConnection.sendLoop, List.append_nil]
  | succ rounds ih =>
    cases data with
    | nil =>
      refine ⟨[], ?_, rfl⟩
      rwa [TcpConnection.sendLoop, List.append_nil]
    | cons b data =>
      rw [TcpConnection.sendLoop]
      cases hsend : sys.send c.kernel fd (b :: data) with
      | mk sent k =>
        simp only
        split_ifs with hfailed
        · exact ⟨[], by rw [List.append_nil]; exact h.kernel k, List.nil_prefix, by simp⟩
        · have hpos : 0 < sent.toNat := by omega
          set piece := (b :: data).take sent.toNat with hpiece
          set rest := (b :: data).drop sent.toNat with hrest
          have hsplit : piece ++ rest = b :: data := List.take_append_drop _ _
          have hless : rest.length ≤ rounds := by
            rw [hrest, List.length_drop]
            omega
          have hnext : Holds { c with kernel := k, log := c.log ++ [.used fd (.wrote piece)] }
              (some (fd, uses ++ [.wrote piece])) := ⟨h.owned.used _, h.socket_eq⟩
          obtain ⟨more, hmore, hwritten⟩ := ih hless hnext
          refine ⟨.wrote piece :: more, by simpa using hmore, ?_⟩
          rw [List.flatMap_cons, ← hsplit]
          revert hwritten
          simp only [Written, SocketUse.written]
          split_ifs
          · intro hall
            rw [hall]
          · rintro ⟨hpre, hne⟩
            exact ⟨(List.prefix_append_right_inj _).mpr hpre, fun heq =>
              hne (List.append_cancel_left heq)⟩

variable (sys) in
theorem Holds.send (h : Holds c (some (fd, uses))) (data : Bytes) :
    ∃ more, Holds (c.send sys data).2 (some (fd, uses ++ more)) ∧
      Written data (c.send sys data).1 (more.flatMap SocketUse.written) := by
  rw [TcpConnection.send, h.socket_eq]
  exact sendLoop_writes le_rfl h

variable (sys) in
theorem Holds.receive (h : Holds c (some (fd, uses))) (timeout : ℕ) :
    ∃ more, Holds (c.receive sys timeout).2 (some (fd, uses ++ more)) ∧
      more.flatMap SocketUse.written = [] := by
  have hsocket : c.socket = some fd := h.socket_eq
  rw [TcpConnection.receive, hsocket]
  cases hrecv : sys.recv (sys.setReceiveTimeout c.kernel fd (timeout / 1000, timeout % 1000 * 1000))
      fd 2048 with
  | mk data k =>
    cases data with
    | none =>
      simp only [hrecv]
      exact ⟨[], ⟨by simpa using h.owned, rfl⟩, rfl⟩
    | some data =>
      simp only [hrecv]
      exact ⟨[.read data], ⟨h.owned.used _, rfl⟩, rfl⟩

end Bytes

/-- A system whose sockets take seven bytes at a time and receive what is in the list. -/
def trickle : System (List Bytes) where
  getaddrinfo k _ _ := (true, k)
  socket k := (some 3, k)
  connect k _ := (true, k)
  close k _ := k
  send k _ data := (min 7 data.length, k)
  setReceiveTimeout k _ _ := k
  recv k _ _ := (k.head?, k.tail)
  steadyNow k := (0, k)
  systemNow k := (0, k)
  gmtime _ := ⟨70, 0, 1, 0, 0, 0⟩
  serializeBuf _ := List.replicate 4096 0
  serializeBuf_length _ := List.length_replicate

/-! ### Runs -/

/-- The messages that the run tried to send since it was last connected. -/
def sentSinceConnect (es : List Event) : List SentEvent :=
  es.foldl (fun sent e =>
    match e with
    | .connected true => []
    | .sent e => sent ++ [e]
    | _ => sent) []

/-- The open socket took what was written of the messages sent on it. -/
structure Carried {K : Type} (past : List Event) (c : TcpConnection K)
    (current : Option (ℕ × List SocketUse)) : Prop where
  holds : Holds c current
  written : ∀ fd uses, current = some (fd, uses) → ∃ pieces,
    List.Forall₂ (fun (e : SentEvent) piece => Written e.text e.ok piece) (sentSinceConnect past)
      pieces ∧ uses.flatMap SocketUse.written = pieces.flatten

section Carried
variable {K : Type} {sys : System K} {c : TcpConnection K} {past : List Event}
  {current : Option (ℕ × List SocketUse)}

theorem sentSinceConnect_concat (past : List Event) (e : Event) :
    sentSinceConnect (past ++ [e]) =
      match e with
      | .connected true => []
      | .sent e => sentSinceConnect past ++ [e]
      | _ => sentSinceConnect past := by
  rw [sentSinceConnect, List.foldl_append]
  rfl

theorem Carried.quiet (h : Carried past c current) {e : Event}
    (hquiet : sentSinceConnect (past ++ [e]) = sentSinceConnect past) :
    Carried (past ++ [e]) c current :=
  ⟨h.holds, by rw [hquiet]; exact h.written⟩

theorem Carried.kernel (h : Carried past c current) (k : K) :
    Carried past { c with kernel := k } current :=
  ⟨h.holds.kernel k, h.written⟩

theorem Carried.connect (h : Carried past c current) :
    ∃ current', Carried (past ++ [.connected (c.connect sys).1]) (c.connect sys).2 current' := by
  obtain ⟨current', hholds, hresult⟩ := h.holds.connect sys
  refine ⟨current', hholds, ?_⟩
  rintro fd uses rfl
  split_ifs at hresult with hok
  · obtain ⟨fd', heq⟩ := hresult
    obtain ⟨rfl, rfl⟩ := Prod.mk.inj (Option.some.inj heq)
    refine ⟨[], ?_, rfl⟩
    rw [hok, sentSinceConnect_concat]
    exact .nil
  
theorem Carried.send (h : Carried past c current) (sender : Sender) (fields : List Field)
    (text : Bytes) :
    ∃ current', Carried (past ++ [.sent ⟨sender, fields, text, (c.send sys text).1⟩])
      (c.send sys text).2 current' := by
  cases current with
  | none =>
    have hsocket : c.socket = none := h.holds.socket_eq
    rw [TcpConnection.send, hsocket]
    exact ⟨none, h.holds, fun fd uses heq => by cases heq⟩
  | some open' =>
    obtain ⟨fd, uses⟩ := open'
    obtain ⟨pieces, hpieces, huses⟩ := h.written fd uses rfl
    obtain ⟨more, hholds, hmore⟩ := h.holds.send sys text
    refine ⟨_, hholds, ?_⟩
    rintro fd' uses' heq
    obtain ⟨rfl, rfl⟩ := Prod.mk.inj (Option.some.inj heq)
    refine ⟨pieces ++ [more.flatMap SocketUse.written], ?_, ?_⟩
    · rw [sentSinceConnect_concat]
      exact List.rel_append hpieces (.cons hmore .nil)
    · rw [List.flatMap_append, huses, List.flatten_append, List.flatten_singleton]

theorem Carried.receive (h : Carried past c current) (timeout : ℕ) :
    ∃ current', Carried (past ++ [.received (c.receive sys timeout).1])
      (c.receive sys timeout).2 current' := by
  cases current with
  | none =>
    have hsocket : c.socket = none := h.holds.socket_eq
    rw [TcpConnection.receive, hsocket]
    exact ⟨none, h.quiet (sentSinceConnect_concat _ _)⟩
  | some open' =>
    obtain ⟨fd, uses⟩ := open'
    obtain ⟨pieces, hpieces, huses⟩ := h.written fd uses rfl
    obtain ⟨more, hholds, hmore⟩ := h.holds.receive sys timeout
    refine ⟨_, hholds, ?_⟩
    rintro fd' uses' heq
    obtain ⟨rfl, rfl⟩ := Prod.mk.inj (Option.some.inj heq)
    refine ⟨pieces, ?_, ?_⟩
    · rw [sentSinceConnect_concat]
      exact hpieces
    · rw [List.flatMap_append, huses, hmore, List.append_nil]

theorem follows_tcp : Follows (tcp sys) (fun past c => ∃ current, Carried past c current) where
  connect := by
    rintro past c ⟨current, h⟩
    exact h.connect
  disconnect := by
    rintro past c ⟨current, h⟩
    exact ⟨none, h.holds.disconnect, fun fd uses heq => by cases heq⟩
  send := by
    rintro past c sender fields text ⟨current, h⟩
    exact h.send sender fields text
  receive := by
    rintro past c ⟨current, h⟩
    exact h.receive 500
  steadyNow := by
    rintro past c ⟨current, h⟩
    exact ⟨current, h.kernel _⟩
  systemNow := by
    rintro past c ⟨current, h⟩
    exact ⟨current, h.kernel _⟩
  extracted := by
    rintro past c raw ⟨current, h⟩
    exact ⟨current, h.quiet (sentSinceConnect_concat _ _)⟩
  read := by
    rintro past c reading ⟨current, h⟩
    exact ⟨current, h.quiet (sentSinceConnect_concat _ _)⟩
  satisfied := by
    rintro past c msg ⟨current, h⟩
    exact ⟨current, h.quiet (sentSinceConnect_concat _ _)⟩

theorem carried_run {world : TcpConnection K} {session : FixSession} {mocks : List ScenarioStep}
    {scenario : Scenario} {es : List Event} {st : RunState (TcpConnection K)}
    (hlog : world.log = []) (hsocket : world.socket = none)
    (hrun : Run (runStep (tcp sys)) (.start world session mocks scenario) es st) :
    ∃ current, Carried es st.world current := by
  have hholds : Holds world none := ⟨hlog ▸ .start, hsocket⟩
  exact follows_tcp.run hrun ⟨none, hholds, fun fd uses heq => by cases heq⟩

/-- In every run the sockets are opened, used and closed one after the other, and when the
connection is destroyed the last one is closed as well. -/
theorem tcp_socketsClosed {world : TcpConnection K} {session : FixSession}
    {mocks : List ScenarioStep} {scenario : Scenario} {es : List Event}
    {st : RunState (TcpConnection K)} (hlog : world.log = []) (hsocket : world.socket = none)
    (hrun : Run (runStep (tcp sys)) (.start world session mocks scenario) es st) :
    (∃ sessions current, st.world.log = record sessions ++ unfinished current ∧
        st.world.socket = current.map Prod.fst) ∧
      (st.world.disconnect sys).socket = none ∧
        ∃ sessions, (st.world.disconnect sys).log = record sessions := by
  obtain ⟨current, hcarried⟩ := carried_run hlog hsocket hrun
  have hclosed : Holds (st.world.disconnect sys) none := hcarried.holds.disconnect
  obtain ⟨sessions, hsessions⟩ := hcarried.holds.owned.sessions
  obtain ⟨closed, hall⟩ := hclosed.owned.sessions
  exact ⟨⟨sessions, current, hsessions, hcarried.holds.socket_eq⟩, hclosed.socket_eq, closed,
    by rw [hall, unfinished, List.append_nil]⟩

def reconnectedStart : RunState (TcpConnection (List Bytes)) :=
  .start { host := ascii "localhost", port := 5001, kernel := [] }
    { config := { senderCompId := ascii "C", targetCompId := ascii "S" } } []
    ⟨ascii "twice", [⟨.connect, []⟩, ⟨.send, [⟨35, ascii "A"⟩]⟩, ⟨.connect, []⟩,
      ⟨.send, [⟨35, ascii "A"⟩]⟩]⟩

def reconnectedRun : List Event × RunState (TcpConnection (List Bytes)) :=
  exec (runStep (tcp trickle)) 4 reconnectedStart

theorem run_reconnected :
    Run (runStep (tcp trickle)) reconnectedStart reconnectedRun.1 reconnectedRun.2 :=
  run_exec (runStep (tcp trickle)) 4 reconnectedStart

theorem tcp_socketsClosed_reconnected :
    ∃ sessions, (reconnectedRun.2.world.disconnect trickle).log = record sessions :=
  (tcp_socketsClosed rfl rfl run_reconnected).2.2

theorem flatten_of_written {sent : List SentEvent} {pieces : List Bytes}
    (h : List.Forall₂ (fun (e : SentEvent) piece => Written e.text e.ok piece) sent pieces)
    (hok : ∀ e ∈ sent, e.ok = true) : pieces.flatten = sent.flatMap SentEvent.text := by
  induction h with
  | nil => rfl
  | @cons e piece sent pieces hpiece _ ih =>
    rw [Written, hok e List.mem_cons_self, if_pos rfl] at hpiece
    rw [List.flatten_cons, List.flatMap_cons, hpiece,
      ih fun e he => hok e (List.mem_cons_of_mem _ he)]

/-- At any time the open socket has taken the messages that were sent on it, one behind the other,
each as a whole if its send succeeded; one that failed has left a part of itself. -/
theorem tcp_wholeMessages {world : TcpConnection K} {session : FixSession}
    {mocks : List ScenarioStep} {scenario : Scenario} {es : List Event}
    {st : RunState (TcpConnection K)} {fd : ℕ} (hlog : world.log = [])
    (hsocket : world.socket = none)
    (hrun : Run (runStep (tcp sys)) (.start world session mocks scenario) es st)
    (hopen : st.world.socket = some fd) :
    ∃ sessions uses pieces,
      st.world.log = record sessions ++ unfinished (some (fd, uses)) ∧
      uses.flatMap SocketUse.written = List.flatten pieces ∧
      List.Forall₂ (fun (e : SentEvent) piece => Written e.text e.ok piece) (sentSinceConnect es)
        pieces ∧
      ((∀ e ∈ sentSinceConnect es, e.ok = true) →
        uses.flatMap SocketUse.written = (sentSinceConnect es).flatMap SentEvent.text) := by
  obtain ⟨current, hcarried⟩ := carried_run hlog hsocket hrun
  have hcurrent := hcarried.holds.socket_eq
  rw [hopen] at hcurrent
  obtain ⟨⟨fd', uses⟩, rfl, rfl⟩ := Option.map_eq_some_iff.mp hcurrent.symm
  obtain ⟨pieces, hpieces, huses⟩ := hcarried.written fd' uses rfl
  obtain ⟨sessions, hsessions⟩ := hcarried.holds.owned.sessions
  refine ⟨sessions, uses, pieces, hsessions, huses, hpieces, fun hok => ?_⟩
  rw [huses, flatten_of_written hpieces hok]

theorem tcp_wholeMessages_reconnected :
    ∃ sessions uses pieces,
      reconnectedRun.2.world.log = record sessions ++ unfinished (some (3, uses)) ∧
        uses.flatMap SocketUse.written = List.flatten pieces := by
  have hopen : reconnectedRun.2.world.socket = some 3 := by decide +kernel
  obtain ⟨sessions, uses, pieces, hlog, huses, _⟩ :=
    tcp_wholeMessages rfl rfl run_reconnected hopen
  exact ⟨sessions, uses, pieces, hlog, huses⟩

end Carried

end Fixure.Tcp
