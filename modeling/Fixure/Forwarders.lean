import Fixure.Transducer
import Mathlib.Data.List.Nodup
import Mathlib.Logic.Function.Basic

/-!
# The sockets of the proxy

The accept loop, the handlers of the connections and their two forwarders each take steps
of their own, in any order; a step gets what its system call returned. The descriptor table
says for whom a number is open, and a call that opens a socket may return any number that
is free. Both forwarders of a connection close both of its sockets. `Sound` ties the table
to what every connection has opened and not closed yet; it survives a close exactly when
the connection has a close to spare. What the forwarders read and analyse is no part of it.
-/

namespace Fixure.Sockets
open Transducer

/-! ### The descriptor table and the threads -/

inductive Owner
  | listener
  | connection (k : ℕ)
  deriving DecidableEq

/-- A forwarder: its loop condition, `recv`, the loop around `send` with the bytes that are
left, and the two closes behind the loop. -/
inductive Control
  | checking
  | receiving
  | sending (left : ℕ)
  | closingSrc
  | closingDst
  | ended
  deriving DecidableEq

/-- How far `handle_connection` has come; `failing` holds the descriptors still to close. -/
inductive Handler
  | accepted
  | opened (targetFd : ℕ)
  | resolved (targetFd : ℕ)
  | failing (fds : List ℕ)
  | forwarding (targetFd : ℕ) (connectionActive : Bool) (clientToServer serverToClient : Control)

structure Connection where
  clientFd : ℕ
  handler : Handler

inductive Acceptor
  | checking
  | selecting
  | accepting
  | returned

structure State where
  running : Bool
  serverFd : Option ℕ
  acceptor : Acceptor
  table : ℕ → Option Owner
  connections : List Connection

inductive Closer
  | main
  | handler (k : ℕ)
  | forwarder (k : ℕ) (isClientToServer : Bool)
  deriving DecidableEq

/-- A close reports for whom the descriptor was open. -/
inductive Event
  | opened (fd : ℕ) (owner : Owner)
  | closed (closer : Closer) (fd : ℕ) (holder : Option Owner)
  deriving DecidableEq

/-- The next step of a thread; `result` is what its system call returns, `none` for a
negative number. -/
inductive Action
  | stop
  | serve (result : Option ℕ)
  | handle (k : ℕ) (result : Option ℕ)
  | forward (k : ℕ) (isClientToServer : Bool) (result : Option ℕ)

namespace State

def put (s : State) (k : ℕ) (c : Connection) : State :=
  { s with connections := s.connections.set k c }

def openFd (s : State) (fd : ℕ) (owner : Owner) : State × List Event :=
  ({ s with table := Function.update s.table fd (some owner) }, [.opened fd owner])

/-- Closing a free number fails and changes nothing. -/
def closeFd (s : State) (closer : Closer) (fd : ℕ) : State × List Event :=
  ({ s with table := Function.update s.table fd none }, [.closed closer fd (s.table fd)])

def closeNext (s : State) (closer : Closer) : Option ℕ → State × List Event
  | none => (s, [])
  | some fd => s.closeFd closer fd

end State

/-! ### The steps -/

def stopStep (s : State) : State × List Event :=
  match s.serverFd with
  | none => ({ s with running := false }, [])
  | some fd => State.closeFd { s with running := false, serverFd := none } .main fd

/-- The accept loop of `start`; a new connection gets a thread and the next number. An
interrupted `select` goes on like one that timed out. -/
def serveStep (s : State) (result : Option ℕ) : State × List Event :=
  match s.acceptor with
  | .checking => ({ s with acceptor := if s.running then .selecting else .returned }, [])
  | .selecting =>
    match result with
    | none => ({ s with acceptor := .returned }, [])
    | some 0 => ({ s with acceptor := .checking }, [])
    | some _ => ({ s with acceptor := .accepting }, [])
  | .accepting =>
    match result with
    | none => ({ s with acceptor := if s.running then .checking else .returned }, [])
    | some fd =>
      if s.serverFd ≠ none ∧ s.table fd = none then
        State.openFd { s with
          acceptor := .checking
          connections := s.connections ++ [⟨fd, .accepted⟩] } fd
          (.connection s.connections.length)
      else (s, [])
  | .returned => (s, [])

def handleStep (s : State) (k : ℕ) (result : Option ℕ) : State × List Event :=
  match s.connections[k]? with
  | none => (s, [])
  | some ⟨clientFd, handler⟩ =>
    match handler, result with
    | .accepted, none => (s.put k ⟨clientFd, .failing [clientFd]⟩, [])
    | .accepted, some fd =>
      if s.table fd = none then (s.put k ⟨clientFd, .opened fd⟩).openFd fd (.connection k)
      else (s, [])
    | .opened targetFd, none => (s.put k ⟨clientFd, .failing [clientFd, targetFd]⟩, [])
    | .opened targetFd, some _ => (s.put k ⟨clientFd, .resolved targetFd⟩, [])
    | .resolved targetFd, none => (s.put k ⟨clientFd, .failing [clientFd, targetFd]⟩, [])
    | .resolved targetFd, some _ =>
      (s.put k ⟨clientFd, .forwarding targetFd true .checking .checking⟩, [])
    | .failing (fd :: fds), _ => (s.put k ⟨clientFd, .failing fds⟩).closeFd (.handler k) fd
    | .failing [], _ => (s, [])
    | .forwarding _ _ _ _, _ => (s, [])

/-- Where a forwarder goes next, and the flag that it shares with the other one. -/
def Control.next (running connectionActive : Bool) (result : Option ℕ) : Control → Control × Bool
  | .checking =>
    (if running && connectionActive then .receiving else .closingSrc, connectionActive)
  | .receiving =>
    match result with
    | none => (.closingSrc, false)
    | some 0 => (.closingSrc, false)
    | some bytesRead => (.sending bytesRead, connectionActive)
  | .sending 0 => (.checking, connectionActive)
  | .sending left =>
    match result with
    | none => (.checking, false)
    | some 0 => (.checking, false)
    | some sent => (.sending (left - sent), connectionActive)
  | .closingSrc => (.closingDst, connectionActive)
  | .closingDst => (.ended, connectionActive)
  | .ended => (.ended, connectionActive)

def Control.closing (srcFd dstFd : ℕ) : Control → Option ℕ
  | .closingSrc => some srcFd
  | .closingDst => some dstFd
  | _ => none

def forwardStep (s : State) (k : ℕ) (isClientToServer : Bool) (result : Option ℕ) :
    State × List Event :=
  match s.connections[k]? with
  | some ⟨clientFd, .forwarding targetFd connectionActive clientToServer serverToClient⟩ =>
    let srcFd := if isClientToServer then clientFd else targetFd
    let dstFd := if isClientToServer then targetFd else clientFd
    let control := if isClientToServer then clientToServer else serverToClient
    let (next, connectionActive) := control.next s.running connectionActive result
    let s' := s.put k ⟨clientFd, .forwarding targetFd connectionActive
      (if isClientToServer then next else clientToServer)
      (if isClientToServer then serverToClient else next)⟩
    s'.closeNext (.forwarder k isClientToServer) (control.closing srcFd dstFd)
  | _ => (s, [])

def step (s : State) : Action → State × List Event
  | .stop => stopStep s
  | .serve result => serveStep s result
  | .handle k result => handleStep s k result
  | .forward k isClientToServer result => forwardStep s k isClientToServer result

def listening (serverFd : ℕ) : State :=
  ⟨true, some serverFd, .checking, Function.update (fun _ => none) serverFd (some .listener), []⟩

/-! ### Who holds what -/

def Control.closes : Control → ℕ
  | .closingDst => 1
  | .ended => 2
  | _ => 0

namespace Connection

/-- The closes that the forwarders of a connection have made. -/
def closes (c : Connection) : ℕ :=
  match c.handler with
  | .forwarding _ _ clientToServer serverToClient => clientToServer.closes + serverToClient.closes
  | _ => 0

def closing (c : Connection) (isClientToServer : Bool) : Option ℕ :=
  match c.handler with
  | .forwarding targetFd _ clientToServer serverToClient =>
    if isClientToServer then clientToServer.closing c.clientFd targetFd
    else serverToClient.closing targetFd c.clientFd
  | _ => none

/-- The descriptors that a connection has opened and nobody has closed for it. -/
def unclosed (c : Connection) : List ℕ :=
  match c.handler with
  | .accepted => [c.clientFd]
  | .opened targetFd => [c.clientFd, targetFd]
  | .resolved targetFd => [c.clientFd, targetFd]
  | .failing fds => fds
  | .forwarding targetFd _ clientToServer serverToClient =>
    (if clientToServer.closes = 0 ∧ serverToClient.closes ≤ 1 then [c.clientFd] else []) ++
      (if serverToClient.closes = 0 ∧ clientToServer.closes ≤ 1 then [targetFd] else [])

/-- No number stands for two descriptors of the connection. -/
def Distinct (c : Connection) : Prop :=
  match c.handler with
  | .accepted => True
  | .opened targetFd => c.clientFd ≠ targetFd
  | .resolved targetFd => c.clientFd ≠ targetFd
  | .failing fds => fds.Nodup
  | .forwarding targetFd _ _ _ => c.clientFd ≠ targetFd

end Connection

/-- The table gives every connection what it has opened and not closed, and the listener
its own descriptor. -/
structure Sound (s : State) : Prop where
  holds : ∀ (k : ℕ) (c : Connection), s.connections[k]? = some c →
    ∀ fd, s.table fd = some (.connection k) ↔ fd ∈ c.unclosed
  distinct : ∀ (k : ℕ) (c : Connection), s.connections[k]? = some c → c.Distinct
  known : ∀ fd (k : ℕ), s.table fd = some (.connection k) → k < s.connections.length
  listener : ∀ fd, s.serverFd = some fd → s.table fd = some .listener

theorem sound_listening (serverFd : ℕ) : Sound (listening serverFd) := by
  refine ⟨?_, ?_, ?_, ?_⟩
  · intro k c h
    cases h
  · intro k c h
    cases h
  · intro fd k h
    simp only [listening] at h
    by_cases hfd : fd = serverFd
    · rw [hfd, Function.update_self] at h
      cases h
    · rw [Function.update_of_ne hfd] at h
      cases h
  · intro fd h
    obtain rfl := Option.some.inj h
    simp only [listening, Function.update_self]

section Sound
variable {s : State} {k : ℕ} {c c' : Connection}

/-- One connection changes its record and what the table gives it, the others keep theirs. -/
theorem Sound.update (hs : Sound s) (hk : s.connections[k]? = some c) (table : ℕ → Option Owner)
    (hown : ∀ fd, table fd = some (.connection k) ↔ fd ∈ c'.unclosed)
    (hother : ∀ fd o, o ≠ .connection k → (table fd = some o ↔ s.table fd = some o))
    (hdistinct : c'.Distinct) :
    Sound { s with table := table, connections := s.connections.set k c' } := by
  have hlt : k < s.connections.length := (List.getElem?_eq_some_iff.mp hk).1
  have hget : ∀ j d, (s.connections.set k c')[j]? = some d →
      (j = k ∧ d = c') ∨ (j ≠ k ∧ s.connections[j]? = some d) := by
    intro j d h
    by_cases hj : j = k
    · subst hj
      rw [List.getElem?_set_self hlt] at h
      exact Or.inl ⟨rfl, (Option.some.inj h).symm⟩
    · rw [List.getElem?_set_ne (Ne.symm hj)] at h
      exact Or.inr ⟨hj, h⟩
  refine ⟨?_, ?_, ?_, ?_⟩
  · intro j d h fd
    rcases hget j d h with ⟨rfl, rfl⟩ | ⟨hj, h⟩
    · exact hown fd
    · rw [← hs.holds j d h fd]
      exact hother fd _ fun h => hj (Owner.connection.inj h)
  · intro j d h
    rcases hget j d h with ⟨rfl, rfl⟩ | ⟨hj, h⟩
    · exact hdistinct
    · exact hs.distinct j d h
  · intro fd j h
    rw [List.length_set]
    by_cases hj : j = k
    · exact hj ▸ hlt
    · exact hs.known fd j ((hother fd _ fun h => hj (Owner.connection.inj h)).mp h)
  · intro fd h
    exact (hother fd _ Owner.noConfusion).mpr (hs.listener fd h)

theorem Sound.put (hs : Sound s) (hk : s.connections[k]? = some c)
    (hsame : ∀ fd, fd ∈ c'.unclosed ↔ fd ∈ c.unclosed) (hdistinct : c'.Distinct) :
    Sound (s.put k c') :=
  hs.update hk s.table (fun fd => (hs.holds k c hk fd).trans (hsame fd).symm)
    (fun _ _ _ => Iff.rfl) hdistinct

theorem Sound.openFd (hs : Sound s) (hk : s.connections[k]? = some c) {fd : ℕ}
    (hfree : s.table fd = none) (hmore : ∀ x, x ∈ c'.unclosed ↔ x = fd ∨ x ∈ c.unclosed)
    (hdistinct : c'.Distinct) : Sound ((s.put k c').openFd fd (.connection k)).1 := by
  apply hs.update hk (Function.update s.table fd (some (.connection k))) _ _ hdistinct
  · intro x
    rw [hmore, ← hs.holds k c hk]
    by_cases hx : x = fd
    · rw [hx, Function.update_self]
      exact iff_of_true rfl (Or.inl rfl)
    · rw [Function.update_of_ne hx, or_iff_right hx]
  · intro x o ho
    by_cases hx : x = fd
    · rw [hx, Function.update_self, hfree]
      exact iff_of_false (fun h => ho (Option.some.inj h).symm) (by simp)
    · rw [Function.update_of_ne hx]

theorem Sound.closeFd (hs : Sound s) (hk : s.connections[k]? = some c) {fd : ℕ}
    (hheld : fd ∈ c.unclosed) (hless : ∀ x, x ∈ c'.unclosed ↔ x ≠ fd ∧ x ∈ c.unclosed)
    (hdistinct : c'.Distinct) (closer : Closer) : Sound ((s.put k c').closeFd closer fd).1 := by
  have howner := (hs.holds k c hk fd).mpr hheld
  apply hs.update hk (Function.update s.table fd none) _ _ hdistinct
  · intro x
    rw [hless, ← hs.holds k c hk]
    by_cases hx : x = fd
    · rw [hx, Function.update_self]
      exact iff_of_false (by simp) fun h => h.1 rfl
    · rw [Function.update_of_ne hx, and_iff_right hx]
  · intro x o ho
    by_cases hx : x = fd
    · rw [hx, Function.update_self, howner]
      exact iff_of_false (by simp) fun h => ho (Option.some.inj h).symm
    · rw [Function.update_of_ne hx]

/-! ### What a step keeps -/

theorem Sound.control (hs : Sound s) (running : Bool) (acceptor : Acceptor) :
    Sound { s with running := running, acceptor := acceptor } :=
  ⟨hs.holds, hs.distinct, hs.known, hs.listener⟩

theorem Sound.stop (hs : Sound s) {fd : ℕ} (hserver : s.serverFd = some fd) :
    Sound (State.closeFd { s with running := false, serverFd := none } .main fd).1 := by
  have howner := hs.listener fd hserver
  have hother : ∀ x j, Function.update s.table fd none x = some (.connection j) ↔
      s.table x = some (.connection j) := by
    intro x j
    by_cases hx : x = fd
    · rw [hx, Function.update_self, howner]
      simp
    · rw [Function.update_of_ne hx]
  refine ⟨?_, hs.distinct, ?_, fun x h => by cases h⟩
  · intro j d h x
    exact (hother x j).trans (hs.holds j d h x)
  · intro x j h
    exact hs.known x j ((hother x j).mp h)

theorem Sound.accept (hs : Sound s) {fd : ℕ} (hfree : s.table fd = none) :
    Sound (State.openFd { s with
      acceptor := .checking
      connections := s.connections ++ [⟨fd, .accepted⟩] } fd
      (.connection s.connections.length)).1 := by
  have htable : ∀ x o, Function.update s.table fd (some (.connection s.connections.length)) x =
      some o ↔ (x = fd ∧ o = .connection s.connections.length) ∨ s.table x = some o := by
    intro x o
    by_cases hx : x = fd
    · rw [hx, Function.update_self, hfree]
      simp [eq_comm]
    · rw [Function.update_of_ne hx]
      simp [hx]
  have hget : ∀ j d, (s.connections ++ [⟨fd, .accepted⟩])[j]? = some d →
      s.connections[j]? = some d ∨ (j = s.connections.length ∧ d = ⟨fd, .accepted⟩) := by
    intro j d h
    rcases Nat.lt_or_ge j s.connections.length with hj | hj
    · rw [List.getElem?_append_left hj] at h
      exact Or.inl h
    · rw [List.getElem?_append_right hj, List.getElem?_singleton] at h
      split_ifs at h
      exact Or.inr ⟨by omega, (Option.some.inj h).symm⟩
  simp only [State.openFd]
  refine ⟨?_, ?_, ?_, ?_⟩
  · intro j d h x
    rw [htable]
    rcases hget j d h with h | ⟨rfl, rfl⟩
    · have hj : j < s.connections.length := (List.getElem?_eq_some_iff.mp h).1
      rw [← hs.holds j d h x]
      apply or_iff_right
      intro ⟨_, ho⟩
      exact absurd (Owner.connection.inj ho) (Nat.ne_of_lt hj)
    · have hfresh : s.table x ≠ some (.connection s.connections.length) :=
        fun hx => absurd (hs.known x _ hx) (Nat.lt_irrefl _)
      simp [Connection.unclosed, hfresh]
  · intro j d h
    rcases hget j d h with h | ⟨rfl, rfl⟩
    · exact hs.distinct j d h
    · trivial
  · intro x j h
    rw [htable] at h
    rw [List.length_append, List.length_singleton]
    rcases h with ⟨_, ho⟩ | h
    · have := Owner.connection.inj ho
      omega
    · have := hs.known x j h
      omega
  · intro x h
    rw [htable]
    exact Or.inr (hs.listener x h)

end Sound

/-- What the main thread, the accept loop and the handlers do. -/
inductive Housekeeping (s : State) : State × List Event → Prop
  | control (running : Bool) (acceptor : Acceptor) :
      Housekeeping s ({ s with running := running, acceptor := acceptor }, [])
  | stop {fd} : s.serverFd = some fd →
      Housekeeping s (State.closeFd { s with running := false, serverFd := none } .main fd)
  | accept {fd} : s.table fd = none → Housekeeping s (State.openFd { s with
      acceptor := .checking
      connections := s.connections ++ [⟨fd, .accepted⟩] } fd (.connection s.connections.length))
  | put {k c c'} : s.connections[k]? = some c → (∀ fd, fd ∈ c'.unclosed ↔ fd ∈ c.unclosed) →
      (c.Distinct → c'.Distinct) → Housekeeping s (s.put k c', [])
  | openFd {k c c' fd} : s.connections[k]? = some c → s.table fd = none →
      (∀ x, x ∈ c'.unclosed ↔ x = fd ∨ x ∈ c.unclosed) → (fd ∉ c.unclosed → c'.Distinct) →
      Housekeeping s ((s.put k c').openFd fd (.connection k))
  | closeFd {k c c' fd} : s.connections[k]? = some c → fd ∈ c.unclosed →
      (c.Distinct → ∀ x, x ∈ c'.unclosed ↔ x ≠ fd ∧ x ∈ c.unclosed) →
      (c.Distinct → c'.Distinct) → Housekeeping s ((s.put k c').closeFd (.handler k) fd)

theorem Housekeeping.idle {s : State} : Housekeeping s (s, []) := .control s.running s.acceptor

theorem Housekeeping.sound {s : State} {r : State × List Event} (h : Housekeeping s r)
    (hs : Sound s) : Sound r.1 := by
  cases h with
  | control running acceptor => exact hs.control running acceptor
  | stop hserver => exact hs.stop hserver
  | accept hfree => exact hs.accept hfree
  | put hk hsame hdistinct => exact hs.put hk hsame (hdistinct (hs.distinct _ _ hk))
  | openFd hk hfree hmore hdistinct =>
    apply hs.openFd hk hfree hmore
    apply hdistinct
    rw [← hs.holds _ _ hk, hfree]
    exact Option.some_ne_none _ ∘ Eq.symm
  | closeFd hk hheld hless hdistinct =>
    have hc := hs.distinct _ _ hk
    exact hs.closeFd hk hheld (hless hc) (hdistinct hc) _

theorem stopStep_housekeeping (s : State) : Housekeeping s (stopStep s) := by
  rw [stopStep]
  cases hserver : s.serverFd with
  | none =>
    have hcontrol : Housekeeping s ({ s with running := false }, []) := .control false s.acceptor
    rwa [hserver] at hcontrol
  | some fd => exact .stop hserver

theorem serveStep_housekeeping (s : State) (result : Option ℕ) :
    Housekeeping s (serveStep s result) := by
  unfold serveStep
  cases s.acceptor with
  | checking => exact .control _ _
  | returned => exact .idle
  | selecting =>
    match result with
    | none => exact .control _ _
    | some 0 => exact .control _ _
    | some (n + 1) => exact .control _ _
  | accepting =>
    cases result with
    | none => exact .control _ _
    | some fd =>
      simp only
      split_ifs with hfree
      · exact .accept hfree.2
      · exact .idle

theorem handleStep_housekeeping (s : State) (k : ℕ) (result : Option ℕ) :
    Housekeeping s (handleStep s k result) := by
  rw [handleStep]
  cases hk : s.connections[k]? with
  | none => exact .idle
  | some c =>
    obtain ⟨clientFd, handler⟩ := c
    match handler, result with
    | .accepted, none => exact .put hk (fun fd => Iff.rfl) fun _ => List.nodup_singleton clientFd
    | .accepted, some fd =>
      simp only
      split_ifs with hfree
      · refine .openFd hk hfree (fun x => ?_) fun hnew => ?_
        · simp [Connection.unclosed, or_comm]
        · exact fun h => hnew (h ▸ List.mem_singleton_self clientFd)
      · exact .idle
    | .opened targetFd, none =>
      exact .put hk (fun fd => Iff.rfl) fun h => by simpa [Connection.Distinct] using h
    | .opened targetFd, some _ => exact .put hk (fun fd => Iff.rfl) id
    | .resolved targetFd, none =>
      exact .put hk (fun fd => Iff.rfl) fun h => by simpa [Connection.Distinct] using h
    | .resolved targetFd, some _ =>
      exact .put hk (fun fd => by simp [Connection.unclosed, Control.closes]) id
    | .failing [], _ => exact .idle
    | .failing (fd :: fds), _ =>
      refine .closeFd hk List.mem_cons_self (fun h x => ?_) fun h => (List.nodup_cons.mp h).2
      have hfresh := (List.nodup_cons.mp h).1
      simp only [Connection.unclosed, List.mem_cons]
      constructor
      · intro hx
        exact ⟨fun h => hfresh (h ▸ hx), Or.inr hx⟩
      · intro ⟨hne, hx⟩
        exact hx.resolve_left hne
    | .forwarding _ _ _ _, _ => exact .idle

/-! ### The closes of the forwarders -/

/-- A close of a forwarder hits a descriptor that is open for its own connection. -/
def ClosedOwn : Event → Prop
  | .closed (.forwarder k _) _ holder => holder = some (.connection k)
  | _ => True

/-- Before a forwarder closes, its connection has made at most one of its closes. -/
def Unspent (s : State) : Action → Prop
  | .forward k isClientToServer _ => ∀ c : Connection, s.connections[k]? = some c →
      c.closing isClientToServer ≠ none → c.closes < 2
  | _ => True

section Forward
variable {s : State} {k : ℕ}

/-- A connection from the side of one of its forwarders. -/
structure Side (c : Connection) (src dst : ℕ) (own other : Control) : Prop where
  mem_unclosed : ∀ x, x ∈ c.unclosed ↔ (x = src ∧ own.closes = 0 ∧ other.closes ≤ 1) ∨
    (x = dst ∧ other.closes = 0 ∧ own.closes ≤ 1)
  closes : c.closes = own.closes + other.closes

theorem side_clientToServer (clientFd targetFd : ℕ) (connectionActive : Bool) (a b : Control) :
    Side ⟨clientFd, .forwarding targetFd connectionActive a b⟩ clientFd targetFd a b := by
  refine ⟨fun x => ?_, rfl⟩
  rw [Connection.unclosed, List.mem_append]
  apply or_congr
  · split_ifs with h
    · simp [h]
    · simp [h]
  · split_ifs with h
    · simp [h]
    · simp [h]

theorem side_serverToClient (clientFd targetFd : ℕ) (connectionActive : Bool) (a b : Control) :
    Side ⟨clientFd, .forwarding targetFd connectionActive a b⟩ targetFd clientFd b a := by
  have h := side_clientToServer clientFd targetFd connectionActive a b
  refine ⟨fun x => ?_, h.closes.trans (Nat.add_comm _ _)⟩
  rw [h.mem_unclosed, or_comm]

theorem next_closes {control : Control} (h : ∀ src dst, control.closing src dst = none)
    (running connectionActive : Bool) (result : Option ℕ) :
    (control.next running connectionActive result).1.closes = control.closes := by
  cases control with
  | checking => cases running <;> cases connectionActive <;> rfl
  | receiving =>
    match result with
    | none => rfl
    | some 0 => rfl
    | some (n + 1) => rfl
  | sending left =>
    match left, result with
    | 0, _ => rfl
    | left + 1, none => rfl
    | left + 1, some 0 => rfl
    | left + 1, some (n + 1) => rfl
  | closingSrc => cases h 0 0
  | closingDst => cases h 0 0
  | ended => rfl

theorem closing_cases (control : Control) :
    (∀ src dst, control.closing src dst = none) ∨ control = .closingSrc ∨
      control = .closingDst := by
  cases control with
  | closingSrc => exact Or.inr (Or.inl rfl)
  | closingDst => exact Or.inr (Or.inr rfl)
  | _ => exact Or.inl fun _ _ => rfl

/-- A close that the connection has to spare is its own, and leaves the table sound. -/
theorem close_spec (hs : Sound s) {c c' : Connection} (hk : s.connections[k]? = some c) {fd : ℕ}
    (hheld : fd ∈ c.unclosed ↔ c.closes < 2)
    (hless : c.closes < 2 → ∀ x, x ∈ c'.unclosed ↔ x ≠ fd ∧ x ∈ c.unclosed)
    (hdistinct : c'.Distinct) (isClientToServer : Bool) :
    ((∀ e ∈ ((s.put k c').closeFd (.forwarder k isClientToServer) fd).2, ClosedOwn e) ↔
        c.closes < 2) ∧
      (c.closes < 2 → Sound ((s.put k c').closeFd (.forwarder k isClientToServer) fd).1) := by
  constructor
  · rw [← hheld, ← hs.holds k c hk fd]
    exact List.forall_mem_singleton
  · intro h
    exact hs.closeFd hk (hheld.mpr h) (hless h) hdistinct _

theorem closeNext_spec (hs : Sound s) {c c' : Connection} (hk : s.connections[k]? = some c)
    {src dst : ℕ} {own other : Control} {running connectionActive : Bool} {result : Option ℕ}
    (hside : Side c src dst own other)
    (hside' : Side c' src dst (own.next running connectionActive result).1 other)
    (hne : src ≠ dst) (hdistinct : c'.Distinct) (isClientToServer : Bool) :
    ((∀ e ∈ ((s.put k c').closeNext (.forwarder k isClientToServer) (own.closing src dst)).2,
        ClosedOwn e) ↔ (own.closing src dst ≠ none → c.closes < 2)) ∧
      ((own.closing src dst ≠ none → c.closes < 2) →
        Sound ((s.put k c').closeNext (.forwarder k isClientToServer)
          (own.closing src dst)).1) := by
  have hclosingSrc : Control.closingSrc.closes = 0 := rfl
  have hclosingDst : Control.closingDst.closes = 1 := rfl
  have hended : Control.ended.closes = 2 := rfl
  rcases closing_cases own with hown | rfl | rfl
  · rw [hown]
    refine ⟨iff_of_true (fun e he => absurd he List.not_mem_nil) (absurd rfl), fun _ => ?_⟩
    refine hs.put hk (fun x => ?_) hdistinct
    rw [hside'.mem_unclosed, hside.mem_unclosed, next_closes hown]
  · have hspare : (Control.closingSrc.closing src dst ≠ none → c.closes < 2) ↔ c.closes < 2 :=
      imp_iff_right (Option.some_ne_none src)
    have hheld : src ∈ c.unclosed ↔ c.closes < 2 := by
      rw [hside.mem_unclosed, hside.closes]
      omega
    rw [hspare]
    refine close_spec hs hk hheld (fun _ x => ?_) hdistinct isClientToServer
    rw [hside'.mem_unclosed, hside.mem_unclosed]
    simp only [Control.next]
    omega
  · have hspare : (Control.closingDst.closing src dst ≠ none → c.closes < 2) ↔ c.closes < 2 :=
      imp_iff_right (Option.some_ne_none dst)
    have hheld : dst ∈ c.unclosed ↔ c.closes < 2 := by
      rw [hside.mem_unclosed, hside.closes]
      omega
    rw [hspare]
    refine close_spec hs hk hheld (fun _ x => ?_) hdistinct isClientToServer
    rw [hside'.mem_unclosed, hside.mem_unclosed]
    simp only [Control.next]
    omega

theorem forwardStep_spec (hs : Sound s) (isClientToServer : Bool) (result : Option ℕ) :
    ((∀ e ∈ (forwardStep s k isClientToServer result).2, ClosedOwn e) ↔
        Unspent s (.forward k isClientToServer result)) ∧
      (Unspent s (.forward k isClientToServer result) →
        Sound (forwardStep s k isClientToServer result).1) := by
  rw [forwardStep, Unspent]
  cases hk : s.connections[k]? with
  | none => exact ⟨by simp, fun _ => hs⟩
  | some c =>
    obtain ⟨clientFd, handler⟩ := c
    simp only [Option.some.injEq, forall_eq']
    have hdistinct := hs.distinct k _ hk
    cases handler with
    | forwarding targetFd connectionActive a b =>
      cases isClientToServer with
      | true =>
        exact closeNext_spec hs hk (side_clientToServer _ _ _ _ _)
          (side_clientToServer _ _ _ _ _) hdistinct hdistinct true
      | false =>
        exact closeNext_spec hs hk (side_serverToClient _ _ _ _ _)
          (side_serverToClient _ _ _ _ _) (Ne.symm hdistinct) hdistinct false
    | _ => exact ⟨by simp [Connection.closing], fun _ => hs⟩

end Forward

theorem Housekeeping.closedOwn {s : State} {r : State × List Event} (h : Housekeeping s r) :
    ∀ e ∈ r.2, ClosedOwn e := by
  have hone : ∀ {e : Event}, ClosedOwn e → ∀ e' ∈ [e], ClosedOwn e' := List.forall_mem_singleton.mpr
  cases h with
  | control running acceptor => exact fun e he => absurd he List.not_mem_nil
  | stop _ => exact hone trivial
  | accept _ => exact hone trivial
  | put _ _ _ => exact fun e he => absurd he List.not_mem_nil
  | openFd _ _ _ _ => exact hone trivial
  | closeFd _ _ _ _ => exact hone trivial

theorem Housekeeping.spec {s : State} {r : State × List Event} (h : Housekeeping s r) (hs : Sound s) :
    ((∀ e ∈ r.2, ClosedOwn e) ↔ True) ∧ (True → Sound r.1) :=
  ⟨iff_of_true h.closedOwn trivial, fun _ => h.sound hs⟩

/-- A step keeps the table sound and closes only its own exactly when the connection has a
close to spare. -/
theorem step_spec {s : State} (hs : Sound s) (action : Action) :
    ((∀ e ∈ (step s action).2, ClosedOwn e) ↔ Unspent s action) ∧
      (Unspent s action → Sound (step s action).1) := by
  cases action with
  | stop => exact (stopStep_housekeeping s).spec hs
  | serve result => exact (serveStep_housekeeping s result).spec hs
  | handle k result => exact (handleStep_housekeeping s k result).spec hs
  | forward k isClientToServer result => exact forwardStep_spec hs isClientToServer result

theorem closedOwn_iff_of_sound {s : State} (hs : Sound s) (actions : List Action) :
    (∀ m ∈ trace step s actions, ∀ e ∈ m.output, ClosedOwn e) ↔
      ∀ m ∈ trace step s actions, Unspent m.before m.input := by
  induction actions generalizing s with
  | nil =>
    apply iff_of_true
    · exact fun m hm => absurd hm List.not_mem_nil
    · exact fun m hm => absurd hm List.not_mem_nil
  | cons action actions ih =>
    obtain ⟨hclosed, hsound⟩ := step_spec hs action
    rw [trace, List.forall_mem_cons, List.forall_mem_cons, hclosed]
    apply and_congr_right
    intro hunspent
    exact ih (hsound hunspent)

/-! ### One close for every opening -/

/-- Between two closes of a number it is opened again. -/
def ClosedOnce (es : List Event) : Prop :=
  ∀ pre mid post fd closer closer' holder holder',
    es = pre ++ .closed closer fd holder :: (mid ++ .closed closer' fd holder' :: post) →
      ∃ owner, .opened fd owner ∈ mid

/-- The first two closes of its forwarders leave a connection nothing that is open. -/
def Released (s : State) : Prop :=
  ∀ (k : ℕ) (c : Connection), s.connections[k]? = some c → 2 ≤ c.closes →
    ∀ fd, s.table fd ≠ some (.connection k)

inductive Emits (s s' : State) : List Event → Prop
  | silent : s'.table = s.table → Emits s s' []
  | opened {fd owner} : s'.table = Function.update s.table fd (some owner) →
      Emits s s' [.opened fd owner]
  | closed {closer fd} : s'.table = Function.update s.table fd none →
      Emits s s' [.closed closer fd (s.table fd)]

def ClosedHeld : Event → Prop
  | .closed _ _ holder => holder ≠ none
  | .opened _ _ => True

theorem Sound.released {s : State} (hs : Sound s) : Released s := by
  intro k c hk hcloses fd hfd
  have hmem := (hs.holds k c hk fd).mp hfd
  obtain ⟨clientFd, handler⟩ := c
  cases handler with
  | forwarding targetFd connectionActive a b =>
    have hside := side_clientToServer clientFd targetFd connectionActive a b
    rw [hside.mem_unclosed] at hmem
    rw [hside.closes] at hcloses
    omega
  | _ => exact absurd hcloses (by simp [Connection.closes])

section Emits
variable {s : State}

theorem Housekeeping.emits {r : State × List Event} (h : Housekeeping s r) : Emits s r.1 r.2 := by
  cases h with
  | control running acceptor => exact .silent rfl
  | stop _ => exact .closed rfl
  | accept _ => exact .opened rfl
  | put _ _ _ => exact .silent rfl
  | openFd _ _ _ _ => exact .opened rfl
  | closeFd _ _ _ _ => exact .closed rfl

theorem emits_forwardStep (s : State) (k : ℕ) (isClientToServer : Bool) (result : Option ℕ) :
    Emits s (forwardStep s k isClientToServer result).1
      (forwardStep s k isClientToServer result).2 := by
  rw [forwardStep]
  cases s.connections[k]? with
  | none => exact .silent rfl
  | some c =>
    obtain ⟨clientFd, handler⟩ := c
    cases handler with
    | forwarding targetFd connectionActive a b =>
      simp only
      cases Control.closing (if isClientToServer then clientFd else targetFd)
          (if isClientToServer then targetFd else clientFd)
          (if isClientToServer then a else b) with
      | none => exact .silent rfl
      | some fd => exact .closed rfl
    | _ => exact .silent rfl

theorem step_emits (s : State) (action : Action) : Emits s (step s action).1 (step s action).2 := by
  cases action with
  | stop => exact (stopStep_housekeeping s).emits
  | serve result => exact (serveStep_housekeeping s result).emits
  | handle k result => exact (handleStep_housekeeping s k result).emits
  | forward k isClientToServer result => exact emits_forwardStep s k isClientToServer result

theorem Housekeeping.closedHeld {r : State × List Event} (h : Housekeeping s r) (hs : Sound s) :
    ∀ e ∈ r.2, ClosedHeld e := by
  have hone : ∀ {e : Event}, ClosedHeld e → ∀ e' ∈ [e], ClosedHeld e' :=
    List.forall_mem_singleton.mpr
  have hheld : ∀ {fd : ℕ} {o : Owner}, s.table fd = some o → s.table fd ≠ none :=
    fun h => h ▸ Option.some_ne_none _
  cases h with
  | control running acceptor => exact fun e he => absurd he List.not_mem_nil
  | stop hserver => exact hone (hheld (hs.listener _ hserver))
  | accept _ => exact hone trivial
  | put _ _ _ => exact fun e he => absurd he List.not_mem_nil
  | openFd _ _ _ _ => exact hone trivial
  | closeFd hk hmem _ _ => exact hone (hheld ((hs.holds _ _ hk _).mpr hmem))

theorem closedHeld_forwardStep (k : ℕ) (isClientToServer : Bool) (result : Option ℕ)
    (h : ∀ e ∈ (forwardStep s k isClientToServer result).2, ClosedOwn e) :
    ∀ e ∈ (forwardStep s k isClientToServer result).2, ClosedHeld e := by
  have hnil : ∀ e ∈ ([] : List Event), ClosedHeld e := fun e he => absurd he List.not_mem_nil
  rw [forwardStep] at h ⊢
  cases hk : s.connections[k]? with
  | none => exact hnil
  | some c =>
    obtain ⟨clientFd, handler⟩ := c
    rw [hk] at h
    cases handler with
    | forwarding targetFd connectionActive a b =>
      simp only at h ⊢
      cases hclosing : Control.closing (if isClientToServer then clientFd else targetFd)
          (if isClientToServer then targetFd else clientFd)
          (if isClientToServer then a else b) with
      | none => exact hnil
      | some fd =>
        rw [hclosing] at h
        have hown : s.table fd = some (.connection k) :=
          h (.closed (.forwarder k isClientToServer) fd (s.table fd)) List.mem_cons_self
        have hheld : s.table fd ≠ none := hown ▸ Option.some_ne_none _
        exact List.forall_mem_singleton.mpr hheld
    | _ => exact hnil

theorem closedHeld_step (hs : Sound s) {action : Action} (h : Unspent s action) :
    ∀ e ∈ (step s action).2, ClosedHeld e := by
  have hown := (step_spec hs action).1.mpr h
  cases action with
  | stop => exact (stopStep_housekeeping s).closedHeld hs
  | serve result => exact (serveStep_housekeeping s result).closedHeld hs
  | handle k result => exact (handleStep_housekeeping s k result).closedHeld hs
  | forward k isClientToServer result => exact closedHeld_forwardStep k _ result hown

end Emits

def events (moves : List (Move State Action (List Event))) : List Event :=
  moves.flatMap Move.output

/-- A number that is free in `s` is opened before it is closed. -/
def OpensFirst (s : State) (es : List Event) : Prop :=
  ∀ mid post fd closer holder, es = mid ++ .closed closer fd holder :: post →
    s.table fd = none → ∃ owner, .opened fd owner ∈ mid

section Runs
variable {s s' : State} {es out : List Event}

theorem opensFirst_append (h : Emits s s' out) (hheld : ∀ e ∈ out, ClosedHeld e)
    (hlater : OpensFirst s' es) : OpensFirst s (out ++ es) := by
  intro mid post fd closer holder hes hfree
  cases h with
  | silent htable => exact hlater mid post fd closer holder hes (htable ▸ hfree)
  | @opened fd' owner htable =>
    cases mid with
    | nil => cases (List.cons.inj hes).1
    | cons e mid =>
      obtain ⟨rfl, hrest⟩ := List.cons.inj hes
      by_cases hfd : fd = fd'
      · rw [hfd]
        exact ⟨owner, List.mem_cons_self⟩
      · have hfree' : s'.table fd = none := by
          rw [htable, Function.update_of_ne hfd, hfree]
        obtain ⟨owner, howner⟩ := hlater mid post fd closer holder hrest hfree'
        exact ⟨owner, List.mem_cons_of_mem _ howner⟩
  | @closed closer' fd' htable =>
    cases mid with
    | nil =>
      have hclosed := (List.cons.inj hes).1
      rw [← (Event.closed.inj hclosed).2.1] at hfree
      have hne : s.table fd' ≠ none := hheld _ List.mem_cons_self
      exact absurd hfree hne
    | cons e mid =>
      have hfree' : s'.table fd = none := by
        rw [htable]
        by_cases hfd : fd = fd'
        · rw [hfd, Function.update_self]
        · rw [Function.update_of_ne hfd, hfree]
      obtain ⟨owner, howner⟩ :=
        hlater mid post fd closer holder (List.cons.inj hes).2 hfree'
      exact ⟨owner, List.mem_cons_of_mem _ howner⟩

theorem closedOnce_append (h : Emits s s' out) (hopens : OpensFirst s' es)
    (hlater : ClosedOnce es) : ClosedOnce (out ++ es) := by
  intro pre mid post fd closer closer' holder holder' hes
  cases h with
  | silent _ => exact hlater pre mid post fd closer closer' holder holder' hes
  | opened _ =>
    cases pre with
    | nil => cases (List.cons.inj hes).1
    | cons e pre =>
      exact hlater pre mid post fd closer closer' holder holder' (List.cons.inj hes).2
  | closed htable =>
    cases pre with
    | nil =>
      obtain ⟨hclosed, hrest⟩ := List.cons.inj hes
      rw [(Event.closed.inj hclosed).2.1] at htable
      apply hopens mid post fd closer' holder' hrest
      rw [htable, Function.update_self]
    | cons e pre =>
      exact hlater pre mid post fd closer closer' holder holder' (List.cons.inj hes).2

theorem closedOnce_of_unspent (hs : Sound s) {actions : List Action}
    (h : ∀ m ∈ trace step s actions, Unspent m.before m.input) :
    OpensFirst s (events (trace step s actions)) ∧ ClosedOnce (events (trace step s actions)) := by
  induction actions generalizing s with
  | nil =>
    refine ⟨?_, ?_⟩
    · intro mid post fd closer holder hes
      simp [events, trace] at hes
    · intro pre mid post fd closer closer' holder holder' hes
      simp [events, trace] at hes
  | cons action actions ih =>
    rw [trace, List.forall_mem_cons] at h
    obtain ⟨hopens, honce⟩ := ih ((step_spec hs action).2 h.1) h.2
    have hemits := step_emits s action
    rw [trace, events, List.flatMap_cons]
    exact ⟨opensFirst_append hemits (closedHeld_step hs h.1) hopens,
      closedOnce_append hemits hopens honce⟩

theorem released_of_unspent (hs : Sound s) {actions : List Action}
    (h : ∀ m ∈ trace step s actions, Unspent m.before m.input) :
    ∀ m ∈ trace step s actions, Released m.after := by
  induction actions generalizing s with
  | nil => exact fun m hm => absurd hm List.not_mem_nil
  | cons action actions ih =>
    rw [trace, List.forall_mem_cons] at h ⊢
    have hsound := (step_spec hs action).2 h.1
    exact ⟨hsound.released, ih hsound h.2⟩

end Runs

/-- The forwarders close what was opened for their own connection, all of it, and each once
for every opening. -/
structure ClosesOwnOnce (moves : List (Move State Action (List Event))) : Prop where
  own : ∀ m ∈ moves, ∀ e ∈ m.output, ClosedOwn e
  once : ClosedOnce (events moves)
  all : ∀ m ∈ moves, Released m.after

/-- In a run of the proxy the forwarders close only what their own connection has opened, and
that once, exactly when no connection's forwarders make a third close. -/
theorem forwarders_closesOwnOnce_iff (serverFd : ℕ) (actions : List Action) :
    ClosesOwnOnce (trace step (listening serverFd) actions) ↔
      ∀ m ∈ trace step (listening serverFd) actions, Unspent m.before m.input := by
  have hs := sound_listening serverFd
  constructor
  · intro h
    exact (closedOwn_iff_of_sound hs actions).mp h.own
  · intro h
    exact ⟨(closedOwn_iff_of_sound hs actions).mpr h, (closedOnce_of_unspent hs h).2,
      released_of_unspent hs h⟩

/-- Accepting a connection with its two sockets, up to the start of the forwarders. -/
def connect (k clientFd targetFd : ℕ) : List Action :=
  [.serve none, .serve (some 1), .serve (some clientFd), .handle k (some targetFd),
    .handle k (some 0), .handle k (some 1)]

/-- The forwarder for the client ends, its numbers go to a new connection, and the other
forwarder closes them there. -/
theorem forwarders_close_recycled :
    ¬ ClosesOwnOnce (trace step (listening 3) (connect 0 4 5 ++
        [.forward 0 true none, .forward 0 true none, .forward 0 true none, .forward 0 true none] ++
        connect 1 4 5 ++ [.forward 0 false none, .forward 0 false none])) := by
  have hrecycled : ∃ m ∈ trace step (listening 3) (connect 0 4 5 ++
        [.forward 0 true none, .forward 0 true none, .forward 0 true none, .forward 0 true none] ++
        connect 1 4 5 ++ [.forward 0 false none, .forward 0 false none]),
      Event.closed (.forwarder 0 false) 5 (some (.connection 1)) ∈ m.output := by
    decide +kernel
  intro h
  obtain ⟨m, hm, he⟩ := hrecycled
  have howner : some (Owner.connection 1) = some (Owner.connection 0) := h.own m hm _ he
  exact absurd howner (by decide)

end Fixure.Sockets
