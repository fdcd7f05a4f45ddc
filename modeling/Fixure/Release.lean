import Fixure.Forwarders

/-!
# What the proxy holds on to

A forwarder may close a descriptor that has gone to another connection. But no connection keeps
one for itself: in every run, what is open for a connection is among what it has opened and not
closed. And once a connection is over, a forwarder of it that gets its turns comes to its end and
leaves nothing of the connection open.
-/

namespace Fixure.Sockets
open Transducer

/-! ### Nothing is kept -/

/-- What is open for a connection, the connection still has to close. -/
def Kept (s : State) : Prop :=
  ∀ fd (k : ℕ), s.table fd = some (.connection k) →
    ∃ c, s.connections[k]? = some c ∧ fd ∈ c.unclosed

section Kept
variable {s : State} {k : ℕ} {c c' : Connection}

theorem kept_listening (serverFd : ℕ) : Kept (listening serverFd) := by
  intro fd k h
  simp only [listening] at h
  by_cases hfd : fd = serverFd
  · rw [hfd, Function.update_self] at h
    cases h
  · rw [Function.update_of_ne hfd] at h
    cases h

/-- One connection changes its record and what the table gives it, the others lose at most. -/
theorem Kept.replace (h : Kept s) (hk : s.connections[k]? = some c) (table : ℕ → Option Owner)
    (hother : ∀ fd j, j ≠ k → table fd = some (.connection j) →
      s.table fd = some (.connection j))
    (hown : ∀ fd, table fd = some (.connection k) → fd ∈ c'.unclosed) :
    Kept { s with table := table, connections := s.connections.set k c' } := by
  have hlt : k < s.connections.length := (List.getElem?_eq_some_iff.mp hk).1
  intro fd j hfd
  by_cases hj : j = k
  · subst hj
    exact ⟨c', List.getElem?_set_self hlt, hown fd hfd⟩
  · obtain ⟨d, hd, hmem⟩ := h fd j (hother fd j hj hfd)
    exact ⟨d, (List.getElem?_set_ne (Ne.symm hj)).trans hd, hmem⟩

theorem Kept.mem (h : Kept s) (hk : s.connections[k]? = some c) {fd : ℕ}
    (hfd : s.table fd = some (.connection k)) : fd ∈ c.unclosed := by
  obtain ⟨d, hd, hmem⟩ := h fd k hfd
  obtain rfl := Option.some.inj (hk.symm.trans hd)
  exact hmem

theorem Kept.put (h : Kept s) (hk : s.connections[k]? = some c)
    (hmore : ∀ fd ∈ c.unclosed, fd ∈ c'.unclosed) : Kept (s.put k c') :=
  h.replace hk s.table (fun _ _ _ hfd => hfd) fun fd hfd => hmore fd (h.mem hk hfd)

theorem Kept.openFd (h : Kept s) (hk : s.connections[k]? = some c) {fd : ℕ}
    (hmore : ∀ x, x = fd ∨ x ∈ c.unclosed → x ∈ c'.unclosed) :
    Kept ((s.put k c').openFd fd (.connection k)).1 := by
  refine h.replace hk (Function.update s.table fd (some (.connection k))) ?_ ?_
  · intro x j hj hx
    by_cases hxfd : x = fd
    · rw [hxfd, Function.update_self] at hx
      exact absurd (Owner.connection.inj (Option.some.inj hx)).symm hj
    · rwa [Function.update_of_ne hxfd] at hx
  · intro x hx
    by_cases hxfd : x = fd
    · exact hmore x (.inl hxfd)
    · rw [Function.update_of_ne hxfd] at hx
      exact hmore x (.inr (h.mem hk hx))

theorem Kept.closeFd (h : Kept s) (hk : s.connections[k]? = some c) {fd : ℕ}
    (hless : ∀ x ∈ c.unclosed, x ≠ fd → x ∈ c'.unclosed) (closer : Closer) :
    Kept ((s.put k c').closeFd closer fd).1 := by
  have htable : ∀ x o, Function.update s.table fd none x = some o → x ≠ fd ∧ s.table x = some o := by
    intro x o hx
    by_cases hxfd : x = fd
    · rw [hxfd, Function.update_self] at hx
      cases hx
    · rw [Function.update_of_ne hxfd] at hx
      exact ⟨hxfd, hx⟩
  refine h.replace hk (Function.update s.table fd none) ?_ ?_
  · exact fun x j _ hx => (htable x _ hx).2
  · intro x hx
    obtain ⟨hne, hx⟩ := htable x _ hx
    exact hless x (h.mem hk hx) hne

end Kept

/-! ### The steps -/

section Step
variable {s : State}

theorem kept_stopStep (h : Kept s) : Kept (stopStep s).1 := by
  rw [stopStep]
  cases s.serverFd with
  | none => exact h
  | some fd =>
    intro x k hx
    simp only [State.closeFd] at hx
    by_cases hxfd : x = fd
    · rw [hxfd, Function.update_self] at hx
      cases hx
    · rw [Function.update_of_ne hxfd] at hx
      exact h x k hx

theorem kept_accept (h : Kept s) (fd : ℕ) :
    Kept (State.openFd { s with
      acceptor := .checking
      connections := s.connections ++ [⟨fd, .accepted⟩] } fd
      (.connection s.connections.length)).1 := by
  intro x k hx
  simp only [State.openFd] at hx ⊢
  by_cases hxfd : x = fd
  · rw [hxfd, Function.update_self] at hx
    obtain rfl := Owner.connection.inj (Option.some.inj hx)
    exact ⟨⟨fd, .accepted⟩, List.getElem?_concat_length, by simp [Connection.unclosed, hxfd]⟩
  · rw [Function.update_of_ne hxfd] at hx
    obtain ⟨c, hk, hmem⟩ := h x k hx
    exact ⟨c, by rw [List.getElem?_append_left (List.getElem?_eq_some_iff.mp hk).1, hk], hmem⟩

theorem kept_serveStep (h : Kept s) (result : Option ℕ) : Kept (serveStep s result).1 := by
  unfold serveStep
  cases s.acceptor with
  | checking => exact h
  | returned => exact h
  | selecting =>
    rcases result with _ | _ | n
    · exact h
    · exact h
    · exact h
  | accepting =>
    cases result with
    | none => exact h
    | some fd =>
      simp only
      split_ifs with hfree
      · exact kept_accept h fd
      · exact h

theorem kept_handleStep (h : Kept s) (k : ℕ) (result : Option ℕ) :
    Kept (handleStep s k result).1 := by
  rw [handleStep]
  cases hk : s.connections[k]? with
  | none => exact h
  | some c =>
    obtain ⟨clientFd, handler⟩ := c
    cases handler with
    | accepted =>
      cases result with
      | none => exact h.put hk fun _ hfd => hfd
      | some fd =>
        simp only
        split_ifs with hfree
        · refine h.openFd hk fun x hx => ?_
          simpa [Connection.unclosed, or_comm] using hx
        · exact h
    | opened targetFd =>
      cases result with
      | none => exact h.put hk fun _ hfd => hfd
      | some _ => exact h.put hk fun _ hfd => hfd
    | resolved targetFd =>
      cases result with
      | none => exact h.put hk fun _ hfd => hfd
      | some _ =>
        exact h.put hk fun fd hfd => by simpa [Connection.unclosed, Control.closes] using hfd
    | failing fds =>
      cases fds with
      | nil => exact h
      | cons fd fds =>
        refine h.closeFd hk (fun x hx hne => ?_) _
        exact (List.mem_cons.mp hx).resolve_left hne
    | forwarding targetFd connectionActive a b => exact h

/-- A close of a forwarder takes from its connection what it still had to close there. -/
theorem kept_closeNext (h : Kept s) {k : ℕ} {c c' : Connection}
    (hk : s.connections[k]? = some c) {src dst : ℕ} {own other : Control}
    {running connectionActive : Bool} {result : Option ℕ} (hside : Side c src dst own other)
    (hside' : Side c' src dst (own.next running connectionActive result).1 other)
    (closer : Closer) :
    Kept ((s.put k c').closeNext closer (own.closing src dst)).1 := by
  rcases closing_cases own with hown | rfl | rfl
  · rw [hown]
    refine h.put hk fun x hx => ?_
    rwa [hside'.mem_unclosed, next_closes hown, ← hside.mem_unclosed]
  · refine h.closeFd hk (fun x hx hne => ?_) closer
    rw [hside.mem_unclosed] at hx
    rw [hside'.mem_unclosed]
    obtain ⟨rfl, _⟩ | ⟨rfl, hother, _⟩ := hx
    · exact absurd rfl hne
    · exact .inr ⟨rfl, hother, Nat.le_refl 1⟩
  · refine h.closeFd hk (fun x hx hne => ?_) closer
    rw [hside.mem_unclosed] at hx
    obtain ⟨_, hown, _⟩ | ⟨rfl, _⟩ := hx
    · cases hown
    · exact absurd rfl hne

theorem kept_forwardStep (h : Kept s) (k : ℕ) (isClientToServer : Bool) (result : Option ℕ) :
    Kept (forwardStep s k isClientToServer result).1 := by
  rw [forwardStep]
  cases hk : s.connections[k]? with
  | none => exact h
  | some c =>
    obtain ⟨clientFd, handler⟩ := c
    cases handler with
    | forwarding targetFd connectionActive a b =>
      cases isClientToServer with
      | true =>
        exact kept_closeNext h hk (side_clientToServer _ _ _ _ _) (side_clientToServer _ _ _ _ _) _
      | false =>
        exact kept_closeNext h hk (side_serverToClient _ _ _ _ _) (side_serverToClient _ _ _ _ _) _
    | _ => exact h

theorem kept_step (h : Kept s) (action : Action) : Kept (step s action).1 := by
  cases action with
  | stop => exact kept_stopStep h
  | serve result => exact kept_serveStep h result
  | handle k result => exact kept_handleStep h k result
  | forward k isClientToServer result => exact kept_forwardStep h k isClientToServer result

theorem kept_final (h : Kept s) (actions : List Action) : Kept (final step s actions) := by
  refine (trace_invariant Kept h fun m hm hbefore => ?_).2
  have hafter := kept_step hbefore m.input
  rwa [mem_trace hm] at hafter

end Step

/-! ### Coming to an end -/

/-- How many turns a forwarder needs to end when its connection is over; the buffer of its `recv`
has 4096 bytes. -/
def Control.turnsLeft : Control → ℕ
  | .checking => 3
  | .receiving => 4101
  | .sending left => left + 4
  | .closingSrc => 2
  | .closingDst => 1
  | .ended => 0

theorem ended_of_turnsLeft {control : Control} (h : control.turnsLeft = 0) : control = .ended := by
  cases control with
  | ended => rfl
  | sending left => exact absurd h (Nat.succ_ne_zero _)
  | _ => cases h

theorem next_turnsLeft {running connectionActive : Bool} {result : Option ℕ} (control : Control)
    (hover : (running && connectionActive) = false) (hresult : ∀ n, result = some n → n ≤ 4096) :
    (control.next running connectionActive result).1.turnsLeft ≤ control.turnsLeft - 1 ∧
      (running && (control.next running connectionActive result).2) = false := by
  cases control with
  | checking => simp [Control.next, hover, Control.turnsLeft]
  | receiving =>
    rcases result with _ | _ | n
    · simp [Control.next, Control.turnsLeft]
    · simp [Control.next, Control.turnsLeft]
    · have hn := hresult (n + 1) rfl
      refine ⟨?_, hover⟩
      simp only [Control.next, Control.turnsLeft]
      omega
  | sending left =>
    cases left with
    | zero => exact ⟨Nat.le_refl 3, hover⟩
    | succ left =>
      rcases result with _ | _ | n
      · simp [Control.next, Control.turnsLeft]
      · simp [Control.next, Control.turnsLeft]
      · refine ⟨?_, hover⟩
        simp only [Control.next, Control.turnsLeft]
        omega
  | _ => exact ⟨Nat.le_refl _, hover⟩

/-- The forwarders of connection `k` share a flag that is down, or the proxy has stopped. -/
def Over (s : State) (k clientFd targetFd : ℕ) (a b : Control) : Prop :=
  ∃ connectionActive,
    s.connections[k]? = some ⟨clientFd, .forwarding targetFd connectionActive a b⟩ ∧
      (s.running && connectionActive) = false

section Over
variable {s : State} {k clientFd targetFd : ℕ} {a b : Control}

theorem Over.of_same (h : Over s k clientFd targetFd a b) {s' : State}
    (hconnection : s'.connections[k]? = s.connections[k]?)
    (hrunning : s'.running = true → s.running = true) : Over s' k clientFd targetFd a b := by
  obtain ⟨connectionActive, hk, hoff⟩ := h
  refine ⟨connectionActive, hconnection.trans hk, ?_⟩
  cases hon : s'.running with
  | false => rfl
  | true => rwa [hrunning hon] at hoff

theorem closeNext_same (s : State) (closer : Closer) (fd : Option ℕ) :
    (s.closeNext closer fd).1.connections = s.connections ∧
      (s.closeNext closer fd).1.running = s.running := by
  cases fd with
  | none => exact ⟨rfl, rfl⟩
  | some fd => exact ⟨rfl, rfl⟩

theorem Over.serveStep (h : Over s k clientFd targetFd a b) (result : Option ℕ) :
    Over (serveStep s result).1 k clientFd targetFd a b := by
  unfold Sockets.serveStep
  cases s.acceptor with
  | checking => exact h.of_same rfl id
  | returned => exact h
  | selecting =>
    rcases result with _ | _ | n
    · exact h.of_same rfl id
    · exact h.of_same rfl id
    · exact h.of_same rfl id
  | accepting =>
    cases result with
    | none => exact h.of_same rfl id
    | some fd =>
      simp only
      split_ifs
      · obtain ⟨_, hk, _⟩ := id h
        exact h.of_same (List.getElem?_append_left (List.getElem?_eq_some_iff.mp hk).1) id
      · exact h

theorem Over.handleStep (h : Over s k clientFd targetFd a b) (j : ℕ) (result : Option ℕ) :
    Over (handleStep s j result).1 k clientFd targetFd a b := by
  rw [Sockets.handleStep]
  by_cases hj : j = k
  · obtain ⟨connectionActive, hk, _⟩ := id h
    rw [hj, hk]
    exact h
  · have hput (c : Connection) : Over (s.put j c) k clientFd targetFd a b :=
      h.of_same (List.getElem?_set_ne hj) id
    cases s.connections[j]? with
    | none => exact h
    | some c =>
      obtain ⟨fd, handler⟩ := c
      cases handler with
      | accepted =>
        cases result with
        | none => exact hput _
        | some fd =>
          simp only
          split_ifs
          · exact (hput _).of_same rfl id
          · exact h
      | opened targetFd => cases result <;> exact hput _
      | resolved targetFd => cases result <;> exact hput _
      | failing fds =>
        cases fds with
        | nil => exact h
        | cons fd fds => exact (hput _).of_same rfl id
      | forwarding targetFd connectionActive a b => exact h

theorem Over.forwardOther (h : Over s k clientFd targetFd a b) {j : ℕ} (hj : j ≠ k)
    (isClientToServer : Bool) (result : Option ℕ) :
    Over (forwardStep s j isClientToServer result).1 k clientFd targetFd a b := by
  rw [Sockets.forwardStep]
  cases s.connections[j]? with
  | none => exact h
  | some c =>
    obtain ⟨fd, handler⟩ := c
    cases handler with
    | forwarding targetFd' connectionActive' a' b' =>
      simp only
      refine h.of_same ?_ ?_
      · rw [(closeNext_same _ _ _).1]
        exact List.getElem?_set_ne hj
      · rw [(closeNext_same _ _ _).2]
        exact id
    | _ => exact h

theorem Over.forward (h : Over s k clientFd targetFd a b) (isClientToServer : Bool)
    {result : Option ℕ} (hresult : ∀ n, result = some n → n ≤ 4096) :
    ∃ a' b', Over (forwardStep s k isClientToServer result).1 k clientFd targetFd a' b' ∧
      if isClientToServer then a'.turnsLeft ≤ a.turnsLeft - 1 ∧ b' = b
      else a' = a ∧ b'.turnsLeft ≤ b.turnsLeft - 1 := by
  obtain ⟨connectionActive, hk, hoff⟩ := h
  have hlt : k < s.connections.length := (List.getElem?_eq_some_iff.mp hk).1
  rw [Sockets.forwardStep]
  simp only [hk]
  cases isClientToServer with
  | true =>
    obtain ⟨hless, hover⟩ := next_turnsLeft a hoff hresult
    refine ⟨_, b, ⟨(a.next s.running connectionActive result).2, ?_, ?_⟩, hless, rfl⟩
    · rw [(closeNext_same _ _ _).1]
      exact List.getElem?_set_self hlt
    · rw [(closeNext_same _ _ _).2]
      exact hover
  | false =>
    obtain ⟨hless, hover⟩ := next_turnsLeft b hoff hresult
    refine ⟨a, _, ⟨(b.next s.running connectionActive result).2, ?_, ?_⟩, rfl, hless⟩
    · rw [(closeNext_same _ _ _).1]
      exact List.getElem?_set_self hlt
    · rw [(closeNext_same _ _ _).2]
      exact hover

theorem Over.stopStep (h : Over s k clientFd targetFd a b) :
    Over (stopStep s).1 k clientFd targetFd a b := by
  rw [Sockets.stopStep]
  cases s.serverFd with
  | none => exact h.of_same rfl fun hon => by cases hon
  | some fd => exact h.of_same rfl fun hon => by cases hon

end Over

section Turns
variable {s : State} {k clientFd targetFd : ℕ}

def Control.side (isClientToServer : Bool) (a b : Control) : Control :=
  if isClientToServer then a else b

/-- The turns that a forwarder of connection `k` still needs. -/
def turnsLeft (k : ℕ) (isClientToServer : Bool) (s : State) : ℕ :=
  match s.connections[k]? with
  | some ⟨_, .forwarding _ _ clientToServer serverToClient⟩ =>
    (Control.side isClientToServer clientToServer serverToClient).turnsLeft
  | _ => 0

def isTurn (k : ℕ) (isClientToServer : Bool) : Action → Bool
  | .forward j direction _ => j = k && direction = isClientToServer
  | _ => false

/-- No call of a forwarder of connection `k` moves more than the buffer holds. -/
def Fits (k : ℕ) : Action → Prop
  | .forward j _ (some n) => j = k → n ≤ 4096
  | _ => True

theorem Over.turnsLeft {a b : Control} (h : Over s k clientFd targetFd a b)
    (isClientToServer : Bool) :
    turnsLeft k isClientToServer s = (Control.side isClientToServer a b).turnsLeft := by
  obtain ⟨connectionActive, hk, _⟩ := h
  simp only [Sockets.turnsLeft, hk]

theorem over_step {a b : Control} (h : Over s k clientFd targetFd a b) (isClientToServer : Bool)
    {action : Action} (hfits : Fits k action) :
    ∃ a' b', Over (step s action).1 k clientFd targetFd a' b' ∧
      (Control.side isClientToServer a' b').turnsLeft ≤
        (Control.side isClientToServer a b).turnsLeft -
          if isTurn k isClientToServer action then 1 else 0 := by
  cases action with
  | stop => exact ⟨a, b, h.stopStep, Nat.le_refl _⟩
  | serve result => exact ⟨a, b, h.serveStep result, Nat.le_refl _⟩
  | handle j result => exact ⟨a, b, h.handleStep j result, Nat.le_refl _⟩
  | forward j direction result =>
    by_cases hj : j = k
    · subst hj
      have hresult : ∀ n, result = some n → n ≤ 4096 := by
        rintro n rfl
        exact hfits rfl
      obtain ⟨a', b', hover, hless⟩ := h.forward direction hresult
      refine ⟨a', b', hover, ?_⟩
      cases direction with
      | true =>
        obtain ⟨hless, rfl⟩ := hless
        cases isClientToServer with
        | true => simpa [isTurn, Control.side] using hless
        | false => simp [isTurn, Control.side]
      | false =>
        obtain ⟨rfl, hless⟩ := hless
        cases isClientToServer with
        | true => simp [isTurn, Control.side]
        | false => simpa [isTurn, Control.side] using hless
    · refine ⟨a, b, h.forwardOther hj direction result, ?_⟩
      simp [isTurn, hj]

theorem over_final {a b : Control} (h : Over s k clientFd targetFd a b) (isClientToServer : Bool)
    {actions : List Action} (hfits : ∀ action ∈ actions, Fits k action) :
    ∃ a' b', Over (final step s actions) k clientFd targetFd a' b' ∧
      (Control.side isClientToServer a' b').turnsLeft ≤
        (Control.side isClientToServer a b).turnsLeft -
          actions.countP (isTurn k isClientToServer) := by
  have hstep : ∀ s action, Fits k action → (∃ a b, Over s k clientFd targetFd a b) →
      (∃ a b, Over (step s action).1 k clientFd targetFd a b) ∧
        turnsLeft k isClientToServer (step s action).1 ≤ turnsLeft k isClientToServer s -
          if isTurn k isClientToServer action then 1 else 0 := by
    intro s action hfits ⟨a, b, h⟩
    obtain ⟨a', b', hover, hless⟩ := over_step h isClientToServer hfits
    rw [hover.turnsLeft, h.turnsLeft]
    exact ⟨⟨a', b', hover⟩, hless⟩
  obtain ⟨⟨a', b', hover⟩, hless⟩ := final_rank _ _ _ hstep ⟨a, b, h⟩ hfits
  rw [hover.turnsLeft, h.turnsLeft] at hless
  exact ⟨a', b', hover, hless⟩

/-- A forwarder that has ended has left nothing open for its connection. -/
theorem Kept.released (h : Kept s) {connectionActive : Bool} {a b : Control}
    (hk : s.connections[k]? = some ⟨clientFd, .forwarding targetFd connectionActive a b⟩)
    {isClientToServer : Bool} (hended : Control.side isClientToServer a b = .ended) (fd : ℕ) :
    s.table fd ≠ some (.connection k) := by
  intro hfd
  have hmem := h.mem hk hfd
  cases isClientToServer with
  | true =>
    obtain rfl : a = .ended := hended
    rw [(side_clientToServer clientFd targetFd connectionActive .ended b).mem_unclosed] at hmem
    simp [Control.closes] at hmem
  | false =>
    obtain rfl : b = .ended := hended
    rw [(side_serverToClient clientFd targetFd connectionActive a .ended).mem_unclosed] at hmem
    simp [Control.closes] at hmem

end Turns

/-- In every run of the proxy, what is open for a connection is among what the connection still
has to close, whoever else has closed descriptors of it. -/
theorem sockets_kept (serverFd : ℕ) (actions : List Action) :
    Kept (final step (listening serverFd) actions) :=
  kept_final (kept_listening serverFd) actions

/-- From any point of a run at which a connection is over, whatever the others do in between, a
forwarder of it that gets its turns has ended and left none of its descriptors open. -/
theorem forwarders_release (serverFd : ℕ) (actions actions' : List Action)
    {k clientFd targetFd : ℕ} {a b : Control}
    (hover : Over (final step (listening serverFd) actions) k clientFd targetFd a b)
    (isClientToServer : Bool) (hfits : ∀ action ∈ actions', Fits k action)
    (hturns : (Control.side isClientToServer a b).turnsLeft ≤
      actions'.countP (isTurn k isClientToServer)) :
    ∃ connectionActive a' b',
      (final step (listening serverFd) (actions ++ actions')).connections[k]? =
        some ⟨clientFd, .forwarding targetFd connectionActive a' b'⟩ ∧
      Control.side isClientToServer a' b' = .ended ∧
      ∀ fd, (final step (listening serverFd) (actions ++ actions')).table fd ≠
        some (.connection k) := by
  have hsplit : final step (listening serverFd) (actions ++ actions') =
      final step (final step (listening serverFd) actions) actions' := List.foldl_append
  obtain ⟨a', b', ⟨connectionActive, hk, _⟩, hless⟩ := over_final hover isClientToServer hfits
  have hended : Control.side isClientToServer a' b' = .ended := ended_of_turnsLeft (by omega)
  have hkept := kept_final (kept_listening serverFd) (actions ++ actions')
  rw [hsplit] at hkept ⊢
  exact ⟨connectionActive, a', b', hk, hended, hkept.released hk hended⟩

/-- The server hangs up while the client's forwarder has bytes to pass on, and a second
connection comes in before that forwarder closes. -/
theorem forwarders_release_hangup :
    Over (final step (listening 3) (connect 0 4 5 ++
        [.forward 0 true none, .forward 0 true (some 2), .forward 0 false none,
          .forward 0 false none])) 0 4 5 (.sending 2) .closingSrc ∧
      ∀ fd, (final step (listening 3) ((connect 0 4 5 ++
        [.forward 0 true none, .forward 0 true (some 2), .forward 0 false none,
          .forward 0 false none]) ++ ([.forward 0 true (some 1)] ++ connect 1 6 7 ++
        List.replicate 5 (.forward 0 true none)))).table fd ≠ some (.connection 0) := by
  have hover : Over (final step (listening 3) (connect 0 4 5 ++
      [.forward 0 true none, .forward 0 true (some 2), .forward 0 false none,
        .forward 0 false none])) 0 4 5 (.sending 2) .closingSrc := ⟨false, by rfl, by rfl⟩
  refine ⟨hover, ?_⟩
  obtain ⟨_, _, _, _, _, hnone⟩ := forwarders_release 3 _ ([.forward 0 true (some 1)] ++
    connect 1 6 7 ++ List.replicate 5 (.forward 0 true none)) hover true
    (by simp [connect, Fits]) (by decide +kernel)
  exact hnone

end Fixure.Sockets
