import Fixure.Mailbox
import Fixure.Message
import Fixure.Transducer
import Mathlib.Logic.Function.Basic

/-!
# The connection in memory

Client and server each have an inbox, and one lock guards both of them. Whoever holds the lock
runs a call to its end, or up to the wait of a receive; a thread that waits goes on when it has
been woken, when its time is over, or for no reason. Any number of threads on either side may
call in any order.
-/

namespace Fixure.InMemory
open Transducer

inductive Side
  | client
  | server
  deriving DecidableEq

structure InMemoryConnection (ι : Type) where
  inbox : Side → Mailbox ι Bytes := fun _ => {}
  connected : Bool := false

/-- The calls that take the lock; `pick` says whom `notify_one` wakes. A `resume` is the end of
a wait in an earlier call. -/
inductive Call (ι : Type)
  | connect
  | disconnect
  | put (dest : Side) (data : Bytes) (pick : ℕ)
  | take (side : Side) (thread : ι)
  | resume (side : Side) (thread : ι) (timedOut : Bool)

inductive Reply
  | done
  | pushed (ok : Bool)
  | blocked
  | returned (data : Option Bytes)
  deriving DecidableEq

namespace Call
variable {ι : Type}

def send (data : Bytes) (pick : ℕ) : Call ι := .put .server data pick
def receive (thread : ι) : Call ι := .take .client thread
def serverSend (data : Bytes) (pick : ℕ) : Call ι := .put .client data pick
def serverReceive (thread : ι) : Call ι := .take .server thread

end Call

namespace InMemoryConnection
variable {ι : Type}

def setInbox (c : InMemoryConnection ι) (side : Side) (box : Mailbox ι Bytes) :
    InMemoryConnection ι :=
  { c with inbox := Function.update c.inbox side box }

/-- The end of a receive: the connection or the message may have gone while it waited. -/
def collect (c : InMemoryConnection ι) (side : Side) : InMemoryConnection ι × Reply :=
  if c.connected then
    (c.setInbox side (c.inbox side).take.2, .returned (c.inbox side).take.1)
  else (c, .returned none)

def step [DecidableEq ι] (c : InMemoryConnection ι) : Call ι → InMemoryConnection ι × Reply
  | .connect => ({ c with connected := true }, .done)
  | .disconnect => (⟨fun side => (c.inbox side).notifyAll, false⟩, .done)
  | .put dest data pick =>
    if c.connected then (c.setInbox dest ((c.inbox dest).put data pick), .pushed true)
    else (c, .pushed false)
  | .take side thread =>
    if c.connected && (c.inbox side).letters.isEmpty then
      (c.setInbox side ((c.inbox side).fallAsleep thread), .blocked)
    else c.collect side
  | .resume side thread timedOut =>
    if thread ∈ (c.inbox side).sleeping ∨ thread ∈ (c.inbox side).woken then
      let box := (c.inbox side).arise thread
      if c.connected && box.letters.isEmpty && !timedOut then
        (c.setInbox side (box.fallAsleep thread), .blocked)
      else (c.setInbox side box).collect side
    else (c, .done)

end InMemoryConnection

abbrev History (ι : Type) := List (Move (InMemoryConnection ι) (Call ι) Reply)

section Data
variable {ι : Type}

/-- The data that a call put into the inbox of a side. -/
def pushed (side : Side) (m : Move (InMemoryConnection ι) (Call ι) Reply) : List Bytes :=
  match m.input, m.output with
  | .put dest data _, .pushed true => if dest = side then [data] else []
  | _, _ => []

/-- The data that a call gave to a thread of a side. -/
def handedOut (side : Side) (m : Move (InMemoryConnection ι) (Call ι) Reply) : List Bytes :=
  match m.input, m.output with
  | .take taker _, .returned data => if taker = side then data.toList else []
  | .resume taker _ _, .returned data => if taker = side then data.toList else []
  | _, _ => []

end Data

section Inbox
variable {ι : Type} (c : InMemoryConnection ι) {side : Side}

@[simp] theorem inbox_setInbox_self (box : Mailbox ι Bytes) :
    (c.setInbox side box).inbox side = box :=
  Function.update_self _ _ _

theorem inbox_setInbox_of_ne {side' : Side} (box : Mailbox ι Bytes) (h : side' ≠ side) :
    (c.setInbox side box).inbox side' = c.inbox side' :=
  Function.update_of_ne h _ _

@[simp] theorem connected_setInbox (box : Mailbox ι Bytes) :
    (c.setInbox side box).connected = c.connected := rfl

@[simp] theorem setInbox_setInbox (box box' : Mailbox ι Bytes) :
    (c.setInbox side box).setInbox side box' = c.setInbox side box' := by
  simp [InMemoryConnection.setInbox]

end Inbox

section Step
variable {ι : Type} (c : InMemoryConnection ι)

/-- What a call can do. -/
inductive Stepped [DecidableEq ι] : Call ι → InMemoryConnection ι × Reply → Prop
  | connect : Stepped .connect ({ c with connected := true }, .done)
  | disconnect : Stepped .disconnect (⟨fun side => (c.inbox side).notifyAll, false⟩, .done)
  | put {side data pick} : c.connected = true → Stepped (.put side data pick)
      (c.setInbox side ((c.inbox side).put data pick), .pushed true)
  | refused {side data pick} : c.connected = false →
      Stepped (.put side data pick) (c, .pushed false)
  | wait {side thread} : c.connected = true → (c.inbox side).letters = [] →
      Stepped (.take side thread) (c.setInbox side ((c.inbox side).fallAsleep thread), .blocked)
  | take {side thread} : c.connected = true → Stepped (.take side thread)
      (c.setInbox side (c.inbox side).take.2, .returned (c.inbox side).take.1)
  | takeOff {side thread} : c.connected = false →
      Stepped (.take side thread) (c, .returned none)
  | waitOn {side thread timedOut} : c.connected = true → (c.inbox side).letters = [] →
      Stepped (.resume side thread timedOut)
        (c.setInbox side (((c.inbox side).arise thread).fallAsleep thread), .blocked)
  | resume {side thread timedOut} : c.connected = true → Stepped (.resume side thread timedOut)
      (c.setInbox side ((c.inbox side).arise thread).take.2,
        .returned ((c.inbox side).arise thread).take.1)
  | resumeOff {side thread timedOut} : c.connected = false →
      Stepped (.resume side thread timedOut)
        (c.setInbox side ((c.inbox side).arise thread), .returned none)
  | idle {side thread timedOut} : Stepped (.resume side thread timedOut) (c, .done)

theorem step_stepped [DecidableEq ι] (call : Call ι) : Stepped c call (c.step call) := by
  cases call with
  | connect => exact .connect
  | disconnect => exact .disconnect
  | put side data pick =>
    rw [InMemoryConnection.step]
    split_ifs with h
    · exact .put h
    · exact .refused (Bool.eq_false_iff.mpr h)
  | take side thread =>
    rw [InMemoryConnection.step, InMemoryConnection.collect]
    split_ifs with hempty h
    · rw [Bool.and_eq_true] at hempty
      exact .wait hempty.1 (List.isEmpty_iff.mp hempty.2)
    · exact .take h
    · exact .takeOff (Bool.eq_false_iff.mpr h)
  | resume side thread timedOut =>
    simp only [InMemoryConnection.step, InMemoryConnection.collect, inbox_setInbox_self,
      connected_setInbox, setInbox_setInbox]
    split_ifs with hwaits hempty h
    · rw [Bool.and_eq_true, Bool.and_eq_true] at hempty
      exact .waitOn hempty.1.1 (List.isEmpty_iff.mp hempty.1.2)
    · exact .resume h
    · exact .resumeOff (Bool.eq_false_iff.mpr h)
    · exact .idle

end Step

/-! ### The data -/

theorem letters_setInbox {ι : Type} (c : InMemoryConnection ι) (side side' : Side)
    (box : Mailbox ι Bytes) :
    ((c.setInbox side box).inbox side').letters =
      if side = side' then box.letters else (c.inbox side').letters := by
  split_ifs with h
  · rw [h, inbox_setInbox_self]
  · rw [inbox_setInbox_of_ne c box (Ne.symm h)]

section Data
variable {ι : Type} [DecidableEq ι]

omit [DecidableEq ι] in
/-- A call that changes one inbox keeps the data of both if it keeps the data of that one. -/
theorem setInbox_conserves (c : InMemoryConnection ι) {changed side : Side}
    {box : Mailbox ι Bytes} {taken given : List Bytes}
    (h : taken ++ box.letters = (c.inbox changed).letters ++ given) :
    (if changed = side then taken else []) ++ ((c.setInbox changed box).inbox side).letters =
      (c.inbox side).letters ++ if changed = side then given else [] := by
  rw [letters_setInbox]
  split_ifs with hside
  · rw [h, hside]
  · rw [List.nil_append, List.append_nil]

/-- What a call hands out comes off the front of the inbox, and what it puts in goes behind. -/
theorem step_conserves (c : InMemoryConnection ι) (call : Call ι) (side : Side) :
    handedOut side (move InMemoryConnection.step c call) ++
        ((c.step call).1.inbox side).letters =
      (c.inbox side).letters ++ pushed side (move InMemoryConnection.step c call) := by
  have htake (box : Mailbox ι Bytes) : box.take.1.toList ++ box.take.2.letters = box.letters :=
    Mailbox.toList_take_append
  have hstep := step_stepped c call
  rw [move]
  generalize c.step call = result at hstep ⊢
  cases hstep with
  | connect => simp [handedOut, pushed]
  | disconnect => simp [handedOut, pushed]
  | refused => simp [handedOut, pushed]
  | takeOff => simp [handedOut, pushed]
  | idle => simp [handedOut, pushed]
  | @put changed data pick =>
    have hbox : [] ++ ((c.inbox changed).put data pick).letters =
        (c.inbox changed).letters ++ [data] := by simp
    simpa [handedOut, pushed] using setInbox_conserves c hbox
  | @wait changed thread =>
    have hbox : [] ++ ((c.inbox changed).fallAsleep thread).letters =
        (c.inbox changed).letters ++ [] := by simp
    simpa [handedOut, pushed] using setInbox_conserves c hbox
  | @waitOn changed thread =>
    have hbox : [] ++ (((c.inbox changed).arise thread).fallAsleep thread).letters =
        (c.inbox changed).letters ++ [] := by simp
    simpa [handedOut, pushed] using setInbox_conserves c hbox
  | @resumeOff changed thread =>
    have hbox : [] ++ ((c.inbox changed).arise thread).letters =
        (c.inbox changed).letters ++ [] := by simp
    simpa [handedOut, pushed] using setInbox_conserves c hbox
  | @take changed thread =>
    have hbox : (c.inbox changed).take.1.toList ++ (c.inbox changed).take.2.letters =
        (c.inbox changed).letters ++ [] := by simp [htake]
    simpa [handedOut, pushed] using setInbox_conserves c hbox
  | @resume changed thread =>
    have hbox : ((c.inbox changed).arise thread).take.1.toList ++
        ((c.inbox changed).arise thread).take.2.letters = (c.inbox changed).letters ++ [] := by
      simp [htake]
    simpa [handedOut, pushed] using setInbox_conserves c hbox

theorem moves_while_connected {c : InMemoryConnection ι} {call : Call ι} {side : Side}
    (h : pushed side (move InMemoryConnection.step c call) ≠ [] ∨
      handedOut side (move InMemoryConnection.step c call) ≠ []) : c.connected = true := by
  have hstep := step_stepped c call
  rw [move] at h
  generalize c.step call = result at hstep h
  cases hstep with
  | put hon => exact hon
  | take hon => exact hon
  | resume hon => exact hon
  | _ => simp [pushed, handedOut] at h

theorem conserved_final (calls : List (Call ι)) (side : Side) :
    (trace InMemoryConnection.step {} calls).flatMap (handedOut side) ++
        ((final InMemoryConnection.step {} calls).inbox side).letters =
      (trace InMemoryConnection.step {} calls).flatMap (pushed side) :=
  trace_conserves (fun c => (InMemoryConnection.inbox c side).letters) (pushed side)
    (handedOut side) (fun c call => step_conserves c call side) {} calls

/-- Whatever the calls and their order, each side is handed the data sent to it, in order and
once, and the rest waits in its inbox. Nothing moves while the two are not connected. -/
theorem inMemory_fifo (calls : List (Call ι)) (side : Side) :
    let history := trace InMemoryConnection.step {} calls
    history.flatMap (handedOut side) ++
        ((final InMemoryConnection.step {} calls).inbox side).letters =
      history.flatMap (pushed side) ∧
    ∀ m ∈ history, m.before.connected = false → pushed side m = [] ∧ handedOut side m = [] := by
  intro history
  constructor
  · exact conserved_final calls side
  · intro m hm hoff
    obtain ⟨before, after, hsplit⟩ := List.append_of_mem hm
    obtain ⟨_, call, _, _, _, rfl, _⟩ := trace_eq_append_cons_iff.mp hsplit
    by_contra hmoves
    rw [not_and_or] at hmoves
    exact absurd (moves_while_connected hmoves) (by simpa [move] using hoff)

end Data

/-! ### The waits -/

section Waits
variable {ι : Type}

/-- Nobody sleeps in front of a letter that nobody is on the way to, and nobody sleeps once the
connection has gone. -/
structure Sound (c : InMemoryConnection ι) : Prop where
  attended : ∀ side, (c.inbox side).Attended
  awake : c.connected = false → ∀ side, (c.inbox side).sleeping = []

theorem sound_start : Sound ({} : InMemoryConnection ι) where
  attended _ := Mailbox.attended_of_quiet rfl
  awake _ _ := rfl

theorem Sound.setInbox {c : InMemoryConnection ι} (h : Sound c) {side : Side}
    {box : Mailbox ι Bytes} (hbox : box.Attended)
    (hawake : c.connected = false → box.sleeping = []) : Sound (c.setInbox side box) where
  attended side' := by
    by_cases hside : side' = side
    · rw [hside, inbox_setInbox_self]
      exact hbox
    · rw [inbox_setInbox_of_ne c box hside]
      exact h.attended side'
  awake hoff side' := by
    by_cases hside : side' = side
    · rw [hside, inbox_setInbox_self]
      exact hawake hoff
    · rw [inbox_setInbox_of_ne c box hside]
      exact h.awake hoff side'

variable [DecidableEq ι]

theorem Sound.step {c : InMemoryConnection ι} (h : Sound c) (call : Call ι) :
    Sound (c.step call).1 := by
  have hstep := step_stepped c call
  have hoff {P : Prop} (hon : c.connected = true) (hc : c.connected = false) : P := by
    rw [hon] at hc
    cases hc
  generalize c.step call = result at hstep ⊢
  cases hstep with
  | connect => exact ⟨h.attended, fun hc => by cases hc⟩
  | disconnect => exact ⟨fun side => Mailbox.attended_of_quiet rfl, fun _ _ => rfl⟩
  | put hon => exact h.setInbox ((h.attended _).put _ _) (hoff hon)
  | refused => exact h
  | wait hon hempty => exact h.setInbox (Mailbox.Attended.fallAsleep _ hempty) (hoff hon)
  | take hon => exact h.setInbox (h.attended _).take (hoff hon)
  | takeOff => exact h
  | waitOn hon hempty => exact h.setInbox (Mailbox.Attended.fallAsleep _ hempty) (hoff hon)
  | resume hon => exact h.setInbox ((h.attended _).arise_take _) (hoff hon)
  | @resumeOff side thread _ hc =>
    have hquiet : ((c.inbox side).arise thread).sleeping = [] := by
      rw [Mailbox.arise, h.awake hc side]
      rfl
    exact h.setInbox (Mailbox.attended_of_quiet hquiet) fun _ => hquiet
  | idle => exact h

theorem sound_final (calls : List (Call ι)) :
    Sound (final InMemoryConnection.step ({} : InMemoryConnection ι) calls) :=
  (trace_invariant Sound sound_start fun m hm hm' => by
    have hstep := hm'.step m.input
    rwa [mem_trace hm] at hstep).2

/-- No wake-up is lost: with data in an inbox and somebody waiting for it, there is a thread that
has been woken, and the next turn of any such thread returns the oldest data. Once the connection
has gone, whoever still waits has been woken, and comes back with nothing. -/
theorem inMemory_wakes (calls : List (Call ι)) (side : Side) :
    let c := final InMemoryConnection.step ({} : InMemoryConnection ι) calls
    let box := c.inbox side
    (c.connected = true → ∀ data later, box.letters = data :: later →
        box.sleeping ≠ [] ∨ box.woken ≠ [] → box.woken ≠ [] ∧
          ∀ thread ∈ box.woken, ∀ timedOut,
            (c.step (.resume side thread timedOut)).2 = .returned (some data)) ∧
      (c.connected = false → box.sleeping = [] ∧
        ∀ thread ∈ box.woken, ∀ timedOut,
          (c.step (.resume side thread timedOut)).2 = .returned none) := by
  intro c box
  have hsound : Sound c := sound_final calls
  refine ⟨fun hon data later hletters hwaits => ⟨?_, fun thread hthread timedOut => ?_⟩,
    fun hoff => ⟨hsound.awake hoff side, fun thread hthread timedOut => ?_⟩⟩
  · exact (hsound.attended side).woken_ne_nil (by simp [box, hletters]) hwaits
  · simp [InMemoryConnection.step, InMemoryConnection.collect, Mailbox.take, hthread, hon,
      hletters, box]
  · simp [InMemoryConnection.step, InMemoryConnection.collect, hthread, hoff, box]

end Waits

end Fixure.InMemory
