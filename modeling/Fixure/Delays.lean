import Fixure.Pace
import Fixure.Replay

/-!
# The delays of a replay

Whatever order the instants of the messages are in, what a replay waits before one of them is the
sum of their rises. That is how far the latest is behind the first as long as they do not rise
again after they have fallen.
-/

namespace Fixure
open Pace

/-! ### Instants and delays -/

/-- The instant of a message that has one. -/
def instant (separator : UInt8) (line : Bytes) : Option ℤ :=
  if messageTime separator line = 0 then none else some (messageTime separator line)

def messages (lines : List Bytes) : List Bytes :=
  (lines.map stripLine).filter fun line => !isSkipped line

def instants (separator : UInt8) (file : Bytes) : List ℤ :=
  (messages (getlines file)).filterMap (instant separator)

def ReplayEvent.delay : ReplayEvent → ℤ
  | .slept delay => delay
  | .sent _ _ => 0

def ReplayEvent.instant (separator : UInt8) : ReplayEvent → Option ℤ
  | .slept _ => none
  | .sent line _ => Fixure.instant separator line

def delays (events : List ReplayEvent) : ℤ := (events.map ReplayEvent.delay).sum

def sentInstants (separator : UInt8) (events : List ReplayEvent) : List ℤ :=
  events.filterMap (ReplayEvent.instant separator)

def OnlySleeps (events : List ReplayEvent) : Prop := ∀ e ∈ events, ∃ delay, e = .slept delay

/-- Before each message with an instant, the delays have added up to the rises since `past`. -/
def OnPace (separator : UInt8) (past : List ℤ) (events : List ReplayEvent) : Prop :=
  ∀ before line ok after t, events = before ++ .sent line ok :: after →
    instant separator line = some t →
    1000000 * delays before = rises (past ++ sentInstants separator before ++ [t]) - rises past

/-- The instants `ts` are sent in their order, and all of them if the replay succeeds. -/
structure Sends (separator : UInt8) (ts : List ℤ) (result : ReplayResult)
    (events : List ReplayEvent) : Prop where
  inOrder : sentInstants separator events <+: ts
  complete : result.success = true → sentInstants separator events = ts

section Events
variable {separator : UInt8} {past ts : List ℤ} {result : ReplayResult}
  {slept events : List ReplayEvent} {line : Bytes} {ok : Bool}

theorem OnlySleeps.sentInstants_eq_nil (h : OnlySleeps slept) :
    sentInstants separator slept = [] := by
  refine List.filterMap_eq_nil_iff.mpr fun e he => ?_
  obtain ⟨delay, rfl⟩ := h e he
  rfl

theorem OnlySleeps.sentInstants_message (h : OnlySleeps slept) :
    sentInstants separator (slept ++ .sent line ok :: events) =
      (instant separator line).toList ++ sentInstants separator events := by
  have hquiet : slept.filterMap (ReplayEvent.instant separator) = [] := h.sentInstants_eq_nil
  rw [sentInstants, List.filterMap_append, hquiet, List.nil_append, List.filterMap_cons]
  cases hline : instant separator line with
  | none => simp [ReplayEvent.instant, hline, sentInstants]
  | some t => simp [ReplayEvent.instant, hline, sentInstants]

/-- A message that is sent in the events is the first one, or it is one of the later events. -/
theorem OnlySleeps.split (h : OnlySleeps slept) {before after : List ReplayEvent} {line' : Bytes}
    {ok' : Bool}
    (heq : slept ++ .sent line ok :: events = before ++ .sent line' ok' :: after) :
    before = slept ∧ line' = line ∨
      ∃ between, before = slept ++ .sent line ok :: between ∧
        events = between ++ .sent line' ok' :: after := by
  rcases List.append_eq_append_iff.mp heq with ⟨between, rfl, hlater⟩ | ⟨between, hslept, hlater⟩
  · cases between with
    | nil =>
      obtain ⟨hsent, _⟩ := List.cons.inj hlater
      exact .inl ⟨List.append_nil _, (ReplayEvent.sent.inj hsent).1.symm⟩
    | cons e between =>
      obtain ⟨rfl, htail⟩ := List.cons.inj hlater
      exact .inr ⟨between, rfl, htail⟩
  · cases between with
    | nil =>
      obtain ⟨hsent, _⟩ := List.cons.inj hlater
      exact .inl ⟨by simp [hslept], (ReplayEvent.sent.inj hsent).1⟩
    | cons e between =>
      obtain ⟨rfl, _⟩ := List.cons.inj hlater
      obtain ⟨delay, hsent⟩ := h (.sent line' ok') (by simp [hslept])
      cases hsent

theorem onPace_nil : OnPace separator past [] := by
  intro before line ok after t heq
  simp at heq

theorem OnPace.step
    (h : OnPace separator (past ++ (instant separator line).toList) events)
    (hslept : OnlySleeps slept)
    (hdelay : 1000000 * delays slept =
      rises (past ++ (instant separator line).toList) - rises past) :
    OnPace separator past (slept ++ .sent line ok :: events) := by
  intro before line' ok' after t heq ht
  obtain ⟨rfl, rfl⟩ | ⟨between, rfl, htail⟩ := hslept.split heq
  · rw [hdelay, ht, hslept.sentInstants_eq_nil, List.append_nil, Option.toList_some]
  · have hlater := h between line' ok' after t htail ht
    have hsum : delays (slept ++ .sent line ok :: between) = delays slept + delays between := by
      simp [delays, ReplayEvent.delay]
    rw [hsum, mul_add, hdelay, hlater, hslept.sentInstants_message, ← List.append_assoc]
    ring

theorem sends_of_failed (h : result.success = false) : Sends separator ts result [] where
  inOrder := List.nil_prefix
  complete hok := by
    rw [h] at hok
    cases hok

theorem Sends.step (h : Sends separator ts result events) (hslept : OnlySleeps slept) :
    Sends separator ((instant separator line).toList ++ ts) result
      (slept ++ .sent line ok :: events) where
  inOrder := by
    rw [hslept.sentInstants_message]
    exact (List.prefix_append_right_inj _).mpr h.inOrder
  complete hok := by rw [hslept.sentInstants_message, h.complete hok]

end Events

/-! ### The memory of the replayer -/

theorem dvd_messageTime (separator : UInt8) (line : Bytes) :
    1000000 ∣ messageTime separator line := by
  have hread : ∀ timeStr, 1000000 ∣ parseSendingTime timeStr := by
    intro timeStr
    rw [parseSendingTime]
    split_ifs
    · exact dvd_zero _
    · dsimp only
      omega
  rw [messageTime]
  split
  · exact dvd_zero _
  · split
    · exact dvd_zero _
    · exact hread _

/-- What the replayer remembers when the messages sent so far had the instants `past`. -/
structure Remembers {W : Type} (past : List ℤ) (st : ReplayState W) : Prop where
  last : past.getLast? = if st.firstMsg then none else some st.lastMsgTime
  whole : ∀ t ∈ past, 1000000 ∣ t

section Memory
variable {W : Type} {player : Player W} {separator : UInt8} {past : List ℤ} {st : ReplayState W}
  {line : Bytes}

theorem remembers_start (world : W) : Remembers [] ({ world := world } : ReplayState W) where
  last := rfl
  whole := by simp

theorem Remembers.after (h : Remembers past st) (world : W) :
    Remembers (past ++ (instant separator line).toList)
      (st.after true world (messageTime separator line)) := by
  by_cases hnone : messageTime separator line = 0
  · simpa [instant, ReplayState.after, hnone] using ⟨h.last, h.whole⟩
  · have hsome : instant separator line = some (messageTime separator line) := if_neg hnone
    rw [hsome, Option.toList_some]
    refine ⟨by simp [ReplayState.after, hnone], fun t ht => ?_⟩
    rcases List.mem_append.mp ht with ht | ht
    · exact h.whole t ht
    · rw [List.mem_singleton.mp ht]
      exact dvd_messageTime separator line

theorem onlySleeps_wait (msgTime : ℤ) : OnlySleeps (wait player true st msgTime).1 := by
  intro e he
  rw [wait] at he
  split_ifs at he
  · exact ⟨_, List.mem_singleton.mp he⟩
  · cases he

/-- The replayer sleeps for what the message is ahead of the last one. -/
theorem Remembers.delays_wait (h : Remembers past st) :
    1000000 * delays (wait player true st (messageTime separator line)).1 =
      rises (past ++ (instant separator line).toList) - rises past := by
  by_cases hnone : messageTime separator line = 0
  · simp [wait, instant, hnone, delays]
  have hsome : instant separator line = some (messageTime separator line) := if_neg hnone
  rw [hsome, Option.toList_some]
  have hlast := h.last
  cases hfirst : st.firstMsg with
  | true =>
    rw [hfirst, if_pos rfl, List.getLast?_eq_none_iff] at hlast
    simp [wait, hfirst, delays, hlast, rises, risesFrom]
  | false =>
    rw [hfirst, if_neg (by decide)] at hlast
    obtain ⟨earlier, rfl⟩ := List.getLast?_eq_some_iff.mp hlast
    rw [rises_concat, add_sub_cancel_left]
    have hmem : 1000000 ∣ st.lastMsgTime := h.whole _ (by simp)
    have hdvd := Int.dvd_sub (dvd_messageTime separator line) hmem
    by_cases hrise : messageTime separator line > st.lastMsgTime
    · have hdelay : delays (wait player true st (messageTime separator line)).1 =
          (messageTime separator line - st.lastMsgTime).tdiv 1000000 := by
        simp [wait, hfirst, hnone, hrise, delays, ReplayEvent.delay]
      rw [hdelay, Int.mul_tdiv_cancel' hdvd, max_eq_right (by omega)]
    · have hdelay : delays (wait player true st (messageTime separator line)).1 = 0 := by
        simp [wait, hrise, delays]
      rw [hdelay, mul_zero, max_eq_left (by omega)]

end Memory

/-! ### The loop over the lines -/

section Run
variable {W : Type} {player : Player W} {separator : UInt8} {past : List ℤ} {st : ReplayState W}

theorem replayLines_onPace (lines : List Bytes) (h : Remembers past st) :
    OnPace separator past (replayLines player separator true lines st).2.1 := by
  induction lines generalizing past st with
  | nil => exact onPace_nil
  | cons raw lines ih =>
    cases hskip : isSkipped (stripLine raw) with
    | true =>
      rw [replayLines_skipped player separator lines st hskip]
      exact ih h
    | false =>
      obtain ⟨_, hevents⟩ | ⟨world, _, hevents⟩ :=
        replayLines_message player separator lines st hskip
      · rw [hevents]
        exact onPace_nil.step (onlySleeps_wait _) h.delays_wait
      · rw [hevents]
        exact (ih (h.after world)).step (onlySleeps_wait _) h.delays_wait

theorem replayLines_sends (lines : List Bytes) (st : ReplayState W) :
    Sends separator ((messages lines).filterMap (instant separator))
      (replayLines player separator true lines st).1
      (replayLines player separator true lines st).2.1 := by
  induction lines generalizing st with
  | nil => exact ⟨List.nil_prefix, fun _ => rfl⟩
  | cons raw lines ih =>
    cases hskip : isSkipped (stripLine raw) with
    | true =>
      have hmessages : messages (raw :: lines) = messages lines := by simp [messages, hskip]
      rw [replayLines_skipped player separator lines st hskip, hmessages]
      exact ih st
    | false =>
      have hmessages : (messages (raw :: lines)).filterMap (instant separator) =
          (instant separator (stripLine raw)).toList ++
            (messages lines).filterMap (instant separator) := by
        cases hline : instant separator (stripLine raw) with
        | none => simp [messages, hskip, hline]
        | some t => simp [messages, hskip, hline]
      rw [hmessages]
      obtain ⟨hfail, hevents⟩ | ⟨world, hresult, hevents⟩ :=
        replayLines_message player separator lines st hskip
      · rw [hevents]
        exact (sends_of_failed hfail).step (onlySleeps_wait _)
      · rw [hevents, hresult]
        exact (ih (st.after true world (messageTime separator (stripLine raw)))).step
          (onlySleeps_wait _)

end Run

/-! ### The delays of a replay -/

/-- What is waited, in milliseconds, before the last of the instants `ts`. -/
structure Delayed (delay : ℤ) (ts : List ℤ) : Prop where
  rises : 1000000 * delay = rises ts
  lead_le : lead ts ≤ 1000000 * delay
  eq_lead_iff : 1000000 * delay = lead ts ↔ RisesOnce ts

theorem delayed_of_rises {delay : ℤ} {ts : List ℤ} (h : 1000000 * delay = rises ts) :
    Delayed delay ts where
  rises := h
  lead_le := h ▸ lead_le_rises ts
  eq_lead_iff := h ▸ rises_eq_lead_iff ts

theorem Delayed.le_sub {delay : ℤ} {ts : List ℤ} (h : Delayed delay ts) (hts : ts ≠ [])
    (hrise : RisesOnce ts) {lo hi : ℤ} (hrange : ∀ s ∈ ts, lo ≤ s ∧ s ≤ hi) :
    1000000 * delay ≤ hi - lo :=
  (h.eq_lead_iff.mpr hrise).trans_le (lead_le_sub hts hrange)

def reading (file : Bytes) : Player Unit where
  readFile world _ := (some file, world)
  send world _ := (true, world)
  sleepFor world _ := world

end Fixure
