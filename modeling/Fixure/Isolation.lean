import Fixure.Latency

/-!
# Connections behind one proxy

All connections of a proxy share its trackers. The timing lines of a connection are
compared with those of a run in which only its own messages were analysed, at the same
times. They are the same as long as every message of the server meets the trackers that
its own connection would have left.
-/

namespace Fixure
open Transducer

section Isolation
variable {W : Type} (steadyNow : W → ℤ × W) (iteration : Iteration)

def timings (m : Move Proxy (Call W) (List Line)) : List Line := m.output.filter Line.isTiming

/-- The timing lines of one connection in the run of all, message by message. -/
def sharedTimings (dict : Option Dictionary) (connection : ℕ) (calls : List (Call W)) :
    List (List Line) :=
  ((analysis steadyNow iteration dict calls).filter fun m => m.input.connection = connection).map
    timings

def ownCalls (connection : ℕ) (calls : List (Call W)) : List (Call W) :=
  calls.filter fun c => c.connection = connection

/-- The timing lines of a connection that has the proxy to itself. -/
def aloneTimings (dict : Option Dictionary) (connection : ℕ) (calls : List (Call W)) :
    List (List Line) :=
  (analysis steadyNow iteration dict (ownCalls connection calls)).map timings

/-- Two states of the trackers that a message cannot tell apart: a report meets the same
pending order, and anything else the same waiting message. -/
structure TrackersAgree (t t' : Tracker) (c : Call W) : Prop where
  pending : ∀ id, c.reports = some id → t.pending id = t'.pending id
  waiting : c.serverType ≠ none → t.matched c = none → t.waiting = t'.waiting

theorem matched_eq_of_agree {t t' : Tracker} {c : Call W} (h : TrackersAgree t t' c) :
    t.matched c = t'.matched c := by
  rw [Tracker.matched, Tracker.matched]
  cases hreports : c.reports with
  | none => rfl
  | some id => simp only [h.pending id hreports]

theorem answer_eq_of_agree {t t' : Tracker} {c : Call W} (h : TrackersAgree t t' c) :
    t.answer steadyNow c = t'.answer steadyNow c := by
  have hmatched := matched_eq_of_agree h
  rw [Tracker.answer, Tracker.answer, ← hmatched]
  cases hm : t.matched c with
  | some order => rfl
  | none =>
    cases htype : c.serverType with
    | none => rfl
    | some serverType => rw [h.waiting (by simp [htype]) hm]

theorem agree_of_answer_eq {t t' : Tracker} {c : Call W}
    (h : t.answer steadyNow c = t'.answer steadyNow c) : TrackersAgree t t' c := by
  have hline : ∀ id start, (c.reports = some id ∧ t.pending id = some start) ↔
      (c.reports = some id ∧ t'.pending id = some start) := by
    intro id start
    have ht : t.answer steadyNow c = some (.orderLatency id start (c.time steadyNow)) ↔ _ :=
      answer_eq_orderLatency_iff steadyNow t c
    have ht' : t'.answer steadyNow c = some (.orderLatency id start (c.time steadyNow)) ↔ _ :=
      answer_eq_orderLatency_iff steadyNow t' c
    rw [h, ht'] at ht
    simpa using ht.symm
  have hpending : ∀ id, c.reports = some id → t.pending id = t'.pending id := by
    intro id hid
    apply Option.ext
    intro start
    have := hline id start
    rwa [and_iff_right hid, and_iff_right hid] at this
  refine ⟨hpending, fun htype hm => ?_⟩
  have hm' : t'.matched c = none := by
    rw [Tracker.matched] at hm ⊢
    cases hreports : c.reports with
    | none => rfl
    | some id =>
      simp only [hreports] at hm
      simpa only [hpending id hreports] using hm
  rw [Tracker.answer, Tracker.answer, hm, hm'] at h
  obtain ⟨serverType, hserver⟩ := Option.ne_none_iff_exists'.mp htype
  rw [hserver] at h
  cases hw : t.waiting with
  | none =>
    cases hw' : t'.waiting with
    | none => rfl
    | some client => simp [hw, hw'] at h
  | some client =>
    cases hw' : t'.waiting with
    | none => simp [hw, hw'] at h
    | some client' =>
      simp only [hw, hw', Option.some.injEq, Line.roundtrip.injEq] at h
      rw [Prod.ext h.1 h.2.2.1]

theorem forall_cuts_cons {α : Type*} {P : List α → α → Prop} {a : α} {l : List α} :
    (∀ past b rest, a :: l = past ++ b :: rest → P past b) ↔
      P [] a ∧ ∀ past b rest, l = past ++ b :: rest → P (a :: past) b := by
  constructor
  · intro h
    refine ⟨h [] a l rfl, fun past b rest hl => h (a :: past) b rest ?_⟩
    rw [hl, List.cons_append]
  · intro ⟨hhead, htail⟩ past b rest hl
    cases past with
    | nil =>
      obtain ⟨rfl, _⟩ := List.cons.inj hl
      exact hhead
    | cons d past =>
      obtain ⟨rfl, hrest⟩ := List.cons.inj hl
      exact htail past b rest hrest

/-- Runs from any two states, compared message by message. -/
theorem timings_eq_iff (connection : ℕ) (p p' : Proxy) (calls : List (Call W)) :
    ((trace (analyzeStep steadyNow iteration) p calls).filter
          fun m => m.input.connection = connection).map timings =
        (trace (analyzeStep steadyNow iteration) p' (ownCalls connection calls)).map timings ↔
      ∀ past c rest, calls = past ++ c :: rest → c.connection = connection →
        TrackersAgree (p.tracker.after steadyNow past)
          (p'.tracker.after steadyNow (ownCalls connection past)) c := by
  induction calls generalizing p p' with
  | nil => exact iff_of_true rfl fun past c rest h => absurd h (by simp)
  | cons c calls ih =>
    obtain ⟨hnext, hlines⟩ := analyzeStep_tracker steadyNow iteration p c
    obtain ⟨hnext', hlines'⟩ := analyzeStep_tracker steadyNow iteration p' c
    rw [forall_cuts_cons, trace]
    by_cases hown : c.connection = connection
    · have hkeep : ∀ calls, ownCalls connection (c :: calls) = c :: ownCalls connection calls :=
        fun calls => List.filter_cons_of_pos (decide_eq_true hown)
      have hhead : timings ⟨p, c, (analyzeStep steadyNow iteration p c).2,
            (analyzeStep steadyNow iteration p c).1⟩ =
          timings ⟨p', c, (analyzeStep steadyNow iteration p' c).2,
            (analyzeStep steadyNow iteration p' c).1⟩ ↔ TrackersAgree p.tracker p'.tracker c := by
        rw [timings, timings, hlines, hlines']
        constructor
        · intro h
          have hanswer := congrArg List.head? h
          rw [Option.head?_toList, Option.head?_toList] at hanswer
          exact agree_of_answer_eq steadyNow hanswer
        · intro h
          rw [answer_eq_of_agree steadyNow h]
      rw [List.filter_cons_of_pos (by simp [hown]), hkeep, trace, List.map_cons,
        List.map_cons, List.cons.injEq, hhead, ih, hnext, hnext']
      apply and_congr
      · exact ⟨fun h _ => h, fun h => h hown⟩
      · simp only [hkeep]
        rfl
    · have hdrop : ∀ calls, ownCalls connection (c :: calls) = ownCalls connection calls :=
        fun calls => List.filter_cons_of_neg (by simp [hown])
      rw [List.filter_cons_of_neg (by simp [hown]), hdrop, ih, hnext]
      simp only [hdrop, hown, false_imp_iff, true_and]
      rfl

/-- The lines of a connection are its own exactly when each of its messages meets trackers
that agree with those of the connection alone. -/
theorem sharedTimings_eq_alone_iff (dict : Option Dictionary) (connection : ℕ)
    (calls : List (Call W)) :
    sharedTimings steadyNow iteration dict connection calls =
        aloneTimings steadyNow iteration dict connection calls ↔
      ∀ past c rest, calls = past ++ c :: rest → c.connection = connection →
        TrackersAgree (tracked steadyNow past) (tracked steadyNow (ownCalls connection past)) c :=
  timings_eq_iff steadyNow iteration connection (Proxy.new dict) (Proxy.new dict) calls

end Isolation

/-- Two clients that chose the same ClOrdID: the report of the first gets the start of the
second. -/
theorem sharedTimings_sameClOrdId :
    sharedTimings (fun t : ℤ => (t, t)) ⟨id, .refl⟩ none 0
        [callAt 0 0 true [⟨35, ascii "D"⟩, ⟨11, ascii "A"⟩],
          callAt 1 1 true [⟨35, ascii "D"⟩, ⟨11, ascii "A"⟩],
          callAt 2 0 false [⟨35, ascii "8"⟩, ⟨11, ascii "A"⟩]] ≠
      aloneTimings (fun t : ℤ => (t, t)) ⟨id, .refl⟩ none 0
        [callAt 0 0 true [⟨35, ascii "D"⟩, ⟨11, ascii "A"⟩],
          callAt 1 1 true [⟨35, ascii "D"⟩, ⟨11, ascii "A"⟩],
          callAt 2 0 false [⟨35, ascii "8"⟩, ⟨11, ascii "A"⟩]] := by
  decide +kernel

end Fixure
