import Fixure.Proxy
import Fixure.Transducer
import Mathlib.Data.List.TakeWhile

/-!
# Latencies

The analysis of a message answers it with lines of the log and changes the two trackers of
the proxy: the orders that await their report, by ClOrdID, and the client message that
awaits any answer. `Tracker` is what the two hold, and `analyzeStep_tracker` says what one
message does to it and which timing line it gets. The results compare the timing lines of
whole runs with the messages before them.
-/

namespace Fixure
open Tables Transducer

/-! ### The calls -/

/-- A call of `analyze_message`, the connection it serves and the world it meets. -/
structure Call (W : Type) where
  connection : ℕ
  isClientToServer : Bool
  msg : FixMessage
  world : W

namespace Call
variable {W : Type}

def clientType (c : Call W) : Option Bytes :=
  if c.isClientToServer then c.msg.getField 35 else none

def serverType (c : Call W) : Option Bytes :=
  if c.isClientToServer then none else c.msg.getField 35

/-- The ClOrdID of an order from the client. -/
def orders (c : Call W) : Option Bytes :=
  if c.clientType = some (ascii "D") then c.msg.getField 11 else none

/-- The ClOrdID of an execution report from the server. -/
def reports (c : Call W) : Option Bytes :=
  if c.serverType = some (ascii "8") then c.msg.getField 11 else none

def time (steadyNow : W → ℤ × W) (c : Call W) : ℤ := (steadyNow c.world).1

/-- The time of a client message, which for an order is read second. -/
def clientTime (steadyNow : W → ℤ × W) (c : Call W) : ℤ :=
  if c.orders = none then c.time steadyNow else (steadyNow (steadyNow c.world).2).1

theorem serverType_eq_none {c : Call W} (h : c.isClientToServer = true) : c.serverType = none :=
  if_pos h

theorem clientType_eq_none {c : Call W} (h : c.isClientToServer = false) : c.clientType = none :=
  if_neg (by simp [h])

theorem clientType_of_client {c : Call W} (h : c.isClientToServer = true) :
    c.clientType = c.msg.getField 35 := if_pos h

theorem serverType_of_server {c : Call W} (h : c.isClientToServer = false) :
    c.serverType = c.msg.getField 35 := if_neg (by simp [h])

theorem orders_eq_none {c : Call W} (h : c.clientType = none) : c.orders = none := by
  rw [orders, h]
  rfl

theorem reports_eq_none {c : Call W} (h : c.serverType = none) : c.reports = none := by
  rw [reports, h]
  rfl

theorem clientType_of_orders {c : Call W} {id : Bytes} (h : c.orders = some id) :
    c.clientType = some (ascii "D") := by
  rw [orders] at h
  split_ifs at h with htype
  exact htype

theorem serverType_of_reports {c : Call W} {id : Bytes} (h : c.reports = some id) :
    c.serverType = some (ascii "8") := by
  rw [reports] at h
  split_ifs at h with htype
  exact htype

theorem reports_of_orders {c : Call W} {id : Bytes} (h : c.orders = some id) :
    c.reports = none := by
  have hclient := clientType_of_orders h
  rw [clientType] at hclient
  split_ifs at hclient with hdir
  exact reports_eq_none (serverType_eq_none hdir)

end Call

section Analysis
variable {W : Type} (steadyNow : W → ℤ × W) (iteration : Iteration)

def analyzeStep (p : Proxy) (c : Call W) : Proxy × List Line :=
  let answer := p.analyzeMessage steadyNow iteration c.msg c.isClientToServer c.world
  (answer.2.1, answer.1)

def Proxy.new (dict : Option Dictionary) : Proxy := { dict := dict }

def Line.ofOrder (id : Bytes) : Line → Bool
  | .orderLatency clOrdId _ _ => clOrdId = id
  | _ => false

def Line.isRoundtrip : Line → Bool
  | .roundtrip _ _ _ _ => true
  | _ => false

def Line.isTiming : Line → Bool
  | .orderLatency _ _ _ => true
  | .roundtrip _ _ _ _ => true
  | _ => false

/-! ### The two trackers -/

/-- The start of every order that awaits its report, and the client message, with its time,
that awaits an answer. -/
structure Tracker where
  pending : Bytes → Option ℤ
  waiting : Option (Bytes × ℤ)

def Proxy.tracker (p : Proxy) : Tracker where
  pending id := (p.orderLatency.lookup id).map LatencyTracker.startTime
  waiting :=
    if p.lastClientMsgType = [] then none else some (p.lastClientMsgType, p.lastClientMsgTime)

namespace Tracker

def empty : Tracker := ⟨fun _ => none, none⟩

/-- The pending order, with its start, that a message reports. -/
def matched (t : Tracker) (c : Call W) : Option (Bytes × ℤ) :=
  match c.reports with
  | none => none
  | some id => (t.pending id).map fun start => (id, start)

def answer (t : Tracker) (c : Call W) : Option Line :=
  match t.matched c with
  | some (id, start) => some (.orderLatency id start (c.time steadyNow))
  | none =>
    match c.serverType, t.waiting with
    | some serverType, some (clientType, start) =>
      some (.roundtrip clientType serverType start (c.time steadyNow))
    | _, _ => none

def next (t : Tracker) (c : Call W) : Tracker where
  pending id :=
    if c.orders = some id then some (c.time steadyNow)
    else if c.reports = some id then none
    else t.pending id
  waiting :=
    match c.clientType with
    | some msgType => if msgType = [] then none else some (msgType, c.clientTime steadyNow)
    | none => if c.serverType ≠ none ∧ t.matched c = none then none else t.waiting

def after (t : Tracker) (calls : List (Call W)) : Tracker := calls.foldl (next steadyNow) t

end Tracker

theorem validation_isTiming (p : Proxy) (isClientToServer : Bool) (msgType : Bytes)
    (msg : FixMessage) :
    (p.validation iteration isClientToServer msgType msg).isTiming = false := by
  rw [Proxy.validation]
  cases p.dict with
  | none => rfl
  | some dict =>
    simp only
    cases dict.validateMessage iteration msgType msg with
    | error err => rfl
    | ok u => rfl

/-- What an order does to the trackers, and the clock behind it. -/
theorem trackOrder_spec (p : Proxy) {c : Call W} {msgType : Bytes}
    (h : c.clientType = some msgType) :
    (∀ id, ((p.trackOrder steadyNow msgType c.msg c.world).1.orderLatency.lookup id).map
        LatencyTracker.startTime =
          if c.orders = some id then some (c.time steadyNow) else p.tracker.pending id) ∧
      (steadyNow (p.trackOrder steadyNow msgType c.msg c.world).2).1 = c.clientTime steadyNow := by
  rw [Proxy.trackOrder, Call.clientTime, Call.orders, h]
  by_cases hD : msgType = ascii "D"
  · simp only [hD, if_true]
    cases c.msg.getField 11 with
    | none => exact ⟨fun id => (if_neg (by simp)).symm, (if_pos rfl).symm⟩
    | some clOrdId =>
      refine ⟨fun id => ?_, (if_neg (by simp)).symm⟩
      simp only [lookup_insert_eq, Option.some.injEq]
      by_cases hid : clOrdId = id
      · rw [if_pos hid.symm, if_pos hid]
        rfl
      · rw [if_neg (Ne.symm hid), if_neg hid]
        rfl
  · have hother : some msgType ≠ some (ascii "D") := fun h => hD (Option.some.inj h)
    rw [if_neg hD, if_neg hother]
    exact ⟨fun id => (if_neg (by simp)).symm, (if_pos rfl).symm⟩

theorem analyzeStep_client (p : Proxy) {c : Call W} (h : c.isClientToServer = true) :
    (analyzeStep steadyNow iteration p c).1.tracker = p.tracker.next steadyNow c ∧
      (analyzeStep steadyNow iteration p c).2.filter Line.isTiming = [] := by
  have hserver := Call.serverType_eq_none h
  have hreports := Call.reports_eq_none hserver
  rw [analyzeStep, Proxy.analyzeMessage, Tracker.next, hserver, hreports]
  cases htype : c.msg.getField 35 with
  | none =>
    have hclient : c.clientType = none := (Call.clientType_of_client h).trans htype
    rw [hclient, Call.orders_eq_none hclient]
    exact ⟨rfl, rfl⟩
  | some msgType =>
    have hclient : c.clientType = some msgType := (Call.clientType_of_client h).trans htype
    obtain ⟨hpending, htime⟩ := trackOrder_spec steadyNow p hclient
    simp only [h, if_true, hclient, Proxy.trackClient, htime]
    rw [List.filter_cons_of_neg (by simp [validation_isTiming]), Proxy.tracker, Tracker.mk.injEq]
    refine ⟨⟨?_, rfl⟩, rfl⟩
    funext id
    rw [hpending, if_neg (by simp : ¬ none = some id)]

theorem matched_eq_some_iff {t : Tracker} {c : Call W} {id : Bytes} {start : ℤ} :
    t.matched c = some (id, start) ↔ c.reports = some id ∧ t.pending id = some start := by
  rw [Tracker.matched]
  cases c.reports with
  | none => simp
  | some clOrdId =>
    simp only [Option.map_eq_some_iff, Prod.mk.injEq, Option.some.injEq]
    constructor
    · intro ⟨_, h, hid, hstart⟩
      subst hid hstart
      exact ⟨rfl, h⟩
    · intro ⟨hid, h⟩
      subst hid
      exact ⟨start, h, rfl, rfl⟩

theorem measureOrder_of_matched {p : Proxy} {c : Call W} {msgType id : Bytes} {start : ℤ}
    (h : c.serverType = some msgType) (hm : p.tracker.matched c = some (id, start)) :
    ∃ w, p.measureOrder steadyNow msgType c.msg c.world =
      (some (.orderLatency id start (c.time steadyNow)),
        { p with orderLatency := p.orderLatency.erase id }, w) := by
  obtain ⟨hreports, hpending⟩ := matched_eq_some_iff.mp hm
  have htype := Call.serverType_of_reports hreports
  rw [Call.reports, if_pos htype] at hreports
  obtain ⟨it, hit, rfl⟩ := Option.map_eq_some_iff.mp hpending
  rw [h] at htype
  rw [Proxy.measureOrder, if_pos (Option.some.inj htype)]
  simp only [hreports, hit]
  exact ⟨_, rfl⟩

theorem measureOrder_of_not_matched {p : Proxy} {c : Call W} {msgType : Bytes}
    (h : c.serverType = some msgType) (hm : p.tracker.matched c = none) :
    p.measureOrder steadyNow msgType c.msg c.world = (none, p, c.world) := by
  rw [Proxy.measureOrder]
  by_cases h8 : msgType = ascii "8"
  · have hreports : c.reports = c.msg.getField 11 := if_pos (h8 ▸ h)
    rw [if_pos h8, ← hreports]
    rw [Tracker.matched] at hm
    cases hid : c.reports with
    | none => rfl
    | some id =>
      simp only [hid, Option.map_eq_none_iff, Proxy.tracker] at hm
      simp only [hm]
  · rw [if_neg h8]

theorem analyzeStep_matched (p : Proxy) {c : Call W} {msgType id : Bytes} {start : ℤ}
    (h : c.isClientToServer = false) (htype : c.msg.getField 35 = some msgType)
    (hm : p.tracker.matched c = some (id, start)) :
    (analyzeStep steadyNow iteration p c).1.tracker = p.tracker.next steadyNow c ∧
      (analyzeStep steadyNow iteration p c).2.filter Line.isTiming =
        (p.tracker.answer steadyNow c).toList := by
  have hclient := Call.clientType_eq_none h
  have hserver : c.serverType = some msgType := (Call.serverType_of_server h).trans htype
  obtain ⟨w, hw⟩ := measureOrder_of_matched steadyNow hserver hm
  obtain ⟨hreports, _⟩ := matched_eq_some_iff.mp hm
  rw [analyzeStep, Proxy.analyzeMessage, Tracker.next, Tracker.answer, hclient,
    Call.orders_eq_none hclient, hm]
  simp only [htype, h, Bool.false_eq_true, if_false, hw, hserver, hreports]
  rw [List.filter_cons_of_pos rfl, List.filter_cons_of_neg (by simp [validation_isTiming]),
    Proxy.tracker, Tracker.mk.injEq]
  refine ⟨⟨?_, (if_neg (by simp)).symm⟩, rfl⟩
  funext clOrdId
  rw [if_neg (by simp), lookup_erase_eq]
  by_cases hid : id = clOrdId
  · rw [if_pos hid.symm, if_pos (congrArg some hid), Option.map_none]
  · rw [if_neg (Ne.symm hid), if_neg (fun h => hid (Option.some.inj h))]
    rfl

theorem pending_of_not_matched {t : Tracker} {c : Call W} (hm : t.matched c = none) (now : ℤ) :
    (fun id => if none = some id then some now
      else if c.reports = some id then none else t.pending id) = t.pending := by
  funext id
  rw [if_neg (by simp)]
  split_ifs with hreports
  · rw [Tracker.matched, hreports] at hm
    exact (Option.map_eq_none_iff.mp hm).symm
  · rfl

theorem analyzeStep_unmatched (p : Proxy) {c : Call W} {msgType : Bytes}
    (h : c.isClientToServer = false) (htype : c.msg.getField 35 = some msgType)
    (hm : p.tracker.matched c = none) :
    (analyzeStep steadyNow iteration p c).1.tracker = p.tracker.next steadyNow c ∧
      (analyzeStep steadyNow iteration p c).2.filter Line.isTiming =
        (p.tracker.answer steadyNow c).toList := by
  have hclient := Call.clientType_eq_none h
  have hserver : c.serverType = some msgType := (Call.serverType_of_server h).trans htype
  have hw := measureOrder_of_not_matched steadyNow hserver hm
  have hpending := pending_of_not_matched hm (c.time steadyNow)
  rw [analyzeStep, Proxy.analyzeMessage, Tracker.next, Tracker.answer, hclient,
    Call.orders_eq_none hclient, hm]
  simp only [htype, h, Bool.false_eq_true, if_false, hw, hserver, hpending, Proxy.measureRoundtrip]
  by_cases hslot : p.lastClientMsgType = []
  · have hwaiting : p.tracker.waiting = none := if_pos hslot
    rw [if_neg (not_not.mpr hslot), hwaiting]
    simp only [Option.toList_none, List.nil_append]
    rw [List.filter_cons_of_neg (by simp [validation_isTiming]), if_pos (by simp)]
    exact ⟨congrArg (Tracker.mk _) hwaiting, rfl⟩
  · have hwaiting : p.tracker.waiting = some (p.lastClientMsgType, p.lastClientMsgTime) :=
      if_neg hslot
    rw [if_pos hslot, hwaiting]
    simp only [Option.toList_some, List.singleton_append]
    rw [List.filter_cons_of_pos rfl, List.filter_cons_of_neg (by simp [validation_isTiming]),
      if_pos (by simp)]
    exact ⟨rfl, rfl⟩

theorem analyzeStep_server (p : Proxy) {c : Call W} (h : c.isClientToServer = false) :
    (analyzeStep steadyNow iteration p c).1.tracker = p.tracker.next steadyNow c ∧
      (analyzeStep steadyNow iteration p c).2.filter Line.isTiming =
        (p.tracker.answer steadyNow c).toList := by
  cases htype : c.msg.getField 35 with
  | none =>
    have hclient := Call.clientType_eq_none h
    have hserver : c.serverType = none := (Call.serverType_of_server h).trans htype
    have hreports := Call.reports_eq_none hserver
    have hmatched : p.tracker.matched c = none := by
      rw [Tracker.matched, hreports]
    rw [analyzeStep, Proxy.analyzeMessage, Tracker.next, Tracker.answer, hclient,
      Call.orders_eq_none hclient, htype, hmatched, hserver, hreports]
    exact ⟨rfl, rfl⟩
  | some msgType =>
    cases hm : p.tracker.matched c with
    | some order => exact analyzeStep_matched steadyNow iteration p h htype hm
    | none => exact analyzeStep_unmatched steadyNow iteration p h htype hm

/-- What one message does to the trackers, and its timing line. -/
theorem analyzeStep_tracker (p : Proxy) (c : Call W) :
    (analyzeStep steadyNow iteration p c).1.tracker = p.tracker.next steadyNow c ∧
      (analyzeStep steadyNow iteration p c).2.filter Line.isTiming =
        (p.tracker.answer steadyNow c).toList := by
  cases h : c.isClientToServer with
  | false => exact analyzeStep_server steadyNow iteration p h
  | true =>
    obtain ⟨hnext, htiming⟩ := analyzeStep_client steadyNow iteration p h
    have hserver := Call.serverType_eq_none h
    have hmatched : p.tracker.matched c = none := by
      rw [Tracker.matched, Call.reports_eq_none hserver]
    rw [Tracker.answer, hmatched, hserver]
    exact ⟨hnext, htiming⟩

theorem answer_eq_orderLatency_iff (t : Tracker) (c : Call W) {id : Bytes} {start now : ℤ} :
    t.answer steadyNow c = some (.orderLatency id start now) ↔
      c.reports = some id ∧ t.pending id = some start ∧ now = c.time steadyNow := by
  rw [← and_assoc, ← matched_eq_some_iff, Tracker.answer]
  cases hm : t.matched c with
  | none =>
    simp only [reduceCtorEq, false_and, iff_false]
    cases c.serverType with
    | none => exact Option.some_ne_none _ ∘ Eq.symm
    | some serverType =>
      cases t.waiting with
      | none => exact Option.some_ne_none _ ∘ Eq.symm
      | some client => exact fun h => Line.noConfusion (Option.some.inj h)
  | some order =>
    obtain ⟨clOrdId, time⟩ := order
    simp only [Option.some.injEq, Line.orderLatency.injEq, Prod.mk.injEq, and_assoc]
    exact and_congr_right fun _ => and_congr_right fun _ => eq_comm

/-! ### Runs -/

theorem new_tracker (dict : Option Dictionary) : (Proxy.new dict).tracker = Tracker.empty := rfl

def analysis (dict : Option Dictionary) (calls : List (Call W)) :
    List (Move Proxy (Call W) (List Line)) :=
  trace (analyzeStep steadyNow iteration) (Proxy.new dict) calls

def tracked (calls : List (Call W)) : Tracker := Tracker.empty.after steadyNow calls

theorem final_tracker (p : Proxy) (calls : List (Call W)) :
    (final (analyzeStep steadyNow iteration) p calls).tracker =
      p.tracker.after steadyNow calls := by
  induction calls generalizing p with
  | nil => rfl
  | cons c calls ih =>
    have hnext := (analyzeStep_tracker steadyNow iteration p c).1
    exact (ih _).trans (congrArg (fun t => Tracker.after steadyNow t calls) hnext)

theorem tracked_concat (calls : List (Call W)) (c : Call W) :
    tracked steadyNow (calls ++ [c]) = (tracked steadyNow calls).next steadyNow c :=
  List.foldl_append

theorem analysis_concat (dict : Option Dictionary) (calls : List (Call W)) (c : Call W) :
    ∃ m, analysis steadyNow iteration dict (calls ++ [c]) =
        analysis steadyNow iteration dict calls ++ [m] ∧ m.input = c ∧
      m.output.filter Line.isTiming = ((tracked steadyNow calls).answer steadyNow c).toList := by
  refine ⟨_, trace_append _ _ _, rfl, ?_⟩
  rw [(analyzeStep_tracker steadyNow iteration _ _).2, final_tracker, new_tracker, tracked]

theorem mem_of_filter_timing {lines : List Line} {o : Option Line} {line : Line}
    (h : lines.filter Line.isTiming = o.toList) (hline : line.isTiming = true) :
    line ∈ lines ↔ o = some line := by
  rw [← Option.mem_toList, ← h, List.mem_filter, hline, and_iff_left rfl]

theorem countP_of_filter_timing {lines : List Line} {o : Option Line} {q : Line → Bool}
    (h : lines.filter Line.isTiming = o.toList)
    (hq : ∀ line, q line = true → line.isTiming = true) :
    lines.countP q = o.toList.countP q := by
  rw [← h, List.countP_filter]
  apply List.countP_congr
  intro line _
  rw [Bool.and_eq_true, iff_self_and]
  exact hq line

theorem isTiming_of_ofOrder {id : Bytes} {line : Line} (h : line.ofOrder id = true) :
    line.isTiming = true := by
  cases line with
  | orderLatency clOrdId start now => rfl
  | _ => cases h

theorem isTiming_of_isRoundtrip {line : Line} (h : line.isRoundtrip = true) :
    line.isTiming = true := by
  cases line with
  | roundtrip clientType serverType start now => rfl
  | _ => cases h

/-! ### Orders -/

def ReportsOrder (id : Bytes) (m : Move Proxy (Call W) (List Line)) : Prop :=
  ∃ start now, Line.orderLatency id start now ∈ m.output

def orderLines (id : Bytes) (ms : List (Move Proxy (Call W) (List Line))) : ℕ :=
  (ms.flatMap Move.output).countP (Line.ofOrder id)

theorem pending_iff_since (dict : Option Dictionary) (calls : List (Call W)) (id : Bytes)
    (start : ℤ) :
    (tracked steadyNow calls).pending id = some start ↔
      Since (fun m => m.input.orders = some id ∧ m.input.time steadyNow = start)
        (fun m => m.input.orders ≠ some id ∧ ¬ ReportsOrder id m)
        (analysis steadyNow iteration dict calls) := by
  induction calls using List.reverseRecOn with
  | nil => exact iff_of_false (by simp [tracked, Tracker.after, Tracker.empty]) not_since_nil
  | append_singleton calls c ih =>
    obtain ⟨m, hm, rfl, hlines⟩ := analysis_concat steadyNow iteration dict calls c
    have hreport : ReportsOrder id m ↔
        m.input.reports = some id ∧ ∃ start, (tracked steadyNow calls).pending id = some start := by
      constructor
      · intro ⟨start, now, hline⟩
        rw [mem_of_filter_timing hlines rfl, answer_eq_orderLatency_iff] at hline
        exact ⟨hline.1, start, hline.2.1⟩
      · intro ⟨hid, start, hstart⟩
        refine ⟨start, m.input.time steadyNow, ?_⟩
        rw [mem_of_filter_timing hlines rfl, answer_eq_orderLatency_iff]
        exact ⟨hid, hstart, rfl⟩
    rw [tracked_concat, hm, since_concat, ← ih, Tracker.next]
    simp only
    by_cases horders : m.input.orders = some id
    · rw [if_pos horders]
      simp [horders]
    · rw [if_neg horders]
      by_cases hid : m.input.reports = some id
      · rw [if_pos hid]
        simp only [horders, false_and, false_or, hreport, hid, true_and, reduceCtorEq, false_iff]
        intro ⟨⟨_, hnot⟩, hpending⟩
        exact hnot ⟨start, hpending⟩
      · rw [if_neg hid]
        simp [horders, hreport, hid]

theorem countP_answer_ofOrder (t : Tracker) (c : Call W) (id : Bytes) :
    (t.answer steadyNow c).toList.countP (Line.ofOrder id) =
      if c.reports = some id ∧ t.pending id ≠ none then 1 else 0 := by
  rw [Tracker.answer]
  cases hm : t.matched c with
  | none =>
    have hnone : ¬ (c.reports = some id ∧ t.pending id ≠ none) := by
      intro ⟨hid, hpending⟩
      obtain ⟨start, hstart⟩ := Option.ne_none_iff_exists'.mp hpending
      rw [matched_eq_some_iff.mpr ⟨hid, hstart⟩] at hm
      cases hm
    rw [if_neg hnone]
    cases c.serverType with
    | none => rfl
    | some serverType =>
      cases t.waiting with
      | none => rfl
      | some client => rfl
  | some order =>
    obtain ⟨clOrdId, start⟩ := order
    obtain ⟨hreports, hpending⟩ := matched_eq_some_iff.mp hm
    simp only [Option.toList_some, List.countP_singleton, Line.ofOrder, hreports,
      Option.some.injEq, decide_eq_true_eq]
    by_cases hid : clOrdId = id
    · rw [if_pos hid, if_pos ⟨hid, by simp [← hid, hpending]⟩]
    · rw [if_neg hid, if_neg fun h => hid h.1]

/-- Every report needs an order of its own. -/
theorem orderLines_le (dict : Option Dictionary) (calls : List (Call W)) (id : Bytes) :
    orderLines id (analysis steadyNow iteration dict calls) +
        (if (tracked steadyNow calls).pending id = none then 0 else 1) ≤
      calls.countP fun c => c.orders = some id := by
  induction calls using List.reverseRecOn with
  | nil => exact le_rfl
  | append_singleton calls c ih =>
    obtain ⟨m, hm, rfl, hlines⟩ := analysis_concat steadyNow iteration dict calls c
    have hcount : orderLines id (analysis steadyNow iteration dict (calls ++ [m.input])) =
        orderLines id (analysis steadyNow iteration dict calls) +
          if m.input.reports = some id ∧ (tracked steadyNow calls).pending id ≠ none then 1
          else 0 := by
      rw [← countP_answer_ofOrder steadyNow, hm, orderLines, List.flatMap_append,
        List.countP_append, ← countP_of_filter_timing hlines fun line => isTiming_of_ofOrder]
      simp [orderLines]
    rw [hcount, List.countP_append, List.countP_singleton, tracked_concat, Tracker.next]
    simp only [decide_eq_true_eq]
    by_cases horders : m.input.orders = some id
    · simp only [horders, Call.reports_of_orders horders, if_true, reduceCtorEq, false_and,
        if_false]
      split_ifs at ih <;> omega
    · by_cases hid : m.input.reports = some id
      · simp only [horders, hid, if_false, if_true, true_and]
        split_ifs at ih ⊢ <;> omega
      · simp only [horders, hid, if_false, false_and]
        omega

theorem orderLatency_matched (dict : Option Dictionary) (id : Bytes) :
    (∀ (past : List (Call W)) (c : Call W) (start : ℤ),
      (∃ now, Line.orderLatency id start now ∈
          (analyzeStep steadyNow iteration
            (final (analyzeStep steadyNow iteration) (Proxy.new dict) past) c).2) ↔
        c.reports = some id ∧
          Since (fun m => m.input.orders = some id ∧ m.input.time steadyNow = start)
            (fun m => m.input.orders ≠ some id ∧ ¬ ReportsOrder id m)
            (analysis steadyNow iteration dict past)) ∧
      ∀ calls : List (Call W), orderLines id (analysis steadyNow iteration dict calls) ≤
        calls.countP fun c => c.orders = some id := by
  constructor
  · intro past c start
    rw [← pending_iff_since]
    have hlines := (analyzeStep_tracker steadyNow iteration
      (final (analyzeStep steadyNow iteration) (Proxy.new dict) past) c).2
    rw [final_tracker, new_tracker, ← tracked] at hlines
    constructor
    · intro ⟨now, hline⟩
      rw [mem_of_filter_timing hlines rfl, answer_eq_orderLatency_iff] at hline
      exact ⟨hline.1, hline.2.1⟩
    · intro ⟨hreports, hpending⟩
      refine ⟨c.time steadyNow, ?_⟩
      rw [mem_of_filter_timing hlines rfl, answer_eq_orderLatency_iff]
      exact ⟨hreports, hpending, rfl⟩
  · intro calls
    exact (Nat.le_add_right _ _).trans (orderLines_le steadyNow iteration dict calls id)

/-! ### Messages timed twice -/

def roundtripLines (ms : List (Move Proxy (Call W) (List Line))) : ℕ :=
  (ms.flatMap Move.output).countP Line.isRoundtrip

/-- The timing lines about one message among those that follow it: the latency of its order
until the ClOrdID comes again, and a roundtrip until the next client message. -/
def timingsOf (m : Move Proxy (Call W) (List Line))
    (post : List (Move Proxy (Call W) (List Line))) : ℕ :=
  (match m.input.orders with
    | none => 0
    | some id => orderLines id (post.takeWhile fun n => n.input.orders ≠ some id)) +
  (match m.input.clientType with
    | none => 0
    | some _ => roundtripLines (post.takeWhile fun n => n.input.clientType = none))

def TimedOnce (ms : List (Move Proxy (Call W) (List Line))) : Prop :=
  ∀ pre m post, ms = pre ++ m :: post → timingsOf m post ≤ 1

/-- Among the calls is a server message that does not report a pending order. -/
def Unmatched (t : Tracker) (calls : List (Call W)) : Prop :=
  ∃ mid c rest, calls = mid ++ c :: rest ∧ c.serverType ≠ none ∧
    (t.after steadyNow mid).matched c = none

/-- An order is reported before its ClOrdID comes again, and before the next client message
the server also sends something that reports no pending order. -/
def DoublyTimed (calls : List (Call W)) : Prop :=
  ∃ past order rest id, calls = past ++ order :: rest ∧ order.orders = some id ∧
    (∃ c ∈ rest.takeWhile (fun c => c.orders ≠ some id), c.reports = some id) ∧
    Unmatched steadyNow (tracked steadyNow (past ++ [order]))
      (rest.takeWhile fun c => c.clientType = none)

theorem not_unmatched_nil (t : Tracker) : ¬ Unmatched steadyNow t [] := by
  intro ⟨mid, c, rest, h, _⟩
  exact absurd h (by simp)

theorem unmatched_cons (t : Tracker) (c : Call W) (calls : List (Call W)) :
    Unmatched steadyNow t (c :: calls) ↔
      (c.serverType ≠ none ∧ t.matched c = none) ∨
        Unmatched steadyNow (t.next steadyNow c) calls := by
  constructor
  · intro ⟨mid, d, rest, h, htype, hm⟩
    cases mid with
    | nil =>
      obtain ⟨rfl, _⟩ := List.cons.inj h
      exact Or.inl ⟨htype, hm⟩
    | cons e mid =>
      obtain ⟨rfl, hrest⟩ := List.cons.inj h
      exact Or.inr ⟨mid, d, rest, hrest, htype, hm⟩
  · intro h
    rcases h with ⟨htype, hm⟩ | ⟨mid, d, rest, rfl, htype, hm⟩
    · exact ⟨[], c, calls, rfl, htype, hm⟩
    · exact ⟨c :: mid, d, rest, rfl, htype, hm⟩

theorem countP_answer_isRoundtrip (t : Tracker) (c : Call W) :
    (t.answer steadyNow c).toList.countP Line.isRoundtrip =
      if (c.serverType ≠ none ∧ t.matched c = none) ∧ t.waiting ≠ none then 1 else 0 := by
  rw [Tracker.answer]
  cases t.matched c with
  | some order =>
    rw [if_neg (by simp)]
    rfl
  | none =>
    cases c.serverType with
    | none => rfl
    | some serverType =>
      cases t.waiting with
      | none => rfl
      | some client => rfl

/-- While its ClOrdID does not come again, a pending order gets one line, from its report. -/
theorem orderLines_trace (p : Proxy) {calls : List (Call W)} {id : Bytes}
    (h : ∀ c ∈ calls, c.orders ≠ some id) :
    orderLines id (trace (analyzeStep steadyNow iteration) p calls) ≤ 1 ∧
      (0 < orderLines id (trace (analyzeStep steadyNow iteration) p calls) ↔
        p.tracker.pending id ≠ none ∧ ∃ c ∈ calls, c.reports = some id) := by
  induction calls generalizing p with
  | nil => simp [trace, orderLines]
  | cons c calls ih =>
    obtain ⟨hc, hcalls⟩ := List.forall_mem_cons.mp h
    obtain ⟨hnext, hlines⟩ := analyzeStep_tracker steadyNow iteration p c
    obtain ⟨hle, hpos⟩ := ih (analyzeStep steadyNow iteration p c).1 hcalls
    have hcount : orderLines id (trace (analyzeStep steadyNow iteration) p (c :: calls)) =
        (if c.reports = some id ∧ p.tracker.pending id ≠ none then 1 else 0) +
          orderLines id (trace (analyzeStep steadyNow iteration)
            (analyzeStep steadyNow iteration p c).1 calls) := by
      rw [← countP_answer_ofOrder steadyNow,
        ← countP_of_filter_timing hlines fun line => isTiming_of_ofOrder]
      simp [orderLines, trace]
    rw [hnext] at hpos
    simp only [Tracker.next, if_neg hc] at hpos
    rw [hcount]
    by_cases hid : c.reports = some id
    · simp only [hid, if_true, ne_eq, not_true_eq_false, false_and, iff_false] at hpos
      simp only [List.mem_cons, exists_eq_or_imp, hid, true_or, and_true, true_and]
      split_ifs with hpending
      · exact ⟨by omega, iff_of_true (by omega) hpending⟩
      · exact ⟨by omega, iff_of_false (by omega) hpending⟩
    · simp only [hid, if_false] at hpos
      simp only [List.mem_cons, exists_eq_or_imp, hid, false_or, false_and, if_false,
        Nat.zero_add]
      exact ⟨hle, hpos⟩

/-- While the client sends nothing, a waiting message gets one line, from the first answer
that is not itself matched. -/
theorem roundtripLines_trace (p : Proxy) {calls : List (Call W)}
    (h : ∀ c ∈ calls, c.clientType = none) :
    roundtripLines (trace (analyzeStep steadyNow iteration) p calls) ≤ 1 ∧
      (0 < roundtripLines (trace (analyzeStep steadyNow iteration) p calls) ↔
        p.tracker.waiting ≠ none ∧ Unmatched steadyNow p.tracker calls) := by
  induction calls generalizing p with
  | nil =>
    have hnot := not_unmatched_nil steadyNow p.tracker
    simp [trace, roundtripLines, hnot]
  | cons c calls ih =>
    obtain ⟨hc, hcalls⟩ := List.forall_mem_cons.mp h
    obtain ⟨hnext, hlines⟩ := analyzeStep_tracker steadyNow iteration p c
    obtain ⟨hle, hpos⟩ := ih (analyzeStep steadyNow iteration p c).1 hcalls
    have hcount : roundtripLines (trace (analyzeStep steadyNow iteration) p (c :: calls)) =
        (if (c.serverType ≠ none ∧ p.tracker.matched c = none) ∧ p.tracker.waiting ≠ none then 1
          else 0) + roundtripLines (trace (analyzeStep steadyNow iteration)
            (analyzeStep steadyNow iteration p c).1 calls) := by
      rw [← countP_answer_isRoundtrip steadyNow,
        ← countP_of_filter_timing hlines fun line => isTiming_of_isRoundtrip]
      simp [roundtripLines, trace]
    have hwaiting : (p.tracker.next steadyNow c).waiting =
        if c.serverType ≠ none ∧ p.tracker.matched c = none then none else p.tracker.waiting := by
      rw [Tracker.next, hc]
    rw [hnext, hwaiting] at hpos
    rw [hcount, unmatched_cons]
    by_cases hfree : c.serverType ≠ none ∧ p.tracker.matched c = none
    · simp only [if_pos hfree, ne_eq, not_true_eq_false, false_and, iff_false] at hpos
      by_cases hslot : p.tracker.waiting = none
      · rw [if_neg fun h => h.2 hslot]
        exact ⟨by omega, iff_of_false (by omega) fun h => h.1 hslot⟩
      · rw [if_pos ⟨hfree, hslot⟩]
        exact ⟨by omega, iff_of_true (by omega) ⟨hslot, Or.inl hfree⟩⟩
    · simp only [if_neg hfree] at hpos
      simp only [hfree, false_and, if_false, Nat.zero_add, false_or]
      exact ⟨hle, hpos⟩

/-- Only an order can be timed twice, by its report and by a roundtrip. -/
theorem timingsOf_le_one_iff (p : Proxy) (c : Call W) (rest : List (Call W)) :
    timingsOf (move (analyzeStep steadyNow iteration) p c)
        (trace (analyzeStep steadyNow iteration) (analyzeStep steadyNow iteration p c).1 rest) ≤ 1 ↔
      ¬ ∃ id, c.orders = some id ∧
        (∃ r ∈ rest.takeWhile (fun c => c.orders ≠ some id), r.reports = some id) ∧
        Unmatched steadyNow (p.tracker.next steadyNow c)
          (rest.takeWhile fun c => c.clientType = none) := by
  have hnext := (analyzeStep_tracker steadyNow iteration p c).1
  have htrip : ∀ q ∈ rest.takeWhile (fun c => c.clientType = none), q.clientType = none := by
    intro q hq
    have hsatisfies := List.mem_takeWhile_imp hq
    exact of_decide_eq_true hsatisfies
  obtain ⟨hle, hpos⟩ := roundtripLines_trace steadyNow iteration
    (analyzeStep steadyNow iteration p c).1 htrip
  rw [hnext] at hpos
  rw [timingsOf, trace_takeWhile (fun n : Call W => decide (n.clientType = none))]
  cases horders : c.orders with
  | none =>
    simp only [move, horders, reduceCtorEq, false_and, exists_false, not_false_eq_true, iff_true,
      Nat.zero_add]
    cases c.clientType with
    | none => exact Nat.zero_le 1
    | some msgType => exact hle
  | some id =>
    have htype := Call.clientType_of_orders horders
    have hwaiting : (p.tracker.next steadyNow c).waiting ≠ none := by
      rw [Tracker.next, htype]
      simp only
      rw [if_neg (by decide)]
      simp
    have hpending : (p.tracker.next steadyNow c).pending id ≠ none := by
      simp [Tracker.next, horders]
    have hown : ∀ q ∈ rest.takeWhile (fun c => c.orders ≠ some id), q.orders ≠ some id := by
      intro q hq
      have hsatisfies := List.mem_takeWhile_imp hq
      exact of_decide_eq_true hsatisfies
    obtain ⟨hle', hpos'⟩ := orderLines_trace steadyNow iteration
      (analyzeStep steadyNow iteration p c).1 hown
    rw [hnext, and_iff_right hpending] at hpos'
    rw [and_iff_right hwaiting] at hpos
    simp only [move, horders, htype, Option.some.injEq, exists_eq_left',
      trace_takeWhile (fun n : Call W => decide (n.orders ≠ some id))]
    rw [← hpos, ← hpos']
    omega

/-- Client messages are timed at most once exactly in the runs without such an order. -/
theorem timedOnce_iff (dict : Option Dictionary) (calls : List (Call W)) :
    TimedOnce (analysis steadyNow iteration dict calls) ↔ ¬ DoublyTimed steadyNow calls := by
  have hstate : ∀ (past : List (Call W)) (c : Call W),
      (final (analyzeStep steadyNow iteration) (Proxy.new dict) past).tracker.next steadyNow c =
        tracked steadyNow (past ++ [c]) := by
    intro past c
    rw [final_tracker, new_tracker, tracked_concat, tracked]
  constructor
  · intro honce ⟨past, order, rest, id, hcalls, hdoubly⟩
    have hsplit := (@trace_eq_append_cons_iff _ _ _ (analyzeStep steadyNow iteration)
      (Proxy.new dict) calls _ _ _).mpr ⟨past, order, rest, hcalls, rfl, rfl, rfl⟩
    rw [← hstate] at hdoubly
    apply (timingsOf_le_one_iff steadyNow iteration _ order rest).mp (honce _ _ _ hsplit)
    exact ⟨id, hdoubly⟩
  · intro hnot pre m post hsplit
    obtain ⟨past, c, rest, hcalls, _, rfl, rfl⟩ := trace_eq_append_cons_iff.mp hsplit
    apply (timingsOf_le_one_iff steadyNow iteration _ c rest).mpr
    intro ⟨id, hdoubly⟩
    rw [hstate] at hdoubly
    exact hnot ⟨past, c, rest, id, hcalls, hdoubly⟩

end Analysis

/-- A call at a given time of a clock that stands still during it. -/
def callAt (time : ℤ) (connection : ℕ) (isClientToServer : Bool) (rest : List Field) : Call ℤ :=
  ⟨connection, isClientToServer,
    ⟨wire soh ⟨8, ascii "F"⟩ rest, wireFields soh ⟨8, ascii "F"⟩ rest⟩, time⟩

/-- An order, its report and a heartbeat of the server: the order gets two lines. -/
theorem timedOnce_order_then_heartbeat :
    ¬ TimedOnce (analysis (fun t : ℤ => (t, t)) ⟨id, .refl⟩ none
      [callAt 0 0 true [⟨35, ascii "D"⟩, ⟨11, ascii "A"⟩],
        callAt 1 0 false [⟨35, ascii "8"⟩, ⟨11, ascii "A"⟩], callAt 2 0 false [⟨35, ascii "0"⟩]]) := by
  intro honce
  exact absurd (honce [] _ _ rfl) (by decide +kernel)

end Fixure
