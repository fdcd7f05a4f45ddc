import Fixure.Session
import Mathlib.Data.List.Range

/-!
# Runs of the session

A run feeds messages to `receiveMessage` one after another. The messages it accepts
carry consecutive numbers and the others leave no trace. Resets may move the counter
anywhere, and one of the disconnecting branches keeps the logon; both facts are stated
as the exact condition on the steps of a run.
-/

namespace Fixure
open Transducer

abbrev SessionMove := Move FixSession FixMessage ProcessResult

def receiveTrace (s : FixSession) (msgs : List FixMessage) : List SessionMove :=
  trace FixSession.receiveMessage s msgs

def receiveAll (s : FixSession) (msgs : List FixMessage) : FixSession :=
  final FixSession.receiveMessage s msgs

theorem received_of_mem {s : FixSession} {msgs : List FixMessage} {m : SessionMove}
    (hm : m ∈ receiveTrace s msgs) : Received m.before m.input m.after m.output := by
  have h := receiveMessage_received m.before m.input
  rwa [mem_trace hm] at h

def Parsed (msg : FixMessage) : Prop :=
  ∃ raw separator, FixMessage.parse raw separator = .ok msg

def readMessage (raw : Bytes) : FixMessage :=
  match FixMessage.parse raw 124 with
  | .ok msg => msg
  | .error _ => ⟨raw, []⟩

theorem parsed_readMessage {raw : Bytes} (h : (readMessage raw).fields ≠ []) :
    Parsed (readMessage raw) := by
  rw [readMessage] at h ⊢
  cases hp : FixMessage.parse raw 124 with
  | ok msg => exact ⟨raw, 124, hp⟩
  | error e => simp [hp] at h

def logonMessage : FixMessage := readMessage (ascii "8=F|9=10|35=A|34=1|10=061|")

def freshSession : FixSession where
  config := { senderCompId := ascii "S", targetCompId := ascii "T" }

theorem toInt_succ {x : Int32} (h : x.toInt < 2 ^ 31 - 1) : (x + 1).toInt = x.toInt + 1 := by
  have hlo := x.le_toInt
  rw [Int32.toInt_add]
  exact Int.bmod_eq_of_le (by simp; omega) (by simp; omega)

/-! ### Messages in order -/

/-- The answers that turn a message away: a missing header field, a gap, a duplicate. -/
def ProcessResult.declined (r : ProcessResult) : Bool :=
  (r.action = .sendReject &&
      (r.info = ascii "Missing MsgType (35)" || r.info = ascii "Missing MsgSeqNum (34)")) ||
    r.action = .sendResendRequest || r.info = ascii "Duplicate message ignored"

def accepted (moves : List SessionMove) : List SessionMove :=
  moves.filter fun m => !m.output.declined

def ResetsExpected (s : FixSession) (msg : FixMessage) : Prop :=
  msg.getField 35 = some (ascii "4") ∧ msg.getInt 34 = some s.nextInSeq

instance (s : FixSession) (msg : FixMessage) : Decidable (ResetsExpected s msg) :=
  inferInstanceAs (Decidable (_ ∧ _))

/-- The message is complete and its number lies beyond `next`. -/
def AheadOf (msg : FixMessage) (next : ℤ) : Prop :=
  msg.getField 35 ≠ none ∧ ∃ n, msg.getInt 34 = some n ∧ next < n.toInt

section Step
variable {s s' : FixSession} {msg : FixMessage} {r : ProcessResult}

theorem ordinary_step (h : Received s msg s' r) (hon : s.loggedOn = true)
    (hsmall : ∀ n, msg.getInt 34 = some n → n.toInt < 2 ^ 31 - 1)
    (hreset : ¬ ResetsExpected s msg) (hstays : r.action ≠ .disconnect) :
    s'.loggedOn = true ∧
      ((r.declined = true ∧ s' = s) ∨ (r.declined = false ∧
        msg.getInt 34 = some s.nextInSeq ∧ s'.nextInSeq.toInt = s.nextInSeq.toInt + 1)) := by
  cases h with
  | missingType _ => exact ⟨hon, Or.inl ⟨by decide, rfl⟩⟩
  | missingSeqNum _ _ => exact ⟨hon, Or.inl ⟨by decide, rfl⟩⟩
  | notLogon _ _ hoff _ => simp [hon] at hoff
  | logon _ _ hoff => simp [hon] at hoff
  | expected h35 h34 _ hexp =>
    have hsucc := toInt_succ (hsmall _ h34)
    cases hexp with
    | heartbeat _ => exact ⟨hon, Or.inr ⟨by decide, h34, hsucc⟩⟩
    | testRequest _ => exact ⟨hon, Or.inr ⟨rfl, h34, hsucc⟩⟩
    | resendRequest _ => exact ⟨hon, Or.inr ⟨rfl, h34, hsucc⟩⟩
    | reset h4 _ => exact absurd ⟨h4 ▸ h35, h34⟩ hreset
    | resetUnreadable h4 _ => exact absurd ⟨h4 ▸ h35, h34⟩ hreset
    | logout _ => exact absurd rfl hstays
    | application _ => exact ⟨hon, Or.inr ⟨by decide, h34, hsucc⟩⟩
  | gap _ _ _ _ => exact ⟨hon, Or.inl ⟨rfl, rfl⟩⟩
  | duplicate _ _ _ _ _ => exact ⟨hon, Or.inl ⟨by decide, rfl⟩⟩
  | tooLow _ _ _ _ _ => exact absurd rfl hstays

theorem aheadOf_iff {t : Bytes} {n : Int32} (h35 : msg.getField 35 = some t)
    (h34 : msg.getInt 34 = some n) (next : ℤ) : AheadOf msg next ↔ next < n.toInt := by
  simp [AheadOf, h35, h34]

theorem gap_iff (h : Received s msg s' r) (hon : s.loggedOn = true) :
    (r.action = .sendResendRequest ↔ AheadOf msg s.nextInSeq.toInt) ∧
      (r.action = .sendResendRequest → r.detail = s.nextInSeq) := by
  cases h with
  | missingType h35 => simp [AheadOf, h35]
  | missingSeqNum _ h34 => simp [AheadOf, h34]
  | notLogon _ _ hoff _ => simp [hon] at hoff
  | logon _ _ hoff => simp [hon] at hoff
  | expected h35 h34 _ hexp =>
    have hne := hexp.answers.noGap
    rw [aheadOf_iff h35 h34]
    exact ⟨iff_of_false hne (lt_irrefl _), fun h => absurd h hne⟩
  | gap h35 h34 _ hlt =>
    rw [aheadOf_iff h35 h34, ← Int32.lt_iff_toInt_lt]
    exact ⟨iff_of_true rfl hlt, fun _ => rfl⟩
  | duplicate h35 h34 _ hlt _ =>
    rw [Int32.lt_iff_toInt_lt] at hlt
    rw [aheadOf_iff h35 h34]
    exact ⟨iff_of_false (by simp) (by omega), by simp⟩
  | tooLow h35 h34 _ hlt _ =>
    rw [Int32.lt_iff_toInt_lt] at hlt
    rw [aheadOf_iff h35 h34]
    exact ⟨iff_of_false (by simp) (by omega), by simp⟩

end Step

/-- No step of the run resets the counter, ends the logon or overflows. -/
structure Ordinary (m : SessionMove) : Prop where
  small : ∀ n, m.input.getInt 34 = some n → n.toInt < 2 ^ 31 - 1
  noReset : ¬ ResetsExpected m.before m.input
  stays : m.output.action ≠ .disconnect

theorem Ordinary.step {s : FixSession} {msgs : List FixMessage} {m : SessionMove}
    (hm : m ∈ receiveTrace s msgs) (ho : Ordinary m) (hon : m.before.loggedOn = true) :
    m.after.loggedOn = true ∧
      ((m.output.declined = true ∧ m.after = m.before) ∨ (m.output.declined = false ∧
        m.input.getInt 34 = some m.before.nextInSeq ∧
          m.after.nextInSeq.toInt = m.before.nextInSeq.toInt + 1)) :=
  ordinary_step (received_of_mem hm) hon ho.small ho.noReset ho.stays

theorem ordinary_loggedOn {s : FixSession} {msgs : List FixMessage} (hon : s.loggedOn = true)
    (ho : ∀ m ∈ receiveTrace s msgs, Ordinary m) :
    ∀ m ∈ receiveTrace s msgs, m.before.loggedOn = true := by
  have h := trace_invariant (fun s : FixSession => s.loggedOn = true) hon
    fun m hm hb => ((ho m hm).step hm hb).1
  exact fun m hm => (h.1 m hm).1

theorem accepted_run {s : FixSession} {msgs : List FixMessage} (hon : s.loggedOn = true)
    (ho : ∀ m ∈ receiveTrace s msgs, Ordinary m) :
    (accepted (receiveTrace s msgs)).map (fun m => (m.input.getInt 34).map Int32.toInt) =
        (List.range (accepted (receiveTrace s msgs)).length).map
          (fun k : ℕ => some (s.nextInSeq.toInt + k)) ∧
      (receiveAll s msgs).nextInSeq.toInt =
        s.nextInSeq.toInt + (accepted (receiveTrace s msgs)).length := by
  induction msgs generalizing s with
  | nil => exact ⟨rfl, (add_zero _).symm⟩
  | cons msg msgs ih =>
    let m : SessionMove := ⟨s, msg, (s.receiveMessage msg).2, (s.receiveMessage msg).1⟩
    have htrace : receiveTrace s (msg :: msgs) = m :: receiveTrace m.after msgs := rfl
    have hall : receiveAll s (msg :: msgs) = receiveAll m.after msgs := rfl
    rw [htrace, List.forall_mem_cons] at ho
    have hm : m ∈ receiveTrace s (msg :: msgs) := List.mem_cons_self
    obtain ⟨hon', hstep⟩ := ho.1.step hm hon
    obtain ⟨hseqs, hnext⟩ := ih hon' ho.2
    rw [htrace, hall]
    rcases hstep with ⟨hdeclined, hstay⟩ | ⟨hdeclined, hseq, hsucc⟩
    · have htail : accepted (m :: receiveTrace m.after msgs) =
          accepted (receiveTrace m.after msgs) := List.filter_cons_of_neg (by simp [hdeclined])
      have hsame : m.after = s := hstay
      rw [htail]
      rw [hsame] at hseqs hnext ⊢
      exact ⟨hseqs, hnext⟩
    · have hhead : accepted (m :: receiveTrace m.after msgs) =
          m :: accepted (receiveTrace m.after msgs) := List.filter_cons_of_pos (by simp [hdeclined])
      have hstart : m.after.nextInSeq.toInt = s.nextInSeq.toInt + 1 := hsucc
      have hnumber : m.input.getInt 34 = some s.nextInSeq := hseq
      rw [hhead, List.map_cons, hseqs, hnext, hstart, List.length_cons, List.range_succ_eq_map,
        List.map_cons, List.map_map, hnumber]
      constructor
      · congr 1
        · simp
        · refine List.map_congr_left fun k _ => ?_
          simp
          omega
      · push_cast
        omega

/-- A logged-on session accepts the numbers from the expected one on, each once and in
order, answers what lies beyond with the next missing number, and forgets all it declined. -/
theorem receiveTrace_inOrder {s : FixSession} {msgs : List FixMessage} (hon : s.loggedOn = true)
    (hsmall : ∀ msg ∈ msgs, ∀ n, msg.getInt 34 = some n → n.toInt < 2 ^ 31 - 1)
    (hreset : ∀ m ∈ receiveTrace s msgs, ¬ ResetsExpected m.before m.input)
    (hstays : ∀ m ∈ receiveTrace s msgs, m.output.action ≠ .disconnect) :
    let taken := accepted (receiveTrace s msgs)
    taken.map (fun m => (m.input.getInt 34).map Int32.toInt) =
        (List.range taken.length).map (fun k : ℕ => some (s.nextInSeq.toInt + k)) ∧
      (receiveAll s msgs).nextInSeq.toInt = s.nextInSeq.toInt + taken.length ∧
      (∀ earlier m later, receiveTrace s msgs = earlier ++ m :: later →
        let missing := s.nextInSeq.toInt + (accepted earlier).length
        (m.output.action = .sendResendRequest ↔ AheadOf m.input missing) ∧
          (m.output.action = .sendResendRequest → m.output.detail.toInt = missing)) ∧
      receiveTrace s (taken.map Move.input) = taken ∧
      receiveAll s (taken.map Move.input) = receiveAll s msgs := by
  have hinput : ∀ m ∈ receiveTrace s msgs, m.input ∈ msgs := by
    intro m hm
    have hmem := List.mem_map_of_mem (f := Move.input) hm
    rwa [receiveTrace, trace_input] at hmem
  have ho : ∀ m ∈ receiveTrace s msgs, Ordinary m := fun m hm =>
    ⟨hsmall m.input (hinput m hm), hreset m hm, hstays m hm⟩
  have hbefore := ordinary_loggedOn hon ho
  obtain ⟨hseqs, hnext⟩ := accepted_run hon ho
  refine ⟨hseqs, hnext, fun earlier m later hsplit => ?_, ?_⟩
  · have hmem : ∀ x ∈ earlier ++ m :: later, x ∈ receiveTrace s msgs := fun x hx => hsplit ▸ hx
    have hm := hmem m (by simp)
    -- the counter in front of `m` counts what was accepted before it
    obtain ⟨hearlier, hstate⟩ := trace_split hsplit
    have hrun : receiveTrace s (earlier.map Move.input) = earlier := hearlier
    have hordinary : ∀ x ∈ receiveTrace s (earlier.map Move.input), Ordinary x := by
      rw [hrun]
      exact fun x hx => ho x (hmem x (List.mem_append_left _ hx))
    have hcount := (accepted_run hon hordinary).2
    rw [hrun, receiveAll, hstate] at hcount
    obtain ⟨hiff, hdetail⟩ := gap_iff (received_of_mem hm) (hbefore m hm)
    rw [hcount] at hiff
    exact ⟨hiff, fun ha => by rw [hdetail ha, hcount]⟩
  · refine trace_delete fun m hm hkeep => ?_
    have hdeclined : m.output.declined = true := by simpa using hkeep
    rcases ((ho m hm).step hm (hbefore m hm)).2 with h | h
    · exact h.2
    · rw [hdeclined] at h
      cases h.1

/-- A gap, a message without its number and a duplicate between two orders. -/
def mixedRun : List FixMessage :=
  [readMessage (ascii "8=F|9=10|35=D|34=2|10=065|"),
    readMessage (ascii "8=F|9=10|35=D|34=5|10=068|"), readMessage (ascii "8=F|9=5|35=D|10=195|"),
    readMessage (ascii "8=F|9=15|35=0|34=1|43=Y|10=170|"),
    readMessage (ascii "8=F|9=10|35=D|34=3|10=066|")]

theorem receiveTrace_inOrder_mixed :
    let s := (freshSession.receiveMessage logonMessage).1
    let taken := accepted (receiveTrace s mixedRun)
    taken.map (fun m => (m.input.getInt 34).map Int32.toInt) =
        (List.range taken.length).map (fun k : ℕ => some (s.nextInSeq.toInt + k)) ∧
      (receiveAll s mixedRun).nextInSeq.toInt = s.nextInSeq.toInt + taken.length ∧
      (∀ earlier m later, receiveTrace s mixedRun = earlier ++ m :: later →
        let missing := s.nextInSeq.toInt + (accepted earlier).length
        (m.output.action = .sendResendRequest ↔ AheadOf m.input missing) ∧
          (m.output.action = .sendResendRequest → m.output.detail.toInt = missing)) ∧
      receiveTrace s (taken.map Move.input) = taken ∧
      receiveAll s (taken.map Move.input) = receiveAll s mixedRun := by
  have hsmall : ∀ msg ∈ mixedRun, (msg.getInt 34).all (fun n => n.toInt < 2 ^ 31 - 1) = true := by
    decide
  refine receiveTrace_inOrder (by decide) (fun msg hmsg n hn => ?_) (by decide) (by decide)
  have hall := hsmall msg hmsg
  rw [hn] at hall
  exact of_decide_eq_true hall

/-! ### Resets and the order of delivery -/

theorem le_succ_iff {x : Int32} : x ≤ x + 1 ↔ x < Int32.maxValue := by
  have hlo := x.le_toInt
  have hhi := x.toInt_lt
  have hmax : Int32.maxValue.toInt = 2 ^ 31 - 1 := rfl
  rw [Int32.le_iff_toInt_le, Int32.lt_iff_toInt_lt, hmax]
  by_cases h : x.toInt < 2 ^ 31 - 1
  · rw [toInt_succ h]
    omega
  · obtain rfl : x = Int32.maxValue := by
      rw [← Int32.toInt_inj, hmax]
      omega
    decide

theorem lt_succ_of_le_succ {x : Int32} (h : x ≤ x + 1) : x < x + 1 := by
  have hmax := le_succ_iff.mp h
  have hval : Int32.maxValue.toInt = 2 ^ 31 - 1 := rfl
  rw [Int32.lt_iff_toInt_lt, hval] at hmax
  rw [Int32.lt_iff_toInt_lt, toInt_succ hmax]
  omega

def delivered (moves : List SessionMove) : List Int32 :=
  moves.filterMap fun m =>
    if m.output.action = .processApplicationMessage then m.input.getInt 34 else none

def resetTarget (msg : FixMessage) : Option Int32 :=
  if msg.getField 35 = some (ascii "4") then msg.getInt 36 else none

/-- If the message has the expected number, it is no reset to a lower one, and the number
is not the largest `int`. -/
def Advances (s : FixSession) (msg : FixMessage) : Prop :=
  msg.getField 35 ≠ none → msg.getInt 34 = some s.nextInSeq →
    match resetTarget msg with
    | some new => s.nextInSeq ≤ new
    | none => s.nextInSeq < Int32.maxValue

section Step
variable {s s' : FixSession} {msg : FixMessage} {r : ProcessResult}

theorem advances_of_lt {n : Int32} (h34 : msg.getInt 34 = some n)
    (hne : s.nextInSeq < n ∨ n < s.nextInSeq) : Advances s msg := by
  intro _ h
  obtain rfl := Option.some.inj (h34.symm.trans h)
  exact absurd hne (by simp)

theorem advances_expected {t : Bytes} (h35 : msg.getField 35 = some t)
    (h34 : msg.getInt 34 = some s.nextInSeq) (hno : resetTarget msg = none) :
    Advances s msg ↔ s.nextInSeq ≤ s.nextInSeq + 1 := by
  simp [Advances, h35, h34, hno, le_succ_iff]

theorem resetTarget_of_ne {t : Bytes} (h35 : msg.getField 35 = some t) (ht : t ≠ ascii "4") :
    resetTarget msg = none := by
  simp [resetTarget, h35, ht]

theorem resetTarget_eq (h35 : msg.getField 35 = some (ascii "4")) :
    resetTarget msg = msg.getInt 36 := by
  simp [resetTarget, h35]

theorem expected_step {t : Bytes} (h : ReceivedExpected s msg t s.nextInSeq s' r)
    (h35 : msg.getField 35 = some t) (h34 : msg.getInt 34 = some s.nextInSeq)
    (hstays : r.action ≠ .disconnect) :
    s'.loggedOn = s.loggedOn ∧ (Advances s msg ↔ s.nextInSeq ≤ s'.nextInSeq) ∧
      (r.action = .processApplicationMessage → s'.nextInSeq = s.nextInSeq + 1) := by
  cases h with
  | heartbeat ht =>
    have hno := resetTarget_of_ne h35 (by rw [ht]; decide)
    exact ⟨rfl, advances_expected h35 h34 hno, fun _ => rfl⟩
  | testRequest ht =>
    have hno := resetTarget_of_ne h35 (by rw [ht]; decide)
    exact ⟨rfl, advances_expected h35 h34 hno, fun _ => rfl⟩
  | resendRequest ht =>
    have hno := resetTarget_of_ne h35 (by rw [ht]; decide)
    exact ⟨rfl, advances_expected h35 h34 hno, fun _ => rfl⟩
  | reset ht h36 =>
    have hnew := (resetTarget_eq (ht ▸ h35)).trans h36
    refine ⟨rfl, ?_, fun h => by cases h⟩
    simp [Advances, h35, h34, hnew]
  | resetUnreadable ht h36 =>
    have hno := (resetTarget_eq (ht ▸ h35)).trans h36
    exact ⟨rfl, advances_expected h35 h34 hno, fun _ => rfl⟩
  | logout _ => exact absurd rfl hstays
  | application ht =>
    have hno := resetTarget_of_ne h35 (by simp at ht; exact ht.2.2.2.1)
    exact ⟨rfl, advances_expected h35 h34 hno, fun _ => rfl⟩

theorem delivery_step (h : Received s msg s' r) (hon : s.loggedOn = true)
    (hstays : r.action ≠ .disconnect) :
    s'.loggedOn = true ∧ (Advances s msg ↔ s.nextInSeq ≤ s'.nextInSeq) ∧
      (r.action = .processApplicationMessage →
        msg.getInt 34 = some s.nextInSeq ∧ s'.nextInSeq = s.nextInSeq + 1) := by
  have hrefl : s.nextInSeq ≤ s.nextInSeq := Int32.le_refl _
  cases h with
  | missingType h35 =>
    exact ⟨hon, iff_of_true (fun h => absurd h35 h) hrefl, fun h => by cases h⟩
  | missingSeqNum _ h34 =>
    exact ⟨hon, iff_of_true (fun _ h => by simp [h34] at h) hrefl, fun h => by cases h⟩
  | notLogon _ _ hoff _ => simp [hon] at hoff
  | logon _ _ hoff => simp [hon] at hoff
  | expected h35 h34 _ hexp =>
    obtain ⟨hon', hadvances, hnext⟩ := expected_step hexp h35 h34 hstays
    exact ⟨hon'.trans hon, hadvances, fun h => ⟨h34, hnext h⟩⟩
  | gap _ h34 _ hlt =>
    exact ⟨hon, iff_of_true (advances_of_lt h34 (Or.inl hlt)) hrefl, fun h => by cases h⟩
  | duplicate _ h34 _ hlt _ =>
    exact ⟨hon, iff_of_true (advances_of_lt h34 (Or.inr hlt)) hrefl, fun h => by cases h⟩
  | tooLow _ _ _ _ _ => exact absurd rfl hstays

end Step

theorem delivery_run {s : FixSession} {msgs : List FixMessage} (hon : s.loggedOn = true)
    (hstays : ∀ m ∈ receiveTrace s msgs, m.output.action ≠ .disconnect)
    (hmono : ∀ m ∈ receiveTrace s msgs, m.before.nextInSeq ≤ m.after.nextInSeq) :
    (∀ n ∈ delivered (receiveTrace s msgs), s.nextInSeq ≤ n) ∧
      (delivered (receiveTrace s msgs)).Pairwise (· < ·) := by
  induction msgs generalizing s with
  | nil => exact ⟨fun n hn => absurd hn List.not_mem_nil, List.Pairwise.nil⟩
  | cons msg msgs ih =>
    let m : SessionMove := ⟨s, msg, (s.receiveMessage msg).2, (s.receiveMessage msg).1⟩
    have htrace : receiveTrace s (msg :: msgs) = m :: receiveTrace m.after msgs := rfl
    rw [htrace, List.forall_mem_cons] at hstays hmono
    have hm : m ∈ receiveTrace s (msg :: msgs) := List.mem_cons_self
    obtain ⟨hon', _, hnext⟩ := delivery_step (received_of_mem hm) hon hstays.1
    obtain ⟨hlater, hsorted⟩ := ih hon' hstays.2 hmono.2
    have hstep : s.nextInSeq ≤ m.after.nextInSeq := hmono.1
    rw [htrace, delivered]
    by_cases happ : m.output.action = .processApplicationMessage
    · obtain ⟨hseq, hsucc⟩ := hnext happ
      have hlt : s.nextInSeq < m.after.nextInSeq := hsucc ▸ lt_succ_of_le_succ (hsucc ▸ hstep)
      have hseq' : m.input.getInt 34 = some s.nextInSeq := hseq
      rw [List.filterMap_cons_some (by rw [if_pos happ, hseq'])]
      refine ⟨List.forall_mem_cons.mpr ⟨Int32.le_refl _, fun n hn => ?_⟩,
        List.pairwise_cons.mpr ⟨fun n hn => ?_, hsorted⟩⟩
      · exact Int32.le_trans hstep (hlater n hn)
      · exact Int32.lt_of_lt_of_le hlt (hlater n hn)
    · rw [List.filterMap_cons_none (by rw [if_neg happ])]
      exact ⟨fun n hn => Int32.le_trans hstep (hlater n hn), hsorted⟩

theorem loggedOn_of_sendLogon {s s' : FixSession} {msg : FixMessage} {r : ProcessResult}
    (h : Received s msg s' r) (hr : r.action = .sendLogon) : s'.loggedOn = true := by
  cases h with
  | logon _ _ _ => rfl
  | expected _ _ _ hexp => exact absurd hr hexp.answers.noLogon
  | _ => cases hr

/-- Between a logon and the next disconnect the deliveries are strictly increasing and the
counter never falls, exactly when no expected message is a reset to a lower number or
carries the largest `int`. -/
theorem delivered_increasing_iff {s : FixSession} {logon : FixMessage} {msgs : List FixMessage}
    (hlogon : (s.receiveMessage logon).2.action = .sendLogon)
    (hstays : ∀ m ∈ receiveTrace (s.receiveMessage logon).1 msgs, m.output.action ≠ .disconnect) :
    let moves := receiveTrace (s.receiveMessage logon).1 msgs
    ((delivered moves).Pairwise (· < ·) ∧
        ∀ m ∈ moves, m.before.nextInSeq ≤ m.after.nextInSeq) ↔
      ∀ m ∈ moves, Advances m.before m.input := by
  intro moves
  have hon := loggedOn_of_sendLogon (receiveMessage_received s logon) hlogon
  have hbefore := (trace_invariant (fun s : FixSession => s.loggedOn = true) hon
    fun m hm hb => (delivery_step (received_of_mem hm) hb (hstays m hm)).1).1
  have hstep : ∀ m ∈ moves, (Advances m.before m.input ↔
      m.before.nextInSeq ≤ m.after.nextInSeq) := fun m hm =>
    (delivery_step (received_of_mem hm) (hbefore m hm).1 (hstays m hm)).2.1
  constructor
  · exact fun h m hm => (hstep m hm).mpr (h.2 m hm)
  · intro h
    have hmono : ∀ m ∈ moves, m.before.nextInSeq ≤ m.after.nextInSeq := fun m hm =>
      (hstep m hm).mp (h m hm)
    exact ⟨(delivery_run hon hstays hmono).2, hmono⟩

/-- A reset back to 2 lets the application message 2 in a second time. -/
def resetRun : List FixMessage :=
  [readMessage (ascii "8=F|9=10|35=D|34=2|10=065|"),
    readMessage (ascii "8=F|9=15|35=4|34=3|36=2|10=139|"),
    readMessage (ascii "8=F|9=10|35=D|34=2|10=065|")]

theorem delivered_increasing_reset :
    ¬ ∀ (s : FixSession) (logon : FixMessage) (msgs : List FixMessage),
      (∀ msg ∈ logon :: msgs, Parsed msg) → (s.receiveMessage logon).2.action = .sendLogon →
      (∀ m ∈ receiveTrace (s.receiveMessage logon).1 msgs, m.output.action ≠ .disconnect) →
      (delivered (receiveTrace (s.receiveMessage logon).1 msgs)).Pairwise (· < ·) ∧
        ∀ m ∈ receiveTrace (s.receiveMessage logon).1 msgs,
          m.before.nextInSeq ≤ m.after.nextInSeq := by
  intro h
  have hparsed : ∀ msg ∈ logonMessage :: resetRun, Parsed msg := by
    intro msg hmsg
    simp only [resetRun, List.mem_cons, List.not_mem_nil, or_false] at hmsg
    rcases hmsg with rfl | rfl | rfl | rfl
    · exact parsed_readMessage (by decide)
    · exact parsed_readMessage (by decide)
    · exact parsed_readMessage (by decide)
    · exact parsed_readMessage (by decide)
  have hrun := h freshSession logonMessage resetRun hparsed (by decide) (by decide)
  exact absurd hrun.1 (by decide)

theorem delivered_increasing_forward :
    let s := (freshSession.receiveMessage logonMessage).1
    let msgs := [readMessage (ascii "8=F|9=10|35=D|34=2|10=065|"),
      readMessage (ascii "8=F|9=15|35=4|34=3|36=5|10=142|"),
      readMessage (ascii "8=F|9=10|35=D|34=5|10=068|")]
    ((delivered (receiveTrace s msgs)).Pairwise (· < ·) ∧
        ∀ m ∈ receiveTrace s msgs, m.before.nextInSeq ≤ m.after.nextInSeq) ↔
      ∀ m ∈ receiveTrace s msgs, Advances m.before m.input :=
  delivered_increasing_iff (by decide) (by decide)

/-! ### Disconnects -/

inductive SessionOp
  | receive (msg : FixMessage)
  | messageSent
  | setNextOut (seq : Int32)
  | setNextIn (seq : Int32)

def FixSession.perform (s : FixSession) : SessionOp → FixSession × Option ProcessResult
  | .receive msg => ((s.receiveMessage msg).1, some (s.receiveMessage msg).2)
  | .messageSent => (s.onMessageSent, none)
  | .setNextOut seq => (s.setNextOutSeqNum seq, none)
  | .setNextIn seq => (s.setNextInSeqNum seq, none)

/-- The session is logged off and takes nothing but a logon. -/
def LoggedOff (s : FixSession) : Prop :=
  s.loggedOn = false ∧ ∀ msg t n, msg.getField 35 = some t → msg.getInt 34 = some n →
    (s.receiveMessage msg).2.action = if t = ascii "A" then .sendLogon else .disconnect

/-- The message has a number that was already taken and is not marked as a duplicate. -/
def TooLow (s : FixSession) (msg : FixMessage) : Prop :=
  s.loggedOn = true ∧ msg.getField 35 ≠ none ∧
    (∃ n, msg.getInt 34 = some n ∧ n < s.nextInSeq) ∧ msg.getField 43 ≠ some (ascii "Y")

theorem loggedOff_of_off {s : FixSession} (hoff : s.loggedOn = false) : LoggedOff s := by
  refine ⟨hoff, fun msg t n h35 h34 => ?_⟩
  by_cases hA : t = ascii "A"
  · simp [FixSession.receiveMessage, h35, h34, hoff, hA]
  · simp [FixSession.receiveMessage, h35, h34, hoff, hA]

theorem tooLow_iff {s : FixSession} {msg : FixMessage} {t : Bytes} {n : Int32}
    (h35 : msg.getField 35 = some t) (h34 : msg.getInt 34 = some n) :
    TooLow s msg ↔
      s.loggedOn = true ∧ n < s.nextInSeq ∧ msg.getField 43 ≠ some (ascii "Y") := by
  simp [TooLow, h35, h34]

/-- The only answer that disconnects and keeps the logon is the one to a low number. -/
theorem disconnect_step {s s' : FixSession} {msg : FixMessage} {r : ProcessResult}
    (h : Received s msg s' r) : (r.action = .disconnect → LoggedOff s') ↔ ¬ TooLow s msg := by
  cases h with
  | missingType h35 =>
    exact iff_of_true (fun h => by cases h) fun hlow => hlow.2.1 h35
  | missingSeqNum h35 h34 =>
    refine iff_of_true (fun h => by cases h) fun hlow => ?_
    obtain ⟨n, hn, _⟩ := hlow.2.2.1
    rw [h34] at hn
    cases hn
  | notLogon _ _ hoff _ =>
    exact iff_of_true (fun _ => loggedOff_of_off hoff) fun hlow => by simp [TooLow, hoff] at hlow
  | logon _ _ hoff =>
    exact iff_of_true (fun h => by cases h) fun hlow => by simp [TooLow, hoff] at hlow
  | expected h35 h34 _ hexp =>
    rw [tooLow_iff h35 h34]
    refine iff_of_true (fun hd => ?_) fun hlow => Int32.lt_irrefl hlow.2.1
    cases hexp with
    | logout _ => exact loggedOff_of_off rfl
    | _ => cases hd
  | gap h35 h34 _ hlt =>
    rw [tooLow_iff h35 h34]
    refine iff_of_true (fun h => by cases h) fun hlow => ?_
    exact Int32.lt_irrefl (Int32.lt_trans hlt hlow.2.1)
  | duplicate h35 h34 _ _ hdup =>
    rw [tooLow_iff h35 h34]
    exact iff_of_true (fun h => by cases h) fun hlow => hlow.2.2 hdup
  | tooLow h35 h34 hon hlt hdup =>
    rw [tooLow_iff h35 h34]
    refine iff_of_false (fun h => ?_) (not_not.mpr ⟨hon, hlt, hdup⟩)
    exact absurd (h rfl).1 (by rw [hon]; decide)

theorem perform_step (s : FixSession) (op : SessionOp) :
    (∀ r, (s.perform op).2 = some r → r.action = .disconnect → LoggedOff (s.perform op).1) ↔
      ∀ msg, op = .receive msg → ¬ TooLow s msg := by
  cases op with
  | receive msg =>
    simp only [FixSession.perform, Option.some.injEq, forall_eq', SessionOp.receive.injEq]
    exact disconnect_step (receiveMessage_received s msg)
  | messageSent => simp [FixSession.perform]
  | setNextOut seq => simp [FixSession.perform]
  | setNextIn seq => simp [FixSession.perform]

/-- In every run of a new session, disconnects end the logon exactly when none of them
answers a low number. -/
theorem disconnect_logsOff_iff (config : SessionConfig) (ops : List SessionOp) :
    (∀ m ∈ trace FixSession.perform { config := config } ops, ∀ r, m.output = some r →
        r.action = .disconnect → LoggedOff m.after) ↔
      ∀ m ∈ trace FixSession.perform { config := config } ops, ∀ msg, m.input = .receive msg →
        ¬ TooLow m.before msg := by
  refine forall₂_congr fun m hm => ?_
  have hstep := perform_step m.before m.input
  rwa [mem_trace hm] at hstep

theorem disconnect_keepsLogon :
    ¬ ∀ (config : SessionConfig) (ops : List SessionOp),
      (∀ msg, .receive msg ∈ ops → Parsed msg) →
      ∀ m ∈ trace FixSession.perform { config := config } ops, ∀ r, m.output = some r →
        r.action = .disconnect → LoggedOff m.after := by
  intro h
  let heartbeat := readMessage (ascii "8=F|9=10|35=0|34=1|10=044|")
  have hparsed : ∀ msg, .receive msg ∈ [SessionOp.receive logonMessage, .receive heartbeat] →
      Parsed msg := by
    intro msg hmsg
    simp only [List.mem_cons, SessionOp.receive.injEq, List.not_mem_nil, or_false] at hmsg
    rcases hmsg with rfl | rfl
    · exact parsed_readMessage (by decide)
    · exact parsed_readMessage (by decide)
  -- the heartbeat repeats the number of the logon
  have hrun := h freshSession.config _ hparsed
  let s := (freshSession.receiveMessage logonMessage).1
  have hoff := hrun ⟨s, .receive heartbeat, some (s.receiveMessage heartbeat).2,
    (s.receiveMessage heartbeat).1⟩ (List.mem_cons_of_mem _ List.mem_cons_self) _ rfl (by decide)
  exact absurd hoff.1 (by decide)

end Fixure
