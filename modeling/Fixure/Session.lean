import Fixure.Serializer
import Fixure.Transducer

/-!
# The FIX session

The session keeps the next sequence number of either direction and whether a logon
was seen. `Received` lists what `receiveMessage` can do with a message; the facts about
runs are read off from it. The counters are 32-bit and an increment past the largest
`int` wraps, where C++ leaves the result undefined.
-/

namespace Fixure
open Decimal Transducer

structure SessionConfig where
  beginString : Bytes := ascii "FIX.4.2"
  senderCompId : Bytes
  targetCompId : Bytes
  deriving DecidableEq

structure FixSession where
  config : SessionConfig
  nextOutSeq : Int32 := 1
  nextInSeq : Int32 := 1
  loggedOn : Bool := false
  deriving DecidableEq

inductive SessionAction
  | none
  | sendLogon
  | sendHeartbeat
  | sendReject
  | sendResendRequest
  | resetSequence
  | processApplicationMessage
  | disconnect
  deriving DecidableEq

structure ProcessResult where
  action : SessionAction := .none
  detail : Int32 := 0
  info : Bytes
  deriving DecidableEq

/-! ### Sending -/

/-- The broken-down time of `gmtime_r`; the call itself is a parameter. -/
structure Tm where
  year : ℤ
  mon : ℤ
  mday : ℤ
  hour : ℤ
  min : ℤ
  sec : ℤ

def zeroPadded (width : ℕ) (n : ℤ) : Bytes :=
  let sign : Bytes := if n < 0 then [minus] else []
  let digits := numeral n.natAbs
  sign ++ List.replicate (width - (sign ++ digits).length) 48 ++ digits

/-- `now` counts the nanoseconds of the system clock since the epoch. -/
def getSendingTime (gmtime : ℤ → Tm) (now : ℤ) : Bytes :=
  let time := now.tdiv 1000000000
  let ms := (now.tdiv 1000000).tmod 1000
  let tm := gmtime time
  (zeroPadded 4 (tm.year + 1900) ++ zeroPadded 2 (tm.mon + 1) ++ zeroPadded 2 tm.mday ++
    ascii "-" ++ zeroPadded 2 tm.hour ++ ascii ":" ++ zeroPadded 2 tm.min ++ ascii ":" ++
    zeroPadded 2 tm.sec ++ ascii "." ++ zeroPadded 3 ms).take 31

namespace FixSession

/-- The header fields put into a buffer of `bufferSize` fields. -/
def prepareHeader (s : FixSession) (msgType : Bytes) (bufferSize : ℕ) (sendingTime : Bytes) :
    List Field :=
  if bufferSize < 6 then []
  else
    let seqStr := (toChars 16 s.nextOutSeq.toInt).getD []
    [⟨8, s.config.beginString⟩, ⟨35, msgType⟩, ⟨49, s.config.senderCompId⟩,
      ⟨56, s.config.targetCompId⟩, ⟨34, seqStr⟩, ⟨52, sendingTime⟩]

def onMessageSent (s : FixSession) : FixSession := { s with nextOutSeq := s.nextOutSeq + 1 }

def setNextOutSeqNum (s : FixSession) (seq : Int32) : FixSession := { s with nextOutSeq := seq }

def setNextInSeqNum (s : FixSession) (seq : Int32) : FixSession := { s with nextInSeq := seq }

/-! ### Receiving -/

def receiveExpected (s : FixSession) (msg : FixMessage) (msgType : Bytes) (seqNum : Int32) :
    FixSession × ProcessResult :=
  let s := { s with nextInSeq := s.nextInSeq + 1 }
  if msgType = ascii "0" then (s, ⟨.none, 0, ascii "Heartbeat received"⟩)
  else if msgType = ascii "1" then (s, ⟨.sendHeartbeat, seqNum, ascii "Test Request received"⟩)
  else if msgType = ascii "2" then (s, ⟨.resetSequence, seqNum, ascii "Resend Request received"⟩)
  else if msgType = ascii "4" then
    match msg.getInt 36 with
    | some newSeq => ({ s with nextInSeq := newSeq }, ⟨.none, newSeq, ascii "Sequence reset"⟩)
    | none => (s, ⟨.sendReject, 0, ascii "SequenceReset missing NewSeqNo (36)"⟩)
  else if msgType = ascii "5" then
    ({ s with loggedOn := false }, ⟨.disconnect, 0, ascii "Logout received"⟩)
  else (s, ⟨.processApplicationMessage, 0, ascii "Application message processed"⟩)

def receiveMessage (s : FixSession) (msg : FixMessage) : FixSession × ProcessResult :=
  match msg.getField 35 with
  | none => (s, ⟨.sendReject, 0, ascii "Missing MsgType (35)"⟩)
  | some msgType =>
    match msg.getInt 34 with
    | none => (s, ⟨.sendReject, 0, ascii "Missing MsgSeqNum (34)"⟩)
    | some seqNum =>
      if !s.loggedOn then
        if msgType ≠ ascii "A" then
          (s, ⟨.disconnect, 0, ascii "First message must be Logon (35=A)"⟩)
        else
          ({ s with loggedOn := true, nextInSeq := seqNum + 1 },
            ⟨.sendLogon, seqNum, ascii "Logon processed"⟩)
      else if seqNum = s.nextInSeq then s.receiveExpected msg msgType seqNum
      else if seqNum > s.nextInSeq then
        (s, ⟨.sendResendRequest, s.nextInSeq, ascii "Gap detected"⟩)
      else if msg.getField 43 = some (ascii "Y") then
        (s, ⟨.none, 0, ascii "Duplicate message ignored"⟩)
      else (s, ⟨.disconnect, 0, ascii "Sequence number too low"⟩)

end FixSession

/-- What happens to a message with the expected number. -/
inductive ReceivedExpected (s : FixSession) (msg : FixMessage) (t : Bytes) (n : Int32) :
    FixSession → ProcessResult → Prop
  | heartbeat : t = ascii "0" → ReceivedExpected s msg t n
      { s with nextInSeq := s.nextInSeq + 1 } ⟨.none, 0, ascii "Heartbeat received"⟩
  | testRequest : t = ascii "1" → ReceivedExpected s msg t n
      { s with nextInSeq := s.nextInSeq + 1 } ⟨.sendHeartbeat, n, ascii "Test Request received"⟩
  | resendRequest : t = ascii "2" → ReceivedExpected s msg t n
      { s with nextInSeq := s.nextInSeq + 1 } ⟨.resetSequence, n, ascii "Resend Request received"⟩
  | reset {new : Int32} : t = ascii "4" → msg.getInt 36 = some new → ReceivedExpected s msg t n
      { s with nextInSeq := new } ⟨.none, new, ascii "Sequence reset"⟩
  | resetUnreadable : t = ascii "4" → msg.getInt 36 = none → ReceivedExpected s msg t n
      { s with nextInSeq := s.nextInSeq + 1 }
      ⟨.sendReject, 0, ascii "SequenceReset missing NewSeqNo (36)"⟩
  | logout : t = ascii "5" → ReceivedExpected s msg t n
      { s with nextInSeq := s.nextInSeq + 1, loggedOn := false }
      ⟨.disconnect, 0, ascii "Logout received"⟩
  | application : t ∉ [ascii "0", ascii "1", ascii "2", ascii "4", ascii "5"] →
      ReceivedExpected s msg t n { s with nextInSeq := s.nextInSeq + 1 }
        ⟨.processApplicationMessage, 0, ascii "Application message processed"⟩

/-- What the answer to an expected message says about the message. -/
structure AnswersExpected (msg : FixMessage) (t : Bytes) (r : ProcessResult) : Prop where
  noLogon : r.action ≠ .sendLogon
  noGap : r.action ≠ .sendResendRequest
  noDuplicate : r.info ≠ ascii "Duplicate message ignored"
  reject_iff : r.action = .sendReject ↔ t = ascii "4" ∧ msg.getInt 36 = none
  disconnect_iff : r.action = .disconnect ↔ t = ascii "5"

theorem ReceivedExpected.answers {s s' : FixSession} {msg : FixMessage} {t : Bytes} {n : Int32}
    {r : ProcessResult} (h : ReceivedExpected s msg t n s' r) : AnswersExpected msg t r := by
  have hother (hlogon : r.action ≠ .sendLogon) (hgap : r.action ≠ .sendResendRequest)
      (hdup : r.info ≠ ascii "Duplicate message ignored") (hreject : r.action ≠ .sendReject)
      (hstays : r.action ≠ .disconnect) (h4 : t = ascii "4" → msg.getInt 36 ≠ none)
      (h5 : t ≠ ascii "5") : AnswersExpected msg t r :=
    ⟨hlogon, hgap, hdup, iff_of_false hreject (fun ⟨ht, h36⟩ => h4 ht h36), iff_of_false hstays h5⟩
  cases h with
  | heartbeat ht =>
    subst ht
    exact hother (by simp) (by simp) (by decide) (by simp) (by simp)
      (fun h4 => absurd h4 (by decide)) (by decide)
  | testRequest ht =>
    subst ht
    exact hother (by simp) (by simp) (show ascii "Test Request received" ≠ _ by decide) (by simp)
      (by simp) (fun h4 => absurd h4 (by decide)) (by decide)
  | resendRequest ht =>
    subst ht
    exact hother (by simp) (by simp) (show ascii "Resend Request received" ≠ _ by decide) (by simp)
      (by simp) (fun h4 => absurd h4 (by decide)) (by decide)
  | reset ht h36 =>
    subst ht
    exact hother (by simp) (by simp) (show ascii "Sequence reset" ≠ _ by decide) (by simp)
      (by simp) (fun _ => by simp [h36]) (by decide)
  | resetUnreadable ht h36 =>
    subst ht
    exact ⟨by simp, by simp, by decide, by simp [h36], iff_of_false (by simp) (by decide)⟩
  | logout ht =>
    subst ht
    exact ⟨by simp, by simp, by decide,
      iff_of_false (by simp) (fun h4 => absurd h4.1 (by decide)), by simp⟩
  | application ht =>
    refine hother (by simp) (by simp) (by decide) (by simp) (by simp) ?_ ?_
    · rintro rfl
      exact absurd (by simp) ht
    · rintro rfl
      exact ht (by simp)

/-- What the session can do with a message. -/
inductive Received (s : FixSession) (msg : FixMessage) : FixSession → ProcessResult → Prop
  | missingType : msg.getField 35 = none →
      Received s msg s ⟨.sendReject, 0, ascii "Missing MsgType (35)"⟩
  | missingSeqNum {t : Bytes} : msg.getField 35 = some t → msg.getInt 34 = none →
      Received s msg s ⟨.sendReject, 0, ascii "Missing MsgSeqNum (34)"⟩
  | notLogon {t : Bytes} {n : Int32} : msg.getField 35 = some t → msg.getInt 34 = some n →
      s.loggedOn = false → t ≠ ascii "A" →
      Received s msg s ⟨.disconnect, 0, ascii "First message must be Logon (35=A)"⟩
  | logon {n : Int32} : msg.getField 35 = some (ascii "A") → msg.getInt 34 = some n →
      s.loggedOn = false → Received s msg { s with loggedOn := true, nextInSeq := n + 1 }
        ⟨.sendLogon, n, ascii "Logon processed"⟩
  | expected {t : Bytes} {s' : FixSession} {r : ProcessResult} : msg.getField 35 = some t →
      msg.getInt 34 = some s.nextInSeq → s.loggedOn = true →
      ReceivedExpected s msg t s.nextInSeq s' r → Received s msg s' r
  | gap {t : Bytes} {n : Int32} : msg.getField 35 = some t → msg.getInt 34 = some n →
      s.loggedOn = true → s.nextInSeq < n →
      Received s msg s ⟨.sendResendRequest, s.nextInSeq, ascii "Gap detected"⟩
  | duplicate {t : Bytes} {n : Int32} : msg.getField 35 = some t → msg.getInt 34 = some n →
      s.loggedOn = true → n < s.nextInSeq → msg.getField 43 = some (ascii "Y") →
      Received s msg s ⟨.none, 0, ascii "Duplicate message ignored"⟩
  | tooLow {t : Bytes} {n : Int32} : msg.getField 35 = some t → msg.getInt 34 = some n →
      s.loggedOn = true → n < s.nextInSeq → msg.getField 43 ≠ some (ascii "Y") →
      Received s msg s ⟨.disconnect, 0, ascii "Sequence number too low"⟩

theorem receiveExpected_received (s : FixSession) (msg : FixMessage) (t : Bytes) (n : Int32) :
    ReceivedExpected s msg t n (s.receiveExpected msg t n).1 (s.receiveExpected msg t n).2 := by
  rw [FixSession.receiveExpected]
  by_cases h0 : t = ascii "0"
  · rw [if_pos h0]
    exact .heartbeat h0
  by_cases h1 : t = ascii "1"
  · rw [if_neg h0, if_pos h1]
    exact .testRequest h1
  by_cases h2 : t = ascii "2"
  · rw [if_neg h0, if_neg h1, if_pos h2]
    exact .resendRequest h2
  by_cases h4 : t = ascii "4"
  · rw [if_neg h0, if_neg h1, if_neg h2, if_pos h4]
    cases h36 : msg.getInt 36 with
    | some new => exact .reset h4 h36
    | none => exact .resetUnreadable h4 h36
  rw [if_neg h0, if_neg h1, if_neg h2, if_neg h4]
  by_cases h5 : t = ascii "5"
  · rw [if_pos h5]
    exact .logout h5
  · rw [if_neg h5]
    exact .application (by simp [h0, h1, h2, h4, h5])

theorem receiveMessage_received (s : FixSession) (msg : FixMessage) :
    Received s msg (s.receiveMessage msg).1 (s.receiveMessage msg).2 := by
  rw [FixSession.receiveMessage]
  cases h35 : msg.getField 35 with
  | none => exact .missingType h35
  | some t =>
    cases h34 : msg.getInt 34 with
    | none => exact .missingSeqNum h35 h34
    | some n =>
      cases hon : s.loggedOn with
      | false =>
        by_cases hA : t = ascii "A"
        · subst hA
          exact .logon h35 h34 hon
        · simp only [Bool.not_false, if_true, ne_eq, hA, not_false_eq_true]
          exact .notLogon h35 h34 hon hA
      | true =>
        simp only [Bool.not_true, Bool.false_eq_true, if_false]
        by_cases heq : n = s.nextInSeq
        · subst heq
          rw [if_pos rfl]
          exact .expected h35 h34 hon (receiveExpected_received s msg t s.nextInSeq)
        · rw [if_neg heq]
          by_cases hgt : s.nextInSeq < n
          · rw [if_pos hgt]
            exact .gap h35 h34 hon hgt
          · have hlt : n < s.nextInSeq := by
              rw [Int32.lt_iff_toInt_lt] at hgt ⊢
              rw [← Int32.toInt_inj] at heq
              omega
            rw [if_neg hgt]
            split_ifs with hdup
            · exact .duplicate h35 h34 hon hlt hdup
            · exact .tooLow h35 h34 hon hlt hdup

end Fixure
