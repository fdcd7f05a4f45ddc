import Fixure.SessionRuns

/-!
# The numbers the session counts with

The inbound counter takes over what a logon and a reset say, and `getInt` reads any 32-bit
number there. It stays a sequence number exactly as long as a logon carries a number from 0
to `2 ^ 31 - 2`, a reset sets a positive one, and no expected message comes with `2 ^ 31 - 1`.
-/

namespace Fixure
open Transducer

def LegalSeqNum (n : ℤ) : Prop := 1 ≤ n ∧ n ≤ 2 ^ 31 - 1

instance (n : ℤ) : Decidable (LegalSeqNum n) := inferInstanceAs (Decidable (_ ∧ _))

/-- The number to which `receiveMessage` adds one, if it comes to an addition. -/
def incremented (s : FixSession) (msg : FixMessage) : Option Int32 :=
  match msg.getField 35, msg.getInt 34 with
  | some msgType, some seqNum =>
    if !s.loggedOn then
      if msgType = ascii "A" then some seqNum else none
    else if seqNum = s.nextInSeq then some s.nextInSeq
    else none
  | _, _ => none

/-- The step leaves a legal number behind, and its addition stays within 32 bits. -/
structure KeepsCounter (m : SessionMove) : Prop where
  legal : LegalSeqNum m.after.nextInSeq.toInt
  fits : ∀ n, incremented m.before m.input = some n → -2 ^ 31 ≤ n.toInt + 1 ∧ n.toInt + 1 < 2 ^ 31

structure SafeNumbers (s : FixSession) (msg : FixMessage) : Prop where
  logon : s.loggedOn = false → msg.getField 35 = some (ascii "A") →
    ∀ n, msg.getInt 34 = some n → 0 ≤ n.toInt ∧ n.toInt < 2 ^ 31 - 1
  expected : s.loggedOn = true → msg.getField 35 ≠ none → msg.getInt 34 = some s.nextInSeq →
    s.nextInSeq.toInt < 2 ^ 31 - 1 ∧ ∀ new, resetTarget msg = some new → 1 ≤ new.toInt

section Step
variable {s s' : FixSession} {msg : FixMessage} {r : ProcessResult}

theorem expected_counter {t : Bytes} (h : ReceivedExpected s msg t s.nextInSeq s' r)
    (h35 : msg.getField 35 = some t) :
    s'.nextInSeq = (resetTarget msg).getD (s.nextInSeq + 1) := by
  cases h with
  | heartbeat ht => rw [resetTarget_of_ne h35 (by rw [ht]; decide)]; rfl
  | testRequest ht => rw [resetTarget_of_ne h35 (by rw [ht]; decide)]; rfl
  | resendRequest ht => rw [resetTarget_of_ne h35 (by rw [ht]; decide)]; rfl
  | reset ht h36 => rw [resetTarget_eq (ht ▸ h35), h36]; rfl
  | resetUnreadable ht h36 => rw [resetTarget_eq (ht ▸ h35), h36]; rfl
  | logout ht => rw [resetTarget_of_ne h35 (by rw [ht]; decide)]; rfl
  | application ht =>
    rw [resetTarget_of_ne h35 (by simp at ht; exact ht.2.2.2.1)]
    rfl

/-- A step that adds nothing leaves the counter as it is and asks nothing of the message. -/
theorem counter_idle (hs : LegalSeqNum s.nextInSeq.toInt)
    (hlogon : s.loggedOn = false → msg.getField 35 = some (ascii "A") → msg.getInt 34 = none)
    (hexpected : s.loggedOn = true → msg.getField 35 ≠ none →
      msg.getInt 34 ≠ some s.nextInSeq) :
    KeepsCounter ⟨s, msg, r, s⟩ ↔ SafeNumbers s msg := by
  have hnone : incremented s msg = none := by
    rw [incremented]
    cases h35 : msg.getField 35 with
    | none => rfl
    | some t =>
      cases h34 : msg.getInt 34 with
      | none => rfl
      | some n =>
        cases hon : s.loggedOn with
        | false =>
          have hne : t ≠ ascii "A" := by
            intro ht
            have h := hlogon hon (by rw [h35, ht])
            rw [h34] at h
            cases h
          simp [hne]
        | true =>
          have hne : n ≠ s.nextInSeq := by
            intro hn
            exact hexpected hon (by simp [h35]) (by rw [h34, hn])
          simp [hne]
  apply iff_of_true
  · exact ⟨hs, by simp [hnone]⟩
  · constructor
    · intro hoff h35 n h34
      rw [hlogon hoff h35] at h34
      cases h34
    · intro hon h35 h34
      exact absurd h34 (hexpected hon h35)

theorem counter_other {n : Int32} (hs : LegalSeqNum s.nextInSeq.toInt) (hon : s.loggedOn = true)
    (h34 : msg.getInt 34 = some n) (hne : n < s.nextInSeq ∨ s.nextInSeq < n) :
    KeepsCounter ⟨s, msg, r, s⟩ ↔ SafeNumbers s msg := by
  apply counter_idle hs
  · intro hoff
    simp [hon] at hoff
  · intro _ _ h
    obtain rfl := Option.some.inj (h34.symm.trans h)
    simp at hne

theorem counter_logon {n : Int32} (h35 : msg.getField 35 = some (ascii "A"))
    (h34 : msg.getInt 34 = some n) (hoff : s.loggedOn = false) (hnext : s'.nextInSeq = n + 1) :
    KeepsCounter ⟨s, msg, r, s'⟩ ↔ SafeNumbers s msg := by
  have hadd : incremented s msg = some n := by simp [incremented, h35, h34, hoff]
  have hlo := n.le_toInt
  constructor
  · intro h
    have hn := (h.fits n hadd).2
    have hlegal : LegalSeqNum s'.nextInSeq.toInt := h.legal
    rw [hnext, toInt_succ (by omega)] at hlegal
    constructor
    · intro _ _ k hk
      obtain rfl := Option.some.inj (h34.symm.trans hk)
      exact ⟨by have := hlegal.1; omega, by omega⟩
    · intro hon
      simp [hoff] at hon
  · intro hsafe
    obtain ⟨hn, hmax⟩ := hsafe.logon hoff h35 n h34
    constructor
    · show LegalSeqNum s'.nextInSeq.toInt
      rw [hnext, toInt_succ hmax]
      exact ⟨by omega, by omega⟩
    · intro k hk
      obtain rfl := Option.some.inj (hadd.symm.trans hk)
      exact ⟨by omega, by omega⟩

/-- With the expected number one is added, and a reset has the last word. -/
theorem counter_expected {t : Bytes} (hs : LegalSeqNum s.nextInSeq.toInt)
    (h35 : msg.getField 35 = some t) (h34 : msg.getInt 34 = some s.nextInSeq)
    (hon : s.loggedOn = true)
    (hnext : s'.nextInSeq = (resetTarget msg).getD (s.nextInSeq + 1)) :
    KeepsCounter ⟨s, msg, r, s'⟩ ↔ SafeNumbers s msg := by
  have hadd : incremented s msg = some s.nextInSeq := by simp [incremented, h35, h34, hon]
  have hlo := s.nextInSeq.le_toInt
  constructor
  · intro h
    have hmax := (h.fits _ hadd).2
    have hlegal : LegalSeqNum s'.nextInSeq.toInt := h.legal
    constructor
    · intro hoff
      simp [hon] at hoff
    · intro _ _ _
      refine ⟨by omega, fun new hnew => ?_⟩
      rw [hnext, hnew] at hlegal
      exact hlegal.1
  · intro hsafe
    obtain ⟨hmax, hreset⟩ := hsafe.expected hon (by simp [h35]) h34
    constructor
    · show LegalSeqNum s'.nextInSeq.toInt
      rw [hnext]
      cases hnew : resetTarget msg with
      | none =>
        rw [Option.getD_none, toInt_succ hmax]
        exact ⟨by have := hs.1; omega, by omega⟩
      | some new =>
        have hhi := new.toInt_lt
        exact ⟨hreset new hnew, by rw [Option.getD_some]; omega⟩
    · intro k hk
      obtain rfl := Option.some.inj (hadd.symm.trans hk)
      exact ⟨by omega, by omega⟩

theorem counter_step (h : Received s msg s' r) (hs : LegalSeqNum s.nextInSeq.toInt) :
    KeepsCounter ⟨s, msg, r, s'⟩ ↔ SafeNumbers s msg := by
  cases h with
  | missingType h35 =>
    apply counter_idle hs
    · intro _ h
      rw [h35] at h
      cases h
    · intro _ h
      exact absurd h35 h
  | missingSeqNum _ h34 =>
    apply counter_idle hs
    · intro _ _
      exact h34
    · intro _ _
      simp [h34]
  | notLogon h35 _ hoff hA =>
    apply counter_idle hs
    · intro _ h
      exact absurd (Option.some.inj (h35.symm.trans h)) hA
    · intro hon
      simp [hoff] at hon
  | logon h35 h34 hoff => exact counter_logon h35 h34 hoff rfl
  | expected h35 h34 hon hexp =>
    exact counter_expected hs h35 h34 hon (expected_counter hexp h35)
  | gap _ h34 hon hlt => exact counter_other hs hon h34 (Or.inr hlt)
  | duplicate _ h34 hon hlt _ => exact counter_other hs hon h34 (Or.inl hlt)
  | tooLow _ h34 hon hlt _ => exact counter_other hs hon h34 (Or.inl hlt)

end Step

/-- In every run of a new session the counter stays legal and within 32 bits exactly when
every logon and every expected message brings a number that allows it. -/
theorem counter_legal_iff (config : SessionConfig) (msgs : List FixMessage) :
    (∀ m ∈ receiveTrace { config := config } msgs, KeepsCounter m) ↔
      ∀ m ∈ receiveTrace { config := config } msgs, SafeNumbers m.before m.input := by
  have hstep : ∀ m ∈ receiveTrace { config := config } msgs,
      LegalSeqNum m.before.nextInSeq.toInt → (KeepsCounter m ↔ SafeNumbers m.before m.input) := by
    intro m hm hs
    exact counter_step (received_of_mem hm) hs
  have hfresh : LegalSeqNum (1 : Int32).toInt := by decide
  constructor
  · intro h
    have hbefore := (trace_invariant (fun s : FixSession => LegalSeqNum s.nextInSeq.toInt) hfresh
      fun m hm _ => (h m hm).legal).1
    intro m hm
    exact (hstep m hm (hbefore m hm).1).mp (h m hm)
  · intro h
    have hbefore := (trace_invariant (fun s : FixSession => LegalSeqNum s.nextInSeq.toInt) hfresh
      fun m hm hs => ((hstep m hm hs).mpr (h m hm)).legal).1
    intro m hm
    exact (hstep m hm (hbefore m hm).1).mpr (h m hm)

/-- A logon with the largest `int`, and a session that expects one more. -/
theorem counter_legal_largest :
    ¬ ∀ (config : SessionConfig) (msgs : List FixMessage), (∀ msg ∈ msgs, Parsed msg) →
      ∀ m ∈ receiveTrace { config := config } msgs, KeepsCounter m := by
  intro h
  let logon := readMessage (ascii "8=F|9=19|35=A|34=2147483647|10=035|")
  have hparsed : ∀ msg ∈ [logon], Parsed msg := by
    intro msg hmsg
    rw [List.mem_singleton.mp hmsg]
    exact parsed_readMessage (by decide)
  have hlegal := (h freshSession.config [logon] hparsed _ List.mem_cons_self).legal
  exact absurd hlegal (by decide)

end Fixure
