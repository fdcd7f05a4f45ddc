import Mathlib.Data.List.Basic

/-!
# Mailboxes

A mailbox is a queue behind a lock, with a condition variable for those who find it empty.
A letter that is put in wakes one sleeper. Whoever is woken still has to take a turn, and may
then find that somebody else has the letter. Nobody is forgotten for that: while anybody sleeps,
as many are on their way as there are letters.
-/

namespace Fixure

structure Mailbox (ι α : Type*) where
  letters : List α := []
  sleeping : List ι := []
  woken : List ι := []
  deriving DecidableEq

namespace Mailbox
variable {ι α : Type*}

/-- One sleeper is woken if there is one; `pick` says which. -/
def notifyOne (pick : ℕ) (m : Mailbox ι α) : Mailbox ι α :=
  match m.sleeping.drop (pick % m.sleeping.length) with
  | [] => m
  | thread :: behind =>
    { m with sleeping := m.sleeping.take (pick % m.sleeping.length) ++ behind,
             woken := m.woken ++ [thread] }

def notifyAll (m : Mailbox ι α) : Mailbox ι α :=
  { m with sleeping := [], woken := m.woken ++ m.sleeping }

def put (letter : α) (pick : ℕ) (m : Mailbox ι α) : Mailbox ι α :=
  notifyOne pick { m with letters := m.letters ++ [letter] }

def take (m : Mailbox ι α) : Option α × Mailbox ι α :=
  (m.letters.head?, { m with letters := m.letters.tail })

def fallAsleep (thread : ι) (m : Mailbox ι α) : Mailbox ι α :=
  { m with sleeping := m.sleeping ++ [thread] }

def arise [DecidableEq ι] (thread : ι) (m : Mailbox ι α) : Mailbox ι α :=
  { m with sleeping := m.sleeping.erase thread, woken := m.woken.erase thread }

/-- While anybody sleeps, as many are on their way as there are letters. -/
def Attended (m : Mailbox ι α) : Prop := m.sleeping ≠ [] → m.letters.length ≤ m.woken.length

section Letters
variable {m : Mailbox ι α} {letter : α} {pick : ℕ} {thread : ι}

theorem notifyOne_cases (pick : ℕ) (m : Mailbox ι α) :
    (m.sleeping = [] ∧ m.notifyOne pick = m) ∨
      ∃ before thread behind, m.sleeping = before ++ thread :: behind ∧
        m.notifyOne pick =
          { m with sleeping := before ++ behind, woken := m.woken ++ [thread] } := by
  rw [notifyOne]
  cases hdrop : m.sleeping.drop (pick % m.sleeping.length) with
  | nil =>
    have hle := List.drop_eq_nil_iff.mp hdrop
    refine .inl ⟨?_, rfl⟩
    by_contra hne
    exact absurd (Nat.mod_lt pick (List.length_pos_iff.mpr hne)) (Nat.not_lt.mpr hle)
  | cons thread behind =>
    refine .inr ⟨_, thread, behind, ?_, rfl⟩
    rw [← hdrop, List.take_append_drop]

@[simp] theorem letters_notifyOne : (m.notifyOne pick).letters = m.letters := by
  obtain ⟨_, h⟩ | ⟨before, thread, behind, _, h⟩ := notifyOne_cases pick m
  · rw [h]
  · rw [h]

@[simp] theorem letters_put : (m.put letter pick).letters = m.letters ++ [letter] :=
  letters_notifyOne

@[simp] theorem letters_notifyAll : m.notifyAll.letters = m.letters := rfl

@[simp] theorem letters_fallAsleep : (m.fallAsleep thread).letters = m.letters := rfl

@[simp] theorem letters_arise [DecidableEq ι] : (m.arise thread).letters = m.letters := rfl

theorem toList_take_append : m.take.1.toList ++ m.take.2.letters = m.letters := by
  cases h : m.letters with
  | nil => simp [take, h]
  | cons letter letters => simp [take, h]

end Letters

section Attended
variable {m : Mailbox ι α}

theorem attended_of_quiet (h : m.sleeping = []) : m.Attended := fun hne => absurd h hne

theorem attended_of_empty (h : m.letters = []) : m.Attended := by
  intro _
  simp [h]

theorem Attended.put (h : m.Attended) (letter : α) (pick : ℕ) : (m.put letter pick).Attended := by
  obtain ⟨hquiet, hput⟩ | ⟨before, thread, behind, hsleep, hput⟩ :=
    notifyOne_cases pick { m with letters := m.letters ++ [letter] }
  · rw [Mailbox.put, hput]
    exact attended_of_quiet hquiet
  · intro _
    have hle := h (by simp only at hsleep; simp [hsleep])
    rw [Mailbox.put, hput, List.length_append, List.length_append]
    exact Nat.add_le_add_right hle 1

theorem Attended.take (h : m.Attended) : m.take.2.Attended := by
  intro hne
  have hle := h hne
  simp only [Mailbox.take, List.length_tail]
  omega

theorem Attended.fallAsleep (thread : ι) (hempty : m.letters = []) :
    (m.fallAsleep thread).Attended :=
  attended_of_empty hempty

/-- Who gets up either takes a letter or leaves an empty box behind. -/
theorem Attended.arise_take [DecidableEq ι] (h : m.Attended) (thread : ι) :
    (m.arise thread).take.2.Attended := by
  intro hne
  have hsleep : m.sleeping ≠ [] := by
    rintro hnil
    exact hne (by simp [Mailbox.take, arise, hnil])
  have hle := h hsleep
  have hwoken : m.woken.length ≤ (m.woken.erase thread).length + 1 := by
    rw [List.length_erase]
    split <;> omega
  simp only [Mailbox.take, arise, List.length_tail]
  omega

/-- With a letter in the box and somebody waiting for it, somebody is on the way. -/
theorem Attended.woken_ne_nil (h : m.Attended) (hletters : m.letters ≠ [])
    (hwaits : m.sleeping ≠ [] ∨ m.woken ≠ []) : m.woken ≠ [] := by
  rcases hwaits with hsleep | hwoken
  · have hpos := List.length_pos_iff.mpr hletters
    exact List.length_pos_iff.mp (Nat.lt_of_lt_of_le hpos (h hsleep))
  · exact hwoken

end Attended

end Mailbox

end Fixure
