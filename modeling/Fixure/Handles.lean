import Mathlib.Data.List.Basic

/-!
# Handles

A handle is opened, used and closed again, and whoever has one at a time opens the next one only
after that. The record of such an owner falls apart into whole sessions, and into the session that
is still open.
-/

namespace Fixure.Handles

variable {ι β : Type*}

inductive HandleEvent (ι β : Type*)
  | opened (handle : ι)
  | used (handle : ι) (use : β)
  | closed (handle : ι)
  deriving DecidableEq

/-- The record ends with `current`, the open handle and its uses so far. -/
inductive Owned : List (HandleEvent ι β) → Option (ι × List β) → Prop
  | start : Owned [] none
  | opened {log} (handle : ι) : Owned log none → Owned (log ++ [.opened handle]) (some (handle, []))
  | used {log handle uses} (use : β) : Owned log (some (handle, uses)) →
      Owned (log ++ [.used handle use]) (some (handle, uses ++ [use]))
  | closed {log handle uses} : Owned log (some (handle, uses)) →
      Owned (log ++ [.closed handle]) none

/-- Whole sessions, one after the other. -/
def record (sessions : List (ι × List β)) : List (HandleEvent ι β) :=
  sessions.flatMap fun s => .opened s.1 :: s.2.map (.used s.1) ++ [.closed s.1]

def unfinished : Option (ι × List β) → List (HandleEvent ι β)
  | none => []
  | some (handle, uses) => .opened handle :: uses.map (.used handle)

variable {log : List (HandleEvent ι β)} {current : Option (ι × List β)}

theorem Owned.sessions (h : Owned log current) :
    ∃ sessions, log = record sessions ++ unfinished current := by
  induction h with
  | start => exact ⟨[], rfl⟩
  | opened handle _ ih =>
    obtain ⟨sessions, hlog⟩ := ih
    exact ⟨sessions, by simp [hlog, unfinished]⟩
  | used use _ ih =>
    obtain ⟨sessions, hlog⟩ := ih
    exact ⟨sessions, by simp [hlog, unfinished]⟩
  | @closed _ handle uses _ ih =>
    obtain ⟨sessions, hlog⟩ := ih
    exact ⟨sessions ++ [(handle, uses)], by simp [hlog, unfinished, record]⟩

end Fixure.Handles
