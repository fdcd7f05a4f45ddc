import Mathlib.Algebra.Order.Group.Defs
import Mathlib.Algebra.Order.Group.Unbundled.Basic
import Mathlib.Algebra.Order.Group.MinMax
import Mathlib.Data.List.Induction

/-!
# Rises and leads

The rises of a sequence add up to at least as much as its maximum is ahead of its beginning. They
add up to just as much exactly when the sequence does not rise again after it has fallen.
-/

namespace Fixure.Pace

variable {α : Type*} [LinearOrder α]

/-- Where the sequence rises, it has not fallen before. -/
def RisesOnce (ts : List α) : Prop :=
  ∀ before s t, before ++ [s, t] <+: ts → s < t → ∀ r ∈ before, r ≤ s

theorem le_foldl_max (first : α) (later : List α) :
    ∀ r ∈ first :: later, r ≤ later.foldl max first := by
  induction later using List.reverseRecOn with
  | nil => simp
  | append_singleton later t ih =>
    intro r hr
    rw [List.foldl_append, List.foldl_cons, List.foldl_nil]
    rcases List.mem_append.mp (List.cons_append ▸ hr) with hr | hr
    · exact (ih r hr).trans (le_max_left _ _)
    · exact (List.mem_singleton.mp hr).trans_le (le_max_right _ _)

theorem foldl_max_mem (first : α) (later : List α) : later.foldl max first ∈ first :: later := by
  induction later using List.reverseRecOn with
  | nil => simp
  | append_singleton later t ih =>
    rw [List.foldl_append, List.foldl_cons, List.foldl_nil, ← List.cons_append, List.mem_append]
    rcases max_choice (later.foldl max first) t with hmax | hmax
    · rw [hmax]
      exact .inl ih
    · exact .inr (List.mem_singleton.mpr hmax)

theorem risesOnce_nil : RisesOnce ([] : List α) := by
  intro before s t hpre
  simp at hpre

theorem risesOnce_singleton (t : α) : RisesOnce [t] := by
  intro before s t' hpre
  have hlen := hpre.length_le
  simp at hlen

theorem risesOnce_concat (ts : List α) (s t : α) :
    RisesOnce (ts ++ [s] ++ [t]) ↔ RisesOnce (ts ++ [s]) ∧ (s < t → ∀ r ∈ ts, r ≤ s) := by
  constructor
  · intro h
    refine ⟨fun before r u hpre => h before r u (hpre.trans (List.prefix_append _ _)), ?_⟩
    exact h ts s t (by simp)
  · rintro ⟨hpast, hlast⟩ before r u hpre hrise
    rcases List.prefix_concat_iff.mp hpre with heq | hpre
    · have hsplit : (before ++ [r]) ++ [u] = (ts ++ [s]) ++ [t] := by simpa using heq
      obtain ⟨hinit, rfl⟩ := List.append_singleton_inj.mp hsplit
      obtain ⟨rfl, rfl⟩ := List.append_singleton_inj.mp hinit
      exact hlast hrise
    · exact hpast before r u hpre hrise

section Sums
variable [AddCommGroup α]

def risesFrom : α → List α → α
  | _, [] => 0
  | last, t :: ts => max 0 (t - last) + risesFrom t ts

/-- The sum of what each element is ahead of the one before it. -/
def rises : List α → α
  | [] => 0
  | first :: later => risesFrom first later

/-- How far the maximum is ahead of the first element. -/
def lead : List α → α
  | [] => 0
  | first :: later => later.foldl max first - first

theorem risesFrom_concat (last s t : α) (ts : List α) :
    risesFrom last (ts ++ [s] ++ [t]) = risesFrom last (ts ++ [s]) + max 0 (t - s) := by
  induction ts generalizing last with
  | nil => simp [risesFrom]
  | cons r ts ih =>
    simp only [List.cons_append, risesFrom] at ih ⊢
    rw [ih, add_assoc]

theorem rises_concat (ts : List α) (s t : α) :
    rises (ts ++ [s] ++ [t]) = rises (ts ++ [s]) + max 0 (t - s) := by
  cases ts with
  | nil => simp [rises, risesFrom]
  | cons first ts => exact risesFrom_concat first s t ts

variable [IsOrderedAddMonoid α]

/-- What one more element adds to the lead is what it is ahead of the maximum. -/
theorem lead_concat (ts : List α) (s : α) :
    ∃ m ∈ ts ++ [s], (∀ r ∈ ts ++ [s], r ≤ m) ∧
      ∀ t, lead (ts ++ [s] ++ [t]) = lead (ts ++ [s]) + max 0 (t - m) := by
  obtain ⟨first, later, hts⟩ := List.exists_cons_of_ne_nil (l := ts ++ [s]) (by simp)
  rw [hts]
  refine ⟨later.foldl max first, foldl_max_mem first later, le_foldl_max first later, ?_⟩
  intro t
  have hmax : max (later.foldl max first) t =
      later.foldl max first + max 0 (t - later.foldl max first) := by
    rw [← max_add_add_left, add_zero, add_sub_cancel]
  rw [List.cons_append, lead, lead, List.foldl_append, List.foldl_cons, List.foldl_nil, hmax,
    add_sub_right_comm]

theorem max_sub_eq_iff {m s t : α} (h : s ≤ m) :
    max 0 (t - m) = max 0 (t - s) ↔ (s < t → m ≤ s) := by
  constructor
  · intro heq hrise
    have hpos : 0 < t - s := sub_pos.mpr hrise
    rw [max_eq_right hpos.le] at heq
    rcases max_choice 0 (t - m) with hmax | hmax
    · exact absurd (hmax.symm.trans heq) hpos.ne
    · exact (sub_right_inj.mp (hmax.symm.trans heq)).le
  · intro hcase
    rcases lt_or_ge s t with hrise | hfall
    · rw [le_antisymm h (hcase hrise)]
    · rw [max_eq_left (sub_nonpos.mpr hfall), max_eq_left (sub_nonpos.mpr (hfall.trans h))]

theorem lead_le_rises (ts : List α) : lead ts ≤ rises ts := by
  induction ts using List.reverseRecOn with
  | nil => exact le_rfl
  | append_singleton ts t ih =>
    cases ts using List.reverseRecOn with
    | nil => simp [lead, rises, risesFrom]
    | append_singleton ts s =>
      obtain ⟨m, _, hmax, hlead⟩ := lead_concat ts s
      have hstep : max 0 (t - m) ≤ max 0 (t - s) :=
        max_le_max le_rfl (sub_le_sub_left (hmax s (by simp)) t)
      rw [hlead t, rises_concat]
      exact add_le_add ih hstep

theorem rises_eq_lead_iff (ts : List α) : rises ts = lead ts ↔ RisesOnce ts := by
  induction ts using List.reverseRecOn with
  | nil => exact iff_of_true rfl risesOnce_nil
  | append_singleton ts t ih =>
    cases ts using List.reverseRecOn with
    | nil => exact iff_of_true (by simp [lead, rises, risesFrom]) (risesOnce_singleton t)
    | append_singleton ts s =>
      obtain ⟨m, hm, hmax, hlead⟩ := lead_concat ts s
      have hs : s ≤ m := hmax s (by simp)
      have hstep : max 0 (t - m) ≤ max 0 (t - s) := max_le_max le_rfl (sub_le_sub_left hs t)
      have hall : m ≤ s ↔ ∀ r ∈ ts, r ≤ s := by
        constructor
        · intro h r hr
          exact (hmax r (List.mem_append_left _ hr)).trans h
        · intro h
          rcases List.mem_append.mp hm with hm | hm
          · exact h m hm
          · exact (List.mem_singleton.mp hm).le
      rw [hlead t, rises_concat, eq_comm, add_eq_add_iff_eq_and_eq (lead_le_rises _) hstep,
        eq_comm, ih, max_sub_eq_iff hs, hall, risesOnce_concat]

theorem lead_le_sub {ts : List α} {lo hi : α} (hts : ts ≠ []) (h : ∀ t ∈ ts, lo ≤ t ∧ t ≤ hi) :
    lead ts ≤ hi - lo := by
  obtain ⟨first, later, rfl⟩ := List.exists_cons_of_ne_nil hts
  exact sub_le_sub (h _ (foldl_max_mem first later)).2 (h first List.mem_cons_self).1

end Sums

end Fixure.Pace
