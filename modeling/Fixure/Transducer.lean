import Mathlib.Data.List.Basic
import Mathlib.Data.List.Induction

/-!
# Machines that answer every input

A machine takes one input at a time and answers it. The trace of a run records every
step with the states before and after it. An invariant of the steps holds along the
trace, and steps that leave the state alone can be removed from the run without a trace
in the other answers. `Since` looks back over a history: something happened, and from
then on something else has held.
-/

namespace Fixure.Transducer

variable {σ ι ο : Type*}

structure Move (σ ι ο : Type*) where
  before : σ
  input : ι
  output : ο
  after : σ

def trace (step : σ → ι → σ × ο) : σ → List ι → List (Move σ ι ο)
  | _, [] => []
  | s, i :: is => ⟨s, i, (step s i).2, (step s i).1⟩ :: trace step (step s i).1 is

def final (step : σ → ι → σ × ο) (s : σ) (is : List ι) : σ :=
  is.foldl (fun s i => (step s i).1) s

variable {step : σ → ι → σ × ο}

theorem trace_input (s : σ) (is : List ι) : (trace step s is).map Move.input = is := by
  induction is generalizing s with
  | nil => rfl
  | cons i is ih => rw [trace, List.map_cons, ih]

theorem trace_append (s : σ) (is js : List ι) :
    trace step s (is ++ js) = trace step s is ++ trace step (final step s is) js := by
  induction is generalizing s with
  | nil => rfl
  | cons i is ih => exact congrArg (_ :: ·) (ih (step s i).1)

theorem trace_takeWhile (q : ι → Bool) (s : σ) (is : List ι) :
    (trace step s is).takeWhile (fun m => q m.input) = trace step s (is.takeWhile q) := by
  induction is generalizing s with
  | nil => rfl
  | cons i is ih =>
    cases h : q i with
    | true => simp only [trace, List.takeWhile_cons, h, if_true, ih]
    | false => simp only [trace, List.takeWhile_cons, h, Bool.false_eq_true, if_false]

theorem trace_split {s : σ} {is : List ι} {pre post : List (Move σ ι ο)} {m : Move σ ι ο}
    (h : trace step s is = pre ++ m :: post) :
    trace step s (pre.map Move.input) = pre ∧ final step s (pre.map Move.input) = m.before := by
  induction pre generalizing s is with
  | nil =>
    cases is with
    | nil => cases h
    | cons i is =>
      obtain ⟨rfl, _⟩ := List.cons.inj h
      exact ⟨rfl, rfl⟩
  | cons m' pre ih =>
    cases is with
    | nil => cases h
    | cons i is =>
      obtain ⟨rfl, hrest⟩ := List.cons.inj h
      obtain ⟨htrace, hfinal⟩ := ih hrest
      exact ⟨congrArg (_ :: ·) htrace, hfinal⟩

/-- The step of a machine as the record of a run. -/
def move (step : σ → ι → σ × ο) (s : σ) (i : ι) : Move σ ι ο := ⟨s, i, (step s i).2, (step s i).1⟩

theorem trace_eq_append_cons_iff {s : σ} {is : List ι} {pre post : List (Move σ ι ο)}
    {m : Move σ ι ο} :
    trace step s is = pre ++ m :: post ↔
      ∃ is₁ i is₂, is = is₁ ++ i :: is₂ ∧ pre = trace step s is₁ ∧
        m = move step (final step s is₁) i ∧ post = trace step m.after is₂ := by
  constructor
  · intro h
    induction pre generalizing s is with
    | nil =>
      cases is with
      | nil => cases h
      | cons i is =>
        obtain ⟨rfl, rfl⟩ := List.cons.inj h
        exact ⟨[], i, is, rfl, rfl, rfl, rfl⟩
    | cons m' pre ih =>
      cases is with
      | nil => cases h
      | cons i is =>
        obtain ⟨rfl, hrest⟩ := List.cons.inj h
        obtain ⟨is₁, j, is₂, rfl, rfl, hm, hpost⟩ := ih hrest
        exact ⟨i :: is₁, j, is₂, rfl, rfl, hm, hpost⟩
  · intro ⟨is₁, i, is₂, his, hpre, hm, hpost⟩
    subst his hpre hm hpost
    exact trace_append s is₁ (i :: is₂)

theorem mem_trace {s : σ} {is : List ι} {m : Move σ ι ο} (h : m ∈ trace step s is) :
    step m.before m.input = (m.after, m.output) := by
  induction is generalizing s with
  | nil => exact absurd h List.not_mem_nil
  | cons i is ih =>
    rcases List.mem_cons.mp h with rfl | h
    · rfl
    · exact ih h

/-- An invariant of the steps taken holds before and after each of them, and at the end. -/
theorem trace_invariant (Inv : σ → Prop) {s : σ} {is : List ι} (hs : Inv s)
    (hstep : ∀ m ∈ trace step s is, Inv m.before → Inv m.after) :
    (∀ m ∈ trace step s is, Inv m.before ∧ Inv m.after) ∧ Inv (final step s is) := by
  induction is generalizing s with
  | nil => exact ⟨fun m hm => absurd hm List.not_mem_nil, hs⟩
  | cons i is ih =>
    rw [trace, List.forall_mem_cons] at hstep
    obtain ⟨hrest, hfinal⟩ := ih (hstep.1 hs) hstep.2
    rw [trace, List.forall_mem_cons]
    exact ⟨⟨⟨hs, hstep.1 hs⟩, hrest⟩, hfinal⟩

/-- Inputs whose steps leave the state alone can be deleted from a run. -/
theorem trace_delete {keep : Move σ ι ο → Bool} {s : σ} {is : List ι}
    (h : ∀ m ∈ trace step s is, keep m = false → m.after = m.before) :
    trace step s (((trace step s is).filter keep).map Move.input) = (trace step s is).filter keep ∧
      final step s (((trace step s is).filter keep).map Move.input) = final step s is := by
  induction is generalizing s with
  | nil => exact ⟨rfl, rfl⟩
  | cons i is ih =>
    rw [trace, List.forall_mem_cons] at h
    obtain ⟨htrace, hfinal⟩ := ih h.2
    have hlast : final step s (i :: is) = final step (step s i).1 is := rfl
    cases hk : keep ⟨s, i, (step s i).2, (step s i).1⟩ with
    | true =>
      rw [trace, List.filter_cons_of_pos hk, List.map_cons, trace, htrace]
      exact ⟨rfl, hfinal⟩
    | false =>
      have hstay : (step s i).1 = s := h.1 hk
      rw [trace, List.filter_cons_of_neg (by simp [hk]), hlast]
      rw [hstay] at htrace hfinal ⊢
      exact ⟨htrace, hfinal⟩

/-- If each step passes on in order what it takes in, so does a run. -/
theorem trace_conserves {α : Type*} (stock : σ → List α) (inflow outflow : Move σ ι ο → List α)
    (hstep : ∀ s i, outflow (move step s i) ++ stock (step s i).1 =
      stock s ++ inflow (move step s i)) (s : σ) (is : List ι) :
    (trace step s is).flatMap outflow ++ stock (final step s is) =
      stock s ++ (trace step s is).flatMap inflow := by
  induction is generalizing s with
  | nil => simp [trace, final]
  | cons i is ih =>
    have hlater : stock (final step s (i :: is)) = stock (final step (step s i).1 is) := rfl
    rw [trace, List.flatMap_cons, List.flatMap_cons, hlater, List.append_assoc, ih,
      ← List.append_assoc, ← List.append_assoc]
    exact congrArg (· ++ _) (hstep s i)

/-- A rank that a turn lowers and no input raises is used up by enough turns. -/
theorem final_rank (Inv : σ → Prop) (rank : σ → ℕ) (turn : ι → Bool) {allowed : ι → Prop}
    (hstep : ∀ s i, allowed i → Inv s →
      Inv (step s i).1 ∧ rank (step s i).1 ≤ rank s - if turn i then 1 else 0)
    {s : σ} (hs : Inv s) {is : List ι} (his : ∀ i ∈ is, allowed i) :
    Inv (final step s is) ∧ rank (final step s is) ≤ rank s - is.countP turn := by
  induction is generalizing s with
  | nil => exact ⟨hs, Nat.le_refl _⟩
  | cons i is ih =>
    rw [List.forall_mem_cons] at his
    obtain ⟨hnext, hless⟩ := hstep s i his.1 hs
    obtain ⟨hfinal, hrank⟩ := ih hnext his.2
    refine ⟨hfinal, Nat.le_trans hrank ?_⟩
    rw [List.countP_cons]
    omega

/-! ### Looking back -/

section Since
variable {α : Type*} {P Q : α → Prop}

/-- `Q` has held of everything since the last time that `P` did. -/
def Since (P Q : α → Prop) (history : List α) : Prop :=
  ∃ earlier a later, history = earlier ++ a :: later ∧ P a ∧ ∀ b ∈ later, Q b

theorem not_since_nil : ¬ Since P Q [] := by
  intro ⟨earlier, a, later, h, _⟩
  exact absurd h (by simp)

theorem since_concat {history : List α} {a : α} :
    Since P Q (history ++ [a]) ↔ P a ∨ (Q a ∧ Since P Q history) := by
  constructor
  · intro ⟨earlier, b, later, h, hb, hlater⟩
    cases later using List.reverseRecOn with
    | nil =>
      obtain ⟨_, ha⟩ := List.append_inj' h rfl
      obtain rfl := List.singleton_injective ha
      exact Or.inl hb
    | append_singleton later z =>
      rw [← List.cons_append, ← List.append_assoc] at h
      obtain ⟨rfl, ha⟩ := List.append_inj' h rfl
      obtain rfl := List.singleton_injective ha
      refine Or.inr ⟨hlater a (by simp), earlier, b, later, rfl, hb, ?_⟩
      exact fun c hc => hlater c (List.mem_append_left _ hc)
  · intro h
    rcases h with ha | ⟨ha, earlier, b, later, rfl, hb, hlater⟩
    · exact ⟨history, a, [], rfl, ha, fun b hb => absurd hb List.not_mem_nil⟩
    · refine ⟨earlier, b, later ++ [a], by simp, hb, ?_⟩
      intro c hc
      rcases List.mem_append.mp hc with hc | hc
      · exact hlater c hc
      · exact List.mem_singleton.mp hc ▸ ha

end Since

end Fixure.Transducer
