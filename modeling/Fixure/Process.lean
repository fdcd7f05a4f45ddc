import Mathlib.Data.List.Basic

/-!
# Processes that report events

A process takes one step at a time from a state, reports a list of events for each step
and halts where there is no step. A run is any finite number of steps. Facts about the
events ahead of a state are proved by the rule `Run.backward`, and a process that can
follow every step of another one by `Run.simulate`.
-/

namespace Fixure.Process

variable {σ ε : Type*}

abbrev Step (σ ε : Type*) := σ → Option (σ × List ε)

inductive Run (step : Step σ ε) : σ → List ε → σ → Prop
  | refl (s : σ) : Run step s [] s
  | next {s s' t : σ} {es es' : List ε} :
      step s = some (s', es) → Run step s' es' t → Run step s (es ++ es') t

def exec (step : Step σ ε) : ℕ → σ → List ε × σ
  | 0, s => ([], s)
  | n + 1, s =>
    match step s with
    | none => ([], s)
    | some (s', es) => (es ++ (exec step n s').1, (exec step n s').2)

theorem run_exec (step : Step σ ε) (n : ℕ) (s : σ) :
    Run step s (exec step n s).1 (exec step n s).2 := by
  induction n generalizing s with
  | zero => exact .refl s
  | succ n ih =>
    cases hs : step s with
    | none =>
      simp only [exec, hs]
      exact .refl s
    | some r =>
      obtain ⟨s', es⟩ := r
      simp only [exec, hs]
      exact .next hs (ih s')

/-- If a property of the events ahead holds where the run ends and is carried back over
each step, it holds at the start. -/
theorem Run.backward {step : Step σ ε} (P : σ → List ε → Prop) {s t : σ} {es : List ε}
    (h : Run step s es t) (hend : P t [])
    (hstep : ∀ {s s' es es'}, step s = some (s', es) → P s' es' → P s (es ++ es')) : P s es := by
  induction h with
  | refl s => exact hend
  | next hs _ ih => exact hstep hs (ih hend)

theorem Run.invariant {step : Step σ ε} (I : σ → Prop) {s t : σ} {es : List ε}
    (h : Run step s es t) (hs : I s) (hstep : ∀ {s s' es}, step s = some (s', es) → I s → I s') :
    I t := by
  induction h with
  | refl s => exact hs
  | next hnext _ ih => exact ih (hstep hnext hs)

/-- What holds of the events so far and the state is carried forward over a run. -/
theorem Run.forward {step : Step σ ε} (I : List ε → σ → Prop) {s t : σ} {es : List ε}
    (h : Run step s es t) (hs : I [] s)
    (hstep : ∀ {past s s' es}, step s = some (s', es) → I past s → I (past ++ es) s') : I es t := by
  have hall : ∀ past, I past s → I (past ++ es) t := by
    clear hs
    induction h with
    | refl s =>
      intro past hs
      rwa [List.append_nil]
    | next hnext _ ih =>
      intro past hs
      rw [← List.append_assoc]
      exact ih _ (hstep hnext hs)
  exact hall [] hs

theorem Run.split {step : Step σ ε} {s t : σ} {es pre post : List ε} {e : ε} (h : Run step s es t)
    (hsplit : es = pre ++ e :: post) :
    ∃ past u u' front back rest, Run step s past u ∧ step u = some (u', front ++ e :: back) ∧
      Run step u' rest t ∧ pre = past ++ front ∧ post = back ++ rest := by
  induction h generalizing pre with
  | refl s => simp at hsplit
  | @next s s' t es es' hs hrest ih =>
    have hlater : ∀ as, pre = es ++ as → es' = as ++ e :: post →
        ∃ past u u' front back rest, Run step s past u ∧ step u = some (u', front ++ e :: back) ∧
          Run step u' rest t ∧ pre = past ++ front ∧ post = back ++ rest := by
      intro as hpre hes'
      obtain ⟨past, u, u', front, back, rest, hpast, hu, hu', rfl, hpost⟩ := ih hes'
      rw [← List.append_assoc] at hpre
      exact ⟨es ++ past, u, u', front, back, rest, .next hs hpast, hu, hu', hpre, hpost⟩
    rcases List.append_eq_append_iff.mp hsplit with ⟨as, hpre, hes'⟩ | ⟨bs, hes, hbs⟩
    · exact hlater as hpre hes'
    · cases bs with
      | nil =>
        rw [List.append_nil] at hes
        exact hlater [] (by rw [hes, List.append_nil]) hbs.symm
      | cons b bs =>
        obtain ⟨rfl, hpost⟩ := List.cons.inj hbs
        rw [hes] at hs
        exact ⟨[], s, s', pre, bs, es', .refl s, hs, hrest, rfl, hpost⟩

/-- A process that answers every step of another one with the same events follows its runs. -/
theorem Run.simulate {τ : Type*} {step : Step σ ε} {step' : Step τ ε} (R : σ → τ → Prop)
    {s u : σ} {t : τ} {es : List ε} (h : Run step s es u) (hr : R s t)
    (hstep : ∀ {s s' t es}, R s t → step s = some (s', es) →
      ∃ t', step' t = some (t', es) ∧ R s' t') : ∃ v, Run step' t es v ∧ R u v := by
  induction h generalizing t with
  | refl s => exact ⟨t, .refl t, hr⟩
  | next hs _ ih =>
    obtain ⟨t', ht, hr'⟩ := hstep hr hs
    obtain ⟨v, hrun, hv⟩ := ih hr'
    exact ⟨v, .next ht hrun, hv⟩

/-- From `s` on the process halts. -/
def Ends (step : Step σ ε) (s : σ) : Prop := ∃ es t, Run step s es t ∧ step t = none

theorem Ends.halted {step : Step σ ε} {s : σ} (h : step s = none) : Ends step s :=
  ⟨[], s, .refl s, h⟩

theorem Ends.next {step : Step σ ε} {s s' : σ} {es : List ε} (hs : step s = some (s', es))
    (h : Ends step s') : Ends step s := by
  obtain ⟨later, t, hrun, ht⟩ := h
  exact ⟨_, t, .next hs hrun, ht⟩

end Fixure.Process
