import Fixure.Environments
import Fixure.ParseDsl

/-!
# How a run ends

The runner takes up the steps one after the other, and only an EXPECT step can keep it: it reads
the clock in every round, and gives up when the clock has passed its deadline. The result tells how
far the run came, and the steps in front of that have all been carried out.
-/

namespace Fixure
open Process Decimal

/-! ### Every run ends -/

/-- A clock that can be read `left deadline` times before it shows more than the deadline. -/
structure Ticks {W : Type} (env : Environment W) (left : ℤ → W → ℕ) : Prop where
  keeps : ∀ deadline n, Follows env (fun _ w => left deadline w ≤ n)
  reads : ∀ deadline w, (env.steadyNow w).1 ≤ deadline →
    left deadline (env.steadyNow w).2 < left deadline w

/-- What a round of an EXPECT step comes to. -/
inductive Comes (fields : List Field) (startTime : ℤ) (todo : List ScenarioStep) : Control → Prop
  | passed : Comes fields startTime todo (.stepping todo)
  | again : Comes fields startTime todo (.waiting fields startTime todo)
  | failed (result : RunResult) : Comes fields startTime todo (.returned result)

section Ends
variable {W : Type} {env : Environment W} {left : ℤ → W → ℕ} {st : RunState W}
  {fields : List Field} {startTime : ℤ} {todo : List ScenarioStep}

theorem ends_returned {result : RunResult} (hc : st.control = .returned result) :
    Ends (runStep env) st := by
  apply Ends.halted
  rw [runStep, hc]

theorem ends_fail (st : RunState W) (what : Bytes) : Ends (runStep env) (st.fail what) :=
  ends_returned rfl

theorem handleMessage_comes (st : RunState W) (msg : FixMessage) :
    Comes fields startTime todo
      (handleMessage env st fields startTime todo msg).1.control := by
  rw [handleMessage]
  split_ifs
  · exact .passed
  · split
    · exact .again
    · dsimp only
      split_ifs
      · exact .again
      · exact .failed _

theorem poll_comes (st : RunState W) :
    Comes fields startTime todo (poll env st fields startTime todo).1.control := by
  simp only [poll]
  split
  · split
    · exact .again
    · exact .again
  · split
    · exact .failed _
    · split_ifs
      · exact .failed _
      · exact handleMessage_comes _ _

/-- The rounds of an EXPECT step end, if the rest of the steps does. -/
theorem ends_waiting (h : Ticks env left) (hc : st.control = .waiting fields startTime todo)
    (hrest : ∀ st' : RunState W, st'.control = .stepping todo → Ends (runStep env) st') :
    Ends (runStep env) st := by
  induction hn : left (startTime + 5000000000) st.world using Nat.strong_induction_on
    generalizing st with
  | _ n ih =>
    set clock := env.steadyNow st.world with hclock
    by_cases hlate : clock.1 - startTime > 5000000000
    · have hs : runStep env st = some (({ st with world := clock.2 } : RunState W).fail
          (ascii " (EXPECT): Timeout waiting for message"), []) := by
        simp only [runStep, hc, ← hclock, if_pos hlate]
      exact .next hs (ends_fail _ _)
    · have hs : runStep env st =
          some ({ st with world := clock.2, control := .polling fields startTime todo }, []) := by
        simp only [runStep, hc, ← hclock, if_neg hlate]
      have hless : left (startTime + 5000000000) clock.2 < n := by
        rw [← hn, hclock]
        apply h.reads
        rw [hclock] at hlate
        omega
      refine .next hs ?_
      generalize hpolling : ({ st with
        world := clock.2, control := .polling fields startTime todo } : RunState W) = polling
      have hworld : polling.world = clock.2 := by rw [← hpolling]
      have hpoll : runStep env polling = some (poll env polling fields startTime todo) := by
        rw [runStep, ← hpolling]
      have hkept : left (startTime + 5000000000) (poll env polling fields startTime todo).1.world ≤
          left (startTime + 5000000000) clock.2 :=
        @Follows.poll W env _ [] (h.keeps _ _) polling fields startTime todo (hworld ▸ le_rfl)
      refine .next hpoll ?_
      have hcomes : Comes fields startTime todo (poll env polling fields startTime todo).1.control :=
        poll_comes polling
      generalize hcontrol : (poll env polling fields startTime todo).1.control = control at hcomes
      cases hcomes with
      | passed => exact hrest _ hcontrol
      | again => exact ih _ (lt_of_le_of_lt hkept hless) hcontrol rfl
      | failed result => exact ends_returned hcontrol

theorem ends_beginStep (h : Ticks env left) (step : ScenarioStep)
    (hrest : ∀ st' : RunState W, st'.control = .stepping todo → Ends (runStep env) st') :
    Ends (runStep env) (beginStep env (st.begun todo) step todo).1 := by
  rw [beginStep]
  cases step.type with
  | connect =>
    simp only
    split
    · exact hrest _ rfl
    · exact ends_fail _ _
  | disconnect => exact hrest _ rfl
  | send =>
    cases step.fields with
    | nil => exact .halted rfl
    | cons first rest =>
      simp only [sendStep]
      split
      · exact ends_fail _ _
      · split
        · exact hrest _ rfl
        · exact ends_fail _ _
  | expect => exact ends_waiting h rfl hrest
  | mock => exact hrest _ rfl

theorem ends_stepping (h : Ticks env left) (hc : st.control = .stepping todo) :
    Ends (runStep env) st := by
  induction todo generalizing st with
  | nil =>
    have hs : runStep env st =
        some ({ st with control := .returned ⟨true, [], st.stepsExecuted⟩ }, []) := by
      rw [runStep, hc]
    exact .next hs (ends_returned rfl)
  | cons step todo ih =>
    have hs : runStep env st = some (beginStep env (st.begun todo) step todo) := by
      rw [runStep, hc]
    exact .next hs (ends_beginStep h step fun _ hc' => ih hc')

end Ends

/-! ### What was carried out -/

/-- The steps that the events show as carried out. -/
def performed (es : List Event) : List ActionType :=
  es.filterMap fun
    | .connected true => some .connect
    | .disconnected => some .disconnect
    | .sent e => if e.sender = .scenario ∧ e.ok then some .send else none
    | .satisfied _ => some .expect
    | _ => none

/-- What the steps do to the world; a mock is only registered. -/
def actions (steps : List ScenarioStep) : List ActionType :=
  (steps.map ScenarioStep.type).filter (· ≠ .mock)

/-- The text of a failure in step `n`. -/
def failure (n : ℕ) (type : ActionType) (what : Bytes) : Bytes :=
  ascii "Step " ++ numeral n ++ ascii " (" ++ type.toString ++ ascii "): " ++ what

/-- All steps were carried out, or those in front of the one that the result names. -/
inductive Tells (steps : List ScenarioStep) (es : List Event) : RunResult → Prop
  | passed : performed es = actions steps → Tells steps es ⟨true, [], steps.length⟩
  | failed {done : List ScenarioStep} {step : ScenarioStep} {todo : List ScenarioStep}
      (what : Bytes) : steps = done ++ step :: todo → performed es = actions done →
      step.type = .connect ∨ step.type = .send ∨ step.type = .expect →
      Tells steps es ⟨false, failure (done.length + 1) step.type what, done.length + 1⟩

/-- Where the run stands in its steps, and that those in front of it have been carried out. -/
def Standing {W : Type} (steps : List ScenarioStep) (past : List Event) (st : RunState W) : Prop :=
  match st.control with
  | .stepping todo =>
    ∃ done, steps = done ++ todo ∧ st.stepsExecuted = done.length ∧ performed past = actions done
  | .waiting fields _ todo | .polling fields _ todo =>
    ∃ done step, steps = done ++ step :: todo ∧ st.stepsExecuted = done.length + 1 ∧
      step.type = .expect ∧ step.fields = fields ∧ performed past = actions done
  | .returned result => Tells steps past result
  | .undefined =>
    ∃ done step todo, steps = done ++ step :: todo ∧ step.type = .send ∧ step.fields = [] ∧
      performed past = actions done

section Standing
variable {W : Type} {env : Environment W} {st st' : RunState W} {steps : List ScenarioStep}
  {past es : List Event}

theorem performed_append (past es : List Event) :
    performed (past ++ es) = performed past ++ performed es :=
  List.filterMap_append

theorem actions_concat (done : List ScenarioStep) (step : ScenarioStep) :
    actions (done ++ [step]) =
      actions done ++ if step.type = .mock then [] else [step.type] := by
  rw [actions, List.map_append, List.filter_append, List.map_singleton, List.filter_singleton]
  split_ifs with h <;> simp [actions, h]

theorem performed_concat {done : List ScenarioStep} {step : ScenarioStep}
    (hpast : performed past = actions done)
    (hes : performed es = if step.type = .mock then [] else [step.type]) :
    performed (past ++ es) = actions (done ++ [step]) := by
  rw [performed_append, actions_concat, hpast, hes]

theorem performed_quiet {done : List ScenarioStep} (hpast : performed past = actions done)
    (hes : performed es = []) : performed (past ++ es) = actions done := by
  rw [performed_append, hes, List.append_nil, hpast]

theorem Tells.of_fail {done : List ScenarioStep} {step : ScenarioStep} {todo : List ScenarioStep}
    {n : ℕ} {type : ActionType} (what : Bytes) (hsteps : steps = done ++ step :: todo)
    (hn : n = done.length + 1) (htype : step.type = type)
    (hfails : type = .connect ∨ type = .send ∨ type = .expect)
    (hes : performed es = actions done) :
    Tells steps es ⟨false, failure n type what, n⟩ := by
  subst hn htype
  exact .failed what hsteps hes hfails

theorem Standing.stepping (h : Standing steps past st) {todo : List ScenarioStep}
    (hc : st.control = .stepping todo) :
    ∃ done, steps = done ++ todo ∧ st.stepsExecuted = done.length ∧
      performed past = actions done := by
  rwa [Standing, hc] at h

theorem Standing.expecting (h : Standing steps past st) {fields : List Field} {startTime : ℤ}
    {todo : List ScenarioStep} (hc : st.control = .waiting fields startTime todo ∨
      st.control = .polling fields startTime todo) :
    ∃ done step, steps = done ++ step :: todo ∧ st.stepsExecuted = done.length + 1 ∧
      step.type = .expect ∧ step.fields = fields ∧ performed past = actions done := by
  rcases hc with hc | hc
  · rwa [Standing, hc] at h
  · rwa [Standing, hc] at h

/-- The text names the step and its action in front of what went wrong. -/
theorem Standing.of_fail {what : Bytes} {type : ActionType}
    (hnames : ascii " (" ++ type.toString ++ ascii "): " <+: what)
    (h : ∀ what, Tells steps es
      ⟨false, failure st.stepsExecuted type what, st.stepsExecuted⟩) :
    Standing steps es (st.fail what) := by
  obtain ⟨what, rfl⟩ := hnames
  have htells := h what
  simp only [failure, List.append_assoc] at htells
  simpa [Standing, RunState.fail] using htells

theorem standing_step (h : Stepped env st st' es) (hpast : Standing steps past st) :
    Standing steps (past ++ es) st' := by
  have hdone {step : ScenarioStep} {todo : List ScenarioStep}
      (hc : st.control = .stepping (step :: todo))
      (hes : performed es = if step.type = .mock then [] else [step.type]) :
      ∃ done, steps = done ++ todo ∧ st.stepsExecuted + 1 = done.length ∧
        performed (past ++ es) = actions done := by
    obtain ⟨done, rfl, hn, hdone⟩ := hpast.stepping hc
    exact ⟨done ++ [step], by simp, by simp [hn], performed_concat hdone hes⟩
  have hfailed {step : ScenarioStep} {todo : List ScenarioStep} {type : ActionType}
      (hc : st.control = .stepping (step :: todo)) (htype : step.type = type)
      (hfails : type = .connect ∨ type = .send ∨ type = .expect) (hes : performed es = [])
      (what : Bytes) : Tells steps (past ++ es)
        ⟨false, failure (st.stepsExecuted + 1) type what, st.stepsExecuted + 1⟩ := by
    obtain ⟨done, hsteps, hn, hdone⟩ := hpast.stepping hc
    exact .of_fail what hsteps (congrArg Nat.succ hn) htype hfails (performed_quiet hdone hes)
  have hagain {fields : List Field} {startTime : ℤ} {todo : List ScenarioStep}
      (hc : st.control = .waiting fields startTime todo ∨
        st.control = .polling fields startTime todo) (hes : performed es = []) :
      ∃ done step, steps = done ++ step :: todo ∧ st.stepsExecuted = done.length + 1 ∧
        step.type = .expect ∧ step.fields = fields ∧ performed (past ++ es) = actions done := by
    obtain ⟨done, step, hsteps, hn, htype, hfields, hdone⟩ := hpast.expecting hc
    exact ⟨done, step, hsteps, hn, htype, hfields, performed_quiet hdone hes⟩
  have hunmet {fields : List Field} {startTime : ℤ} {todo : List ScenarioStep}
      (hc : st.control = .waiting fields startTime todo ∨
        st.control = .polling fields startTime todo) (hes : performed es = []) (what : Bytes) :
      Tells steps (past ++ es) ⟨false, failure st.stepsExecuted .expect what, st.stepsExecuted⟩ := by
    obtain ⟨done, step, hsteps, hn, htype, _, hdone⟩ := hpast.expecting hc
    exact .of_fail what hsteps hn htype (.inr (.inr rfl)) (performed_quiet hdone hes)
  cases h with
  | finish hc =>
    obtain ⟨done, hsteps, hn, hdone⟩ := hpast.stepping hc
    rw [List.append_nil] at hsteps
    rw [List.append_nil, hn, ← hsteps]
    exact .passed (hsteps ▸ hdone)
  | connect hc ht _ => exact hdone hc (by rw [ht]; rfl)
  | connectFailed hc ht _ => exact .of_fail (by decide +kernel) (hfailed hc ht (.inl rfl) rfl)
  | disconnect hc ht => exact hdone hc (by rw [ht]; rfl)
  | sendUndefined hc ht hf =>
    obtain ⟨done, hsteps, _, hdone⟩ := hpast.stepping hc
    exact ⟨done, _, _, hsteps, ht, hf, performed_quiet hdone rfl⟩
  | sendUnwritten hc ht => exact .of_fail (by decide +kernel) (hfailed hc ht (.inr (.inl rfl)) rfl)
  | send hc ht _ _ _ hsender hok => exact hdone hc (by rw [ht]; simp [performed, hsender, hok])
  | sendFailed hc ht hok =>
    exact .of_fail (by decide +kernel) (hfailed hc ht (.inr (.inl rfl)) (by simp [performed, hok]))
  | expect hc ht =>
    obtain ⟨done, hsteps, hn, hdone⟩ := hpast.stepping hc
    exact ⟨done, _, hsteps, congrArg Nat.succ hn, ht, rfl, performed_quiet hdone rfl⟩
  | mock hc ht => exact hdone hc (by rw [ht]; rfl)
  | timeout hc => exact .of_fail (by decide +kernel) (hunmet (.inl hc) rfl)
  | inTime hc => exact hagain (.inl hc) rfl
  | receive hc _ _ => exact hagain (.inr hc) rfl
  | unparsable hc _ _ =>
    exact .of_fail (.trans (by decide +kernel) (List.prefix_append _ _)) (hunmet (.inr hc) rfl)
  | sessionDisconnect hc _ _ _ =>
    exact .of_fail (.trans (by decide +kernel) (List.prefix_append _ _)) (hunmet (.inr hc) rfl)
  | satisfy hc _ _ _ _ =>
    obtain ⟨done, step, hsteps, hn, htype, _, hdone⟩ := hpast.expecting (.inr hc)
    exact ⟨done ++ [step], by simp [hsteps], hn.trans (by simp),
      performed_concat hdone (by rw [htype]; rfl)⟩
  | respond hc _ _ _ _ hresp => exact hagain (.inr hc) (by simp [performed, hresp.sender_eq])
  | ignore hc _ _ _ _ _ => exact hagain (.inr hc) rfl
  | mismatch hc _ _ _ _ =>
    exact .of_fail (.trans (by decide +kernel) (List.prefix_append _ _)) (hunmet (.inr hc) rfl)

theorem standing_run {world : W} {session : FixSession} {mocks : List ScenarioStep}
    {scenario : Scenario}
    (hrun : Run (runStep env) (.start world session mocks scenario) es st) :
    Standing scenario.steps es st :=
  hrun.forward (fun past st => Standing scenario.steps past st) ⟨[], rfl, rfl, rfl⟩
    fun hs hpast => standing_step (runStep_stepped env hs) hpast

/-- The first undefined step is a SEND without fields, behind steps that were carried out. -/
def Undefined (steps : List ScenarioStep) (es : List Event) : Prop :=
  ∃ done step todo, steps = done ++ step :: todo ∧ step.type = .send ∧ step.fields = [] ∧
    performed es = actions done

theorem control_of_halted (hend : runStep env st = none) :
    (∃ result, st.control = .returned result) ∨ st.control = .undefined := by
  rw [runStep] at hend
  split at hend
  · cases hend
  · cases hend
  · dsimp only at hend
    split_ifs at hend
  · cases hend
  · next result hc => exact .inl ⟨result, hc⟩
  · next hc => exact .inr hc

/-- Where a run has ended, its result tells which step failed, in words that name the step, and
the connection saw exactly the steps in front of it, each once and in their order. -/
theorem run_tells {world : W} {session : FixSession} {mocks : List ScenarioStep}
    {scenario : Scenario}
    (hrun : Run (runStep env) (.start world session mocks scenario) es st)
    (hend : runStep env st = none) :
    (∃ result, st.control = .returned result ∧ Tells scenario.steps es result) ∨
      st.control = .undefined ∧ Undefined scenario.steps es := by
  have hstanding := standing_run hrun
  rcases control_of_halted hend with ⟨result, hc⟩ | hc
  · rw [Standing, hc] at hstanding
    exact .inl ⟨result, hc, hstanding⟩
  · rw [Standing, hc] at hstanding
    exact .inr ⟨hc, hstanding⟩

/-- The order does not come, so the third step times out. -/
def silentScenario : Scenario where
  name := ascii "silence"
  steps := [⟨.connect, []⟩, ⟨.send, [⟨35, ascii "A"⟩]⟩, ⟨.expect, [⟨35, ascii "D"⟩]⟩,
    ⟨.disconnect, []⟩]

def silentStart : RunState Script :=
  .start { inbox := [] } { config := { senderCompId := ascii "C", targetCompId := ascii "S" } } []
    silentScenario

def silentRun : List Event × RunState Script := exec (runStep scripted) 20 silentStart

theorem run_tells_silent :
    (∃ result, silentRun.2.control = .returned result ∧
        Tells silentScenario.steps silentRun.1 result) ∨
      silentRun.2.control = .undefined ∧ Undefined silentScenario.steps silentRun.1 := by
  have hend : (runStep scripted silentRun.2).isNone = true := by decide +kernel
  exact run_tells (run_exec (runStep scripted) 20 silentStart) (Option.isNone_iff_eq_none.mp hend)

/-- Whatever the peer sends and does not send, a run whose SEND steps have fields comes to a
result. -/
theorem run_returns {left : ℤ → W → ℕ} (h : Ticks env left) {world : W} {session : FixSession}
    {mocks : List ScenarioStep} {scenario : Scenario}
    (hsends : ∀ step ∈ scenario.steps, step.type = .send → step.fields ≠ []) :
    ∃ es st result, Run (runStep env) (.start world session mocks scenario) es st ∧
      st.control = .returned result ∧ Tells scenario.steps es result := by
  have hends : Ends (runStep env) (.start world session mocks scenario) := ends_stepping h rfl
  obtain ⟨es, st, hrun, hend⟩ := hends
  have hstanding := standing_run hrun
  rcases control_of_halted hend with ⟨result, hc⟩ | hc
  · rw [Standing, hc] at hstanding
    exact ⟨es, st, result, hrun, hc, hstanding⟩
  · rw [Standing, hc] at hstanding
    obtain ⟨done, step, todo, hsteps, htype, hf, _⟩ := hstanding
    have hmem : step ∈ scenario.steps := by simp [hsteps]
    exact absurd hf (hsends step hmem htype)

def secondsLeft (deadline : ℤ) (w : Script) : ℕ := (deadline / 1000000000 + 1 - w.seconds).toNat

theorem ticks_scripted : Ticks scripted secondsLeft where
  keeps deadline n :=
    { connect := id
      disconnect := id
      send := fun _ _ _ h => h
      receive := id
      steadyNow := fun {_ w} (h : secondsLeft deadline w ≤ n) => by
        simp only [secondsLeft, scripted] at h ⊢
        omega
      systemNow := id
      extracted := fun _ h => h
      read := fun _ h => h
      satisfied := fun _ h => h }
  reads deadline w h := by
    simp only [secondsLeft, scripted] at h ⊢
    omega

theorem run_returns_silent :
    ∃ es st result, Run (runStep scripted) silentStart es st ∧
      st.control = .returned result ∧ Tells silentScenario.steps es result :=
  run_returns ticks_scripted (by decide)

end Standing

end Fixure
