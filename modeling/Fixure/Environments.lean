import Fixure.Runner

/-!
# What a run does to the world

The runner touches the world only through the calls of its environment, and it reports all of
them but the readings of the clocks. So what the calls keep of the events so far and the world
holds along every run, whatever the scenario and the messages are.
-/

namespace Fixure
open Process

/-- `J` is kept by the calls of the environment, each with the event that reports it. -/
structure Follows {W : Type} (env : Environment W) (J : List Event → W → Prop) : Prop where
  connect {past w} : J past w → J (past ++ [.connected (env.connect w).1]) (env.connect w).2
  disconnect {past w} : J past w → J (past ++ [.disconnected]) (env.disconnect w)
  send {past w} (sender : Sender) (fields : List Field) (text : Bytes) : J past w →
    J (past ++ [.sent ⟨sender, fields, text, (env.send w text).1⟩]) (env.send w text).2
  receive {past w} : J past w →
    J (past ++ [.received (env.receive w 500).1]) (env.receive w 500).2
  steadyNow {past w} : J past w → J past (env.steadyNow w).2
  systemNow {past w} : J past w → J past (env.systemNow w).2
  extracted {past w} (raw : Bytes) : J past w → J (past ++ [.extracted raw]) w
  read {past w} (reading : Reading) : J past w → J (past ++ [.read reading]) w
  satisfied {past w} (msg : FixMessage) : J past w → J (past ++ [.satisfied msg]) w

section Follows
variable {W : Type} {env : Environment W} {J : List Event → W → Prop} {past : List Event}

theorem Follows.processMocks (h : Follows env J) (msg : FixMessage) (rules : List ScenarioStep)
    {world : W} (session : FixSession) (hJ : J past world) :
    J (past ++ (Fixure.processMocks env msg rules world session).2.2.2)
      (Fixure.processMocks env msg rules world session).2.1 := by
  induction rules generalizing world with
  | nil => simpa [Fixure.processMocks] using hJ
  | cons rule rules ih =>
    cases hf : rule.fields with
    | nil =>
      simp only [Fixure.processMocks, hf]
      exact ih hJ
    | cons trigger response =>
      simp only [Fixure.processMocks, hf]
      split_ifs with htrigger
      · split
        · exact h.send .mock _ _ (h.systemNow hJ)
        · exact ih (h.systemNow hJ)
      · exact ih hJ

theorem Follows.sendStep (h : Follows env J) (st : RunState W) (first : Field)
    (fields : List Field) (hJ : J past st.world) :
    J (past ++ (Fixure.sendStep env st first fields).2)
      (Fixure.sendStep env st first fields).1.world := by
  simp only [Fixure.sendStep]
  split
  · simpa [RunState.fail] using h.systemNow hJ
  · next text _ =>
    have hsend := h.send .scenario (outgoingFields st.session
      (if first.tag = 35 then first.value else ascii "0")
      (getSendingTime env.gmtime (env.systemNow st.world).1) fields) text (h.systemNow hJ)
    split
    · next heq =>
      rw [heq] at hsend
      exact hsend
    · next heq =>
      rw [heq] at hsend
      exact hsend

theorem Follows.beginStep (h : Follows env J) (st : RunState W) (step : ScenarioStep)
    (todo : List ScenarioStep) (hJ : J past st.world) :
    J (past ++ (Fixure.beginStep env st step todo).2)
      (Fixure.beginStep env st step todo).1.world := by
  simp only [Fixure.beginStep]
  cases step.type with
  | connect =>
    have hconnect := h.connect hJ
    simp only
    split
    · next heq =>
      rw [heq] at hconnect
      exact hconnect
    · next heq =>
      rw [heq] at hconnect
      exact hconnect
  | disconnect => exact h.disconnect hJ
  | send =>
    cases step.fields with
    | nil => simpa using hJ
    | cons first rest => exact h.sendStep st first _ hJ
  | expect => simpa using h.steadyNow hJ
  | mock => simpa using hJ

theorem Follows.handleMessage (h : Follows env J) (st : RunState W) (fields : List Field)
    (startTime : ℤ) (todo : List ScenarioStep) (msg : FixMessage) (hJ : J past st.world) :
    J (past ++ (Fixure.handleMessage env st fields startTime todo msg).2)
      (Fixure.handleMessage env st fields startTime todo msg).1.world := by
  have hmocks := h.processMocks msg st.activeMocks st.session hJ
  rw [Fixure.handleMessage]
  split_ifs
  · exact h.satisfied msg hJ
  · split
    · next heq =>
      rw [heq] at hmocks
      exact hmocks
    · next heq =>
      rw [heq] at hmocks
      dsimp only
      split_ifs
      · exact hmocks
      · exact hmocks

theorem Follows.poll (h : Follows env J) (st : RunState W) (fields : List Field)
    (startTime : ℤ) (todo : List ScenarioStep) (hJ : J past st.world) :
    J (past ++ (Fixure.poll env st fields startTime todo).2)
      (Fixure.poll env st fields startTime todo).1.world := by
  have hreceive := h.receive hJ
  simp only [Fixure.poll]
  split
  · split
    · next heq =>
      rw [heq] at hreceive
      exact hreceive
    · next heq =>
      rw [heq] at hreceive
      exact hreceive
  · next raw buffer _ =>
    split
    · exact h.extracted raw hJ
    · next msg _ =>
      have hread := h.read (st.reading raw msg) (h.extracted raw hJ)
      split_ifs
      · simpa [RunState.fail, RunState.reading] using hread
      · have hhandled := h.handleMessage (st.shown buffer msg) fields startTime todo msg hread
        simpa [RunState.reading, RunState.shown] using hhandled

theorem Follows.runStep (h : Follows env J) {st st' : RunState W} {es : List Event}
    (hs : Fixure.runStep env st = some (st', es)) (hJ : J past st.world) :
    J (past ++ es) st'.world := by
  rw [Fixure.runStep] at hs
  split at hs
  · obtain ⟨rfl, rfl⟩ := Prod.mk.inj (Option.some.inj hs)
    simpa using hJ
  · next step todo _ =>
    have hbegin := h.beginStep (st.begun todo) step todo hJ
    rwa [Option.some.inj hs] at hbegin
  · dsimp only at hs
    split_ifs at hs
    · obtain ⟨rfl, rfl⟩ := Prod.mk.inj (Option.some.inj hs)
      simpa [RunState.fail] using h.steadyNow hJ
    · obtain ⟨rfl, rfl⟩ := Prod.mk.inj (Option.some.inj hs)
      simpa using h.steadyNow hJ
  · next fields startTime todo _ =>
    have hpoll := h.poll st fields startTime todo hJ
    rwa [Option.some.inj hs] at hpoll
  · cases hs
  · cases hs

theorem Follows.run (h : Follows env J) {st st' : RunState W} {es : List Event}
    (hrun : Run (Fixure.runStep env) st es st') (hJ : J [] st.world) : J es st'.world :=
  hrun.forward (fun past st => J past st.world) hJ fun hs hpast => h.runStep hs hpast

end Follows

end Fixure
