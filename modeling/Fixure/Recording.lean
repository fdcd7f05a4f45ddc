import Fixure.Delays
import Fixure.Delivery

/-!
# Replaying what was recorded

Whether or not it preserves the timing, a replay sends the messages of its log in their order and
each once, up to the first one that the connection refuses. So from a log of what one runner has
sent, another runner hears what it would have heard from the first.
-/

namespace Fixure
open Process Decimal

/-! ### The messages that are sent -/

/-- The message that is sent, and whether the connection takes it. -/
def ReplayEvent.attempt : ReplayEvent → Option (Bytes × Bool)
  | .slept _ => none
  | .sent line ok => some (line, ok)

def attempts (events : List ReplayEvent) : List (Bytes × Bool) :=
  events.filterMap ReplayEvent.attempt

/-- After `n` messages, either all of `ms` are taken, or the first one that is not ends the
replay. -/
inductive Replayed (n : ℕ) (ms : List Bytes) : ReplayResult → List (Bytes × Bool) → Prop
  | complete : Replayed n ms ⟨n + ms.length, true, []⟩ (ms.map fun m => (m, true))
  | failed {pre post : List Bytes} {m : Bytes} : ms = pre ++ m :: post →
      Replayed n ms
        ⟨n + pre.length, false,
          ascii "Send failed at message index " ++ numeral (n + pre.length)⟩
        (pre.map (fun m => (m, true)) ++ [(m, false)])

section Replayed
variable {n : ℕ} {ms : List Bytes} {m : Bytes} {result : ReplayResult}
  {sent : List (Bytes × Bool)}

theorem Replayed.cons (h : Replayed (n + 1) ms result sent) :
    Replayed n (m :: ms) result ((m, true) :: sent) := by
  cases h with
  | complete =>
    have hcount : n + 1 + ms.length = n + (m :: ms).length := by
      rw [List.length_cons]
      omega
    rw [hcount]
    exact .complete
  | @failed pre post last hms =>
    have hcount : n + 1 + pre.length = n + (m :: pre).length := by
      rw [List.length_cons]
      omega
    rw [hcount]
    exact .failed (by rw [hms, List.cons_append])

theorem Replayed.texts (h : Replayed n ms result sent) : sent.map Prod.fst <+: ms := by
  cases h with
  | complete => simp [Function.comp_def]
  | failed hms =>
    rw [hms]
    simp [Function.comp_def]

theorem attempts_sent {slept : List ReplayEvent} (h : attempts slept = []) (line : Bytes)
    (ok : Bool) (events : List ReplayEvent) :
    attempts (slept ++ .sent line ok :: events) = (line, ok) :: attempts events := by
  rw [attempts, List.filterMap_append, ← attempts, h]
  rfl

end Replayed

section Lines
variable {W : Type} (player : Player W) (separator : UInt8) (preserveTiming : Bool)

theorem attempts_wait (st : ReplayState W) (msgTime : ℤ) :
    attempts (wait player preserveTiming st msgTime).1 = [] := by
  rw [wait]
  split_ifs
  · rfl
  · rfl

theorem replayLines_replayed (lines : List Bytes) (st : ReplayState W) :
    Replayed st.messagesSent (messages lines)
      (replayLines player separator preserveTiming lines st).1
      (attempts (replayLines player separator preserveTiming lines st).2.1) := by
  induction lines generalizing st with
  | nil => exact .complete
  | cons raw lines ih =>
    rw [replayLines]
    simp only
    cases hskip : isSkipped (stripLine raw) with
    | true =>
      have hmessages : messages (raw :: lines) = messages lines := by simp [messages, hskip]
      rw [if_pos rfl, hmessages]
      exact ih st
    | false =>
      have hmessages : messages (raw :: lines) = stripLine raw :: messages lines := by
        simp [messages, hskip]
      rw [if_neg Bool.false_ne_true, hmessages]
      generalize (if preserveTiming then messageTime separator (stripLine raw) else 0) = msgTime
      have hquiet := attempts_wait player preserveTiming st msgTime
      cases hwait : wait player preserveTiming st msgTime with
      | mk slept world =>
        rw [hwait] at hquiet
        simp only
        cases player.send world (stripLine raw) with
        | mk ok world =>
          cases ok with
          | false =>
            simp only [attempts_sent hquiet]
            exact .failed (List.nil_append _).symm
          | true =>
            have hcount : (st.after preserveTiming world msgTime).messagesSent =
                st.messagesSent + 1 := by
              rw [ReplayState.after]
              split_ifs
              · rfl
              · rfl
            simp only [attempts_sent hquiet]
            exact (hcount ▸ ih _).cons

/-- A replay of a file that can be read goes through the messages in it. -/
theorem replayFile_replayed {world : W} {path file : Bytes}
    (h : (player.readFile world path).1 = some file) :
    Replayed 0 (messages (getlines file))
      (replayFile player separator preserveTiming path world).1
      (attempts (replayFile player separator preserveTiming path world).2.1) := by
  rw [replayFile]
  cases hread : player.readFile world path with
  | mk found world' =>
    rw [hread] at h
    obtain rfl : found = some file := h
    exact replayLines_replayed player separator preserveTiming (getlines file)
      { world := world' }

end Lines

/-! ### Reading the log -/

/-- A text that a line of a log can hold: it is no comment, and nothing at its end is stripped. -/
structure Loggable (text : Bytes) : Prop where
  head : ∃ b rest, text = b :: rest ∧ b ≠ 35
  last : ∃ rest b, text = rest ++ [b] ∧ b ≠ 13 ∧ b ≠ lf ∧ b ≠ 32

/-- Lines in which the texts are written down, each on its own, with carriage returns and blanks
behind them and with empty lines and comments in between. -/
inductive Recorded : List Bytes → List Bytes → Prop
  | nil : Recorded [] []
  | blank {texts lines : List Bytes} {line : Bytes} : (∀ b ∈ line, b = 13 ∨ b = 32) →
      Recorded texts lines → Recorded texts (line :: lines)
  | comment {texts lines : List Bytes} {line : Bytes} : lf ∉ line →
      Recorded texts lines → Recorded texts ((35 :: line) :: lines)
  | message {texts lines : List Bytes} {text trail : Bytes} : lf ∉ text →
      (∀ b ∈ trail, b = 13 ∨ b = 32) → Recorded texts lines →
      Recorded (text :: texts) ((text ++ trail) :: lines)

def logText (lines : List Bytes) : Bytes := lines.flatMap fun line => line ++ [lf]

section Log
variable {texts lines : List Bytes} {text trail : Bytes}

theorem lf_notMem_trail (h : ∀ b ∈ trail, b = 13 ∨ b = 32) : lf ∉ trail :=
  fun hmem => absurd (h lf hmem) (by decide)

theorem Recorded.lf_notMem (h : Recorded texts lines) : ∀ line ∈ lines, lf ∉ line := by
  induction h with
  | nil => simp
  | blank hline _ ih => exact List.forall_mem_cons.mpr ⟨lf_notMem_trail hline, ih⟩
  | comment hline _ ih =>
    refine List.forall_mem_cons.mpr ⟨fun hmem => ?_, ih⟩
    exact (List.mem_cons.mp hmem).elim (by decide) hline
  | message htext htrail _ ih =>
    refine List.forall_mem_cons.mpr ⟨fun hmem => ?_, ih⟩
    exact (List.mem_append.mp hmem).elim htext (lf_notMem_trail htrail)

theorem logText_eq_intercalate (lines : List Bytes) :
    logText lines = [lf].intercalate (lines ++ [[]]) := by
  induction lines with
  | nil => rfl
  | cons line lines ih =>
    have hne : lines ++ [[]] ≠ ([] : List Bytes) := by simp
    rw [List.cons_append, List.intercalate_cons_of_ne_nil hne, ← ih, logText, logText,
      List.flatMap_cons]

/-- Reading the lines of a log gives back the lines that were written. -/
theorem getlines_logText (h : ∀ line ∈ lines, lf ∉ line) : getlines (logText lines) = lines := by
  have hfree : ∀ line ∈ lines ++ [[]], lf ∉ line := by
    intro line hline
    rcases List.mem_append.mp hline with hline | hline
    · exact h line hline
    · rw [List.mem_singleton.mp hline]
      exact List.not_mem_nil
  have hpieces : (logText lines).splitOn lf = lines ++ [[]] := by
    rw [logText_eq_intercalate]
    exact List.splitOn_intercalate lf hfree (by simp)
  rw [getlines, hpieces]
  simp

theorem stripLine_append (htrail : ∀ b ∈ trail, b = 13 ∨ b = 32) :
    stripLine (text ++ trail) = stripLine text := by
  induction trail using List.reverseRecOn with
  | nil => rw [List.append_nil]
  | append_singleton trail b ih =>
    have hb : b = 13 ∨ b = 32 := htrail b (by simp)
    rw [← List.append_assoc, stripLine, List.rdropWhile_concat_pos _ _ b (by simp; tauto)]
    exact ih fun c hc => htrail c (List.mem_append_left _ hc)

theorem stripLine_loggable (h : Loggable text) : stripLine text = text := by
  obtain ⟨rest, b, rfl, hcr, hlf, hblank⟩ := h.last
  rw [stripLine, List.rdropWhile_concat_neg]
  simp [hcr, hlf, hblank]

theorem isSkipped_loggable (h : Loggable text) : isSkipped text = false := by
  obtain ⟨b, rest, rfl, hb⟩ := h.head
  simp [isSkipped, hb]

theorem isSkipped_comment (line : Bytes) : isSkipped (stripLine (35 :: line)) = true := by
  cases hstrip : stripLine (35 :: line) with
  | nil => rfl
  | cons b rest =>
    have hpre : b :: rest <+: 35 :: line := hstrip ▸ List.rdropWhile_prefix _ _
    obtain ⟨rfl, _⟩ := List.cons_prefix_cons.mp hpre
    simp [isSkipped]

theorem Recorded.messages (h : Recorded texts lines) (hloggable : ∀ m ∈ texts, Loggable m) :
    messages lines = texts := by
  induction h with
  | nil => rfl
  | @blank _ _ line hline _ ih =>
    have hstrip : stripLine ([] ++ line) = [] := stripLine_append hline
    rw [List.nil_append] at hstrip
    simpa [Fixure.messages, hstrip, isSkipped] using ih hloggable
  | comment _ _ ih => simpa [Fixure.messages, isSkipped_comment] using ih hloggable
  | message _ htrail _ ih =>
    rw [List.forall_mem_cons] at hloggable
    have hrest := ih hloggable.2
    simp only [Fixure.messages] at hrest
    simp [Fixure.messages, stripLine_append htrail, stripLine_loggable hloggable.1,
      isSkipped_loggable hloggable.1, hrest]

theorem loggable_framed (h : Framed soh text) : Loggable text := by
  obtain ⟨⟨t, ht⟩, covered, value, hends, _⟩ := h
  refine ⟨⟨56, 61 :: t, ht.symm, by decide⟩, covered ++ (ascii "10=" ++ value), soh, ?_, by decide⟩
  rw [hends]
  simp

end Log

/-- A replay of a log, with or without the delays, sends what is recorded in it, in the order of the
lines and without what stands around it, up to the first message that the connection refuses. -/
theorem replay_sends {W : Type} (player : Player W) (separator : UInt8) (preserveTiming : Bool)
    {world : W} {path : Bytes} {texts lines : List Bytes}
    (hloggable : ∀ m ∈ texts, Loggable m) (hrecorded : Recorded texts lines)
    (hread : (player.readFile world path).1 = some (logText lines)) :
    let run := replayFile player separator preserveTiming path world
    Replayed 0 texts run.1 (attempts run.2.1) := by
  have hrun := replayFile_replayed player separator preserveTiming hread
  rwa [getlines_logText hrecorded.lf_notMem, hrecorded.messages hloggable] at hrun

/-- A connection that takes what the list says. -/
def refusing (file : Bytes) : Player (List Bool) where
  readFile world _ := (some file, world)
  send world _ := (world.headD true, world.tail)
  sleepFor world _ := world

def annotatedLog : List Bytes :=
  [ascii "first" ++ [13], 35 :: ascii "note", ascii "a #second" ++ [32, 13], [13],
    ascii "third" ++ [13]]

/-- The second of the three messages, which stands behind a comment, is refused. -/
theorem replay_sends_refused :
    Replayed 0 [ascii "first", ascii "a #second", ascii "third"]
      ⟨1, false, ascii "Send failed at message index 1"⟩
      [(ascii "first", true), (ascii "a #second", false)] := by
  have hloggable : ∀ m ∈ [ascii "first", ascii "a #second", ascii "third"], Loggable m := by
    simp only [List.forall_mem_cons, List.not_mem_nil, false_imp_iff, implies_true, and_true]
    exact ⟨⟨⟨102, ascii "irst", by decide +kernel⟩, ⟨ascii "firs", 116, by decide +kernel⟩⟩,
      ⟨⟨97, ascii " #second", by decide +kernel⟩, ⟨ascii "a #secon", 100, by decide +kernel⟩⟩,
      ⟨⟨116, ascii "hird", by decide +kernel⟩, ⟨ascii "thir", 100, by decide +kernel⟩⟩⟩
  have hthird : Recorded [ascii "third"] [ascii "third" ++ [13]] :=
    .message (by decide +kernel) (by simp) .nil
  have hsecond : Recorded [ascii "a #second", ascii "third"]
      [ascii "a #second" ++ [32, 13], [13], ascii "third" ++ [13]] :=
    .message (by decide +kernel) (by simp) (.blank (by simp) hthird)
  have hrecorded : Recorded [ascii "first", ascii "a #second", ascii "third"] annotatedLog :=
    .message (by decide +kernel) (by simp) (.comment (by decide +kernel) hsecond)
  have hread : ((refusing (logText annotatedLog)).readFile [true, false] []).1 =
      some (logText annotatedLog) := rfl
  have hrun := replay_sends (refusing (logText annotatedLog)) 1 true hloggable hrecorded hread
  have hresult : (replayFile (refusing (logText annotatedLog)) 1 true [] [true, false]).1 =
      ⟨1, false, ascii "Send failed at message index 1"⟩ := by decide +kernel
  have hsent : attempts (replayFile (refusing (logText annotatedLog)) 1 true [] [true, false]).2.1 =
      [(ascii "first", true), (ascii "a #second", false)] := by decide +kernel
  rwa [← hresult, ← hsent]

/-! ### Hearing a replay -/

/-- The messages of a runner are written down, and the log is replayed, with or without the delays.
What reaches another runner are bytes of the replay, of a message that the connection refused maybe
a part. Then that runner extracts the messages in their order, reads in each what was written, and
its session takes each in its turn. -/
theorem replay_hears {U V W : Type} {player : Player U} {speaker : Environment V}
    {listener : Environment W} {u : U} {v : V} {w : W} {speaking listening : FixSession}
    {mocks mocks' : List ScenarioStep} {scenario scenario' : Scenario} {spoken heard : List Event}
    {st : RunState V} {st' : RunState W} {path : Bytes} {lines : List Bytes}
    (hspeaks : Run (runStep speaker) (.start v speaking mocks scenario) spoken st)
    (hmocks : MocksTaken spoken) (hlegible : ∀ e ∈ takenEvents spoken, Legible e)
    (hrecorded : Recorded ((takenEvents spoken).map SentEvent.text) lines)
    (hread : (player.readFile u path).1 = some (logText lines))
    (separator : UInt8) (preserveTiming : Bool)
    (hlistens : Run (runStep listener) (.start w listening mocks' scenario') heard st')
    (hbytes : heard.flatMap Event.bytes <+: ((attempts
      (replayFile player separator preserveTiming path u).2.1).map Prod.fst).flatten)
    (hclean : CutsClean ((takenEvents spoken).map SentEvent.text) (heard.flatMap Event.chunks))
    (hawaits : Awaits listening speaking.nextOutSeq (takenEvents spoken)) :
    extractions heard = ((takenEvents spoken).map SentEvent.text).take (readings heard).length ∧
      (∀ i r, (readings heard)[i]? = some r → ∃ e, (takenEvents spoken)[i]? = some e ∧
        Hears e (speaking.nextOutSeq + Int32.ofNat i) r) ∧
      Awaits st'.session (speaking.nextOutSeq + Int32.ofNat (readings heard).length)
        ((takenEvents spoken).drop (readings heard).length) := by
  have hspeech := speech_run hspeaks hmocks hlegible
  have hlog : messages (getlines (logText lines)) = (takenEvents spoken).map SentEvent.text := by
    rw [getlines_logText hrecorded.lf_notMem,
      hrecorded.messages fun m hm => loggable_framed (hspeech.framed m hm)]
  obtain ⟨rest, hrest⟩ :=
    (hlog ▸ replayFile_replayed player separator preserveTiming hread).texts
  have hpre : (heard.flatMap Event.chunks).flatten <+:
      ((takenEvents spoken).map SentEvent.text).flatten := by
    rw [flatten_chunks, ← hrest, List.flatten_append]
    exact hbytes.trans (List.prefix_append _ _)
  have hheard := heard_run hspeech hawaits hlistens hpre hclean
  exact ⟨hheard.count ▸ hheard.tracks.taken_eq, hheard.hears, hheard.awaits⟩

theorem recorded_crlf {texts : List Bytes} (h : ∀ m ∈ texts, lf ∉ m) :
    Recorded texts (texts.map fun m => m ++ [13]) := by
  induction texts with
  | nil => exact .nil
  | cons m texts ih =>
    rw [List.forall_mem_cons] at h
    exact .message h.1 (by simp) (ih h.2)

/-- The log of the run that speaks, under a comment. -/
def recordedLines : List Bytes :=
  (35 :: ascii " session") :: (takenEvents speakingRun.1).map fun e => e.text ++ [13]

theorem replay_hears_order :
    extractions listeningRun.1 =
        ((takenEvents speakingRun.1).map SentEvent.text).take (readings listeningRun.1).length ∧
      ∀ i r, (readings listeningRun.1)[i]? = some r →
        ∃ e, (takenEvents speakingRun.1)[i]? = some e ∧ Hears e (1 + Int32.ofNat i) r := by
  have hrecorded : Recorded ((takenEvents speakingRun.1).map SentEvent.text) recordedLines := by
    have hfree : ∀ m ∈ (takenEvents speakingRun.1).map SentEvent.text, lf ∉ m := by
      decide +kernel
    have hentries := recorded_crlf hfree
    rw [List.map_map] at hentries
    exact .comment (by decide +kernel) hentries
  have hread : ((refusing (logText recordedLines)).readFile [] []).1 =
      some (logText recordedLines) := rfl
  have hspeaks : Run (runStep scripted) speakingStart speakingRun.1 speakingRun.2 :=
    run_exec _ 9 _
  have hlistens : Run (runStep scripted) listeningStart listeningRun.1 listeningRun.2 :=
    run_exec _ 20 _
  obtain ⟨htexts, hhears, _⟩ := replay_hears hspeaks (by decide +kernel) (by decide +kernel)
    hrecorded hread soh true hlistens (by decide +kernel) (by decide +kernel)
    (by decide +kernel)
  exact ⟨htexts, hhears⟩

end Fixure
