import Fixure.ParseDsl
import Fixure.SendingTime

/-!
# Replaying a log

The replayer sends the messages of a log one by one. If it is to preserve the timing, it waits
before a message for as long as its sending time is behind the one it remembers, which is that
of the last message that had one. So the delays add up to the rises of the sending times, and
not to more than the log covers as long as they do not rise again after they have fallen.
-/

namespace Fixure
open Decimal

structure ReplayResult where
  messagesSent : ℕ
  success : Bool := false
  errorMessage : Bytes := []
  deriving DecidableEq

inductive ReplayEvent
  | slept (delay : ℤ)
  | sent (line : Bytes) (ok : Bool)
  deriving DecidableEq

/-- The files, the connection and the thread that waits, for a number of milliseconds. -/
structure Player (W : Type) where
  readFile : W → Bytes → Option Bytes × W
  send : W → Bytes → Bool × W
  sleepFor : W → ℤ → W

/-! ### The lines of a log -/

/-- What `std::getline` gives: no line begins behind the last line feed if nothing is there. -/
def getlines (file : Bytes) : List Bytes :=
  let pieces := file.splitOn lf
  if pieces.getLast? = some [] then pieces.dropLast else pieces

def stripLine (line : Bytes) : Bytes := line.rdropWhile fun b => b = 13 || b = lf || b = 32

def isSkipped (line : Bytes) : Bool := line.isEmpty || line.head? = some 35

def messageTime (separator : UInt8) (line : Bytes) : ℤ :=
  match FixMessage.parse line separator with
  | .error _ => 0
  | .ok msg =>
    match msg.getField 52 with
    | none => 0
    | some timeStr => parseSendingTime timeStr

/-! ### The loop over the lines -/

/-- The times are in nanoseconds; 0, the epoch, stands for no time. -/
structure ReplayState (W : Type) where
  world : W
  messagesSent : ℕ := 0
  lastMsgTime : ℤ := 0
  firstMsg : Bool := true

section Replay
variable {W : Type} (player : Player W) (separator : UInt8) (preserveTiming : Bool)

def wait (st : ReplayState W) (msgTime : ℤ) : List ReplayEvent × W :=
  if preserveTiming && !st.firstMsg && msgTime ≠ 0 && msgTime > st.lastMsgTime then
    let delay := (msgTime - st.lastMsgTime).tdiv 1000000
    ([.slept delay], player.sleepFor st.world delay)
  else ([], st.world)

def ReplayState.after (st : ReplayState W) (world : W) (msgTime : ℤ) : ReplayState W :=
  if preserveTiming && msgTime ≠ 0 then ⟨world, st.messagesSent + 1, msgTime, false⟩
  else { st with world := world, messagesSent := st.messagesSent + 1 }

def replayLines : List Bytes → ReplayState W → ReplayResult × List ReplayEvent × W
  | [], st => (⟨st.messagesSent, true, []⟩, [], st.world)
  | raw :: lines, st =>
    let line := stripLine raw
    if isSkipped line then replayLines lines st
    else
      let msgTime := if preserveTiming then messageTime separator line else 0
      let (slept, world) := wait player preserveTiming st msgTime
      match player.send world line with
      | (false, world) =>
        (⟨st.messagesSent, false,
          ascii "Send failed at message index " ++ numeral st.messagesSent⟩,
          slept ++ [.sent line false], world)
      | (true, world) =>
        let (result, events, world) := replayLines lines (st.after preserveTiming world msgTime)
        (result, slept ++ .sent line true :: events, world)

def replayFile (filePath : Bytes) (world : W) : ReplayResult × List ReplayEvent × W :=
  match player.readFile world filePath with
  | (none, world) =>
    (⟨0, false, ascii "Could not open log file: " ++ filePath⟩, [], world)
  | (some file, world) =>
    replayLines player separator preserveTiming (getlines file) { world := world }

end Replay

section Equations
variable {W : Type} (player : Player W) (separator : UInt8) {raw : Bytes}

theorem replayLines_skipped (lines : List Bytes) (st : ReplayState W)
    (h : isSkipped (stripLine raw) = true) :
    replayLines player separator true (raw :: lines) st =
      replayLines player separator true lines st := by
  simp [replayLines, h]

/-- A message is sent after the delay, and unless that fails the other lines follow. -/
theorem replayLines_message (lines : List Bytes) (st : ReplayState W)
    (h : isSkipped (stripLine raw) = false) :
    let run := replayLines player separator true (raw :: lines) st
    let slept := (wait player true st (messageTime separator (stripLine raw))).1
    run.1.success = false ∧ run.2.1 = slept ++ [.sent (stripLine raw) false] ∨
      ∃ world,
        let rest := replayLines player separator true lines
          (st.after true world (messageTime separator (stripLine raw)))
        run.1 = rest.1 ∧ run.2.1 = slept ++ .sent (stripLine raw) true :: rest.2.1 := by
  intro run slept
  cases hsend : player.send (wait player true st (messageTime separator (stripLine raw))).2
      (stripLine raw) with
  | mk ok world =>
    cases ok with
    | false => exact .inl (by simp [run, slept, replayLines, h, hsend])
    | true => exact .inr ⟨world, by simp [run, slept, replayLines, h, hsend]⟩

theorem replayFile_opened {world : W} {path file : Bytes}
    (h : (player.readFile world path).1 = some file) :
    replayFile player separator true path world =
      replayLines player separator true (getlines file)
        { world := (player.readFile world path).2 } := by
  rw [replayFile]
  cases hread : player.readFile world path with
  | mk found world' =>
    rw [hread] at h
    cases h
    rfl

end Equations

end Fixure
