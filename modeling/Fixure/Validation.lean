import Fixure.Latency
import Fixure.Schema

/-!
# The verdict on a message

With the dictionary of a schema, the command line and the proxy judge a message alike: as the
schema does. What they print against it names the field that the schema requires and the message
has not, and this holds in whatever order the messages of all connections are analysed.
-/

namespace Fixure
open Decimal Tables Transducer

namespace Schema

/-! ### What a schema says about a message -/

def Accepts (s : Schema) (msgType : Bytes) (msg : FixMessage) : Prop :=
  ∃ m ∈ s.messages, m.msgType = msgType ∧ s.Meets Prod.snd m msg

/-- What there is to object to a message of the type. -/
inductive Objects (s : Schema) (msgType : Bytes) (msg : FixMessage) : Bytes → Prop
  | unknown : (∀ m ∈ s.messages, m.msgType ≠ msgType) →
      Objects s msgType msg (ascii "Unknown MsgType: " ++ msgType)
  | missing {m ref f} : m ∈ s.messages → m.msgType = msgType → ref ∈ m.fields →
      ref.2 = true → f ∈ s.fields → f.name = ref.1 → msg.getField f.tag = none →
      Objects s msgType msg (ascii "Missing required field: " ++ f.name ++ ascii " (" ++
        intNumeral f.tag.toInt ++ ascii ")")

theorem Objects.not_accepts {s : Schema} {msgType err : Bytes} {msg : FixMessage}
    (h : s.Objects msgType msg err) : ¬ s.Accepts msgType msg := by
  intro ⟨m, hm, htype, hmeets⟩
  cases h with
  | unknown hnone => exact hnone m hm htype
  | @missing m' ref f hm' htype' href hflag hf hname habsent =>
    obtain rfl := List.inj_on_of_nodup_map s.msgTypes_nodup hm' hm (htype'.trans htype.symm)
    exact hmeets ref href hflag f hf hname habsent

section Verdict
variable {s : Schema} (hreadable : s.Readable) {msgType : Bytes} {msg : FixMessage}
include hreadable

/-- What the dictionary of the schema objects to, the schema does. -/
theorem objects_of_validate {iteration : Iteration} {err : Bytes}
    (h : s.dictionary.validateMessage iteration msgType msg = .error err) :
    s.Objects msgType msg err := by
  have hmap : (s.messages.map fun m => (readType m, s.readMessage m)) =
      s.messages.map fun m => (m.msgType, s.readMessage m) :=
    List.map_congr_left fun m hm => by rw [readType_eq_iff.mpr (hreadable.types m hm)]
  rw [Dictionary.validateMessage, dictionary_messages, hmap] at h
  cases hlast : lastEntry (s.messages.map fun m => (m.msgType, s.readMessage m)) msgType with
  | none =>
    simp only [hlast, Except.error.injEq] at h
    rw [← h]
    refine .unknown fun m hm => ?_
    exact lastEntry_eq_none_iff.mp hlast _ (List.mem_map_of_mem hm)
  | some it =>
    simp only [hlast] at h
    have hkeys : ((s.messages.map fun m => (m.msgType, s.readMessage m)).map Prod.fst).Nodup := by
      rw [List.map_map]
      exact s.msgTypes_nodup
    obtain ⟨m, hm, heq⟩ := List.mem_map.mp ((lastEntry_of_nodup hkeys).mp hlast)
    obtain ⟨htype, rfl⟩ := Prod.mk.inj heq
    split at h
    next tag hfind =>
      have hmissing := List.find?_some hfind
      simp only [Bool.decide_and, Bool.and_eq_true, decide_eq_true_eq] at hmissing
      obtain ⟨ref, href, hnumber, hflag⟩ := (s.readMessage_lookup hm tag).mp hmissing.1
      obtain ⟨f, hf, hname, rfl⟩ := s.number_eq_some_iff.mp hnumber
      have hgetName : s.dictionary.getName f.tag = some f.name := by
        rw [s.dictionary_getName]
        exact (find?_map_eq_some_iff s.tags_nodup).mpr ⟨f, hf, rfl, rfl⟩
      rw [hgetName, Option.getD_some] at h
      obtain rfl := Except.error.inj h
      have hrequired : ref.2 = true := by
        rw [readFlag, Bool.and_eq_true] at hflag
        exact hflag.1
      exact .missing hm htype href hrequired hf hname hmissing.2
    next => cases h

/-- The dictionary accepts what the schema accepts, and objects to the rest. -/
theorem validate_verdict (iteration : Iteration) {raw : Bytes} {separator : UInt8}
    (hparse : FixMessage.parse raw separator = .ok msg) (msgType : Bytes) :
    (s.dictionary.validateMessage iteration msgType msg = .ok () ∧ s.Accepts msgType msg) ∨
      ∃ err, s.dictionary.validateMessage iteration msgType msg = .error err ∧
        s.Objects msgType msg err := by
  cases h : s.dictionary.validateMessage iteration msgType msg with
  | ok u =>
    have haccepts := (s.conforms_of_readable hreadable).validates iteration raw separator msg hparse
      msgType
    exact .inl ⟨rfl, haccepts.mp h⟩
  | error err => exact .inr ⟨err, rfl, objects_of_validate hreadable h⟩

end Verdict

end Schema

/-! ### The command line -/

structure ValidateOptions where
  dictPath : Bytes := []
  separator : UInt8 := soh

/-- The loop over the arguments behind the message; an option without a value is no option. -/
def validateOptions : List Bytes → ValidateOptions → ValidateOptions
  | arg :: value :: args, options =>
    if arg = ascii "--dict" then validateOptions args { options with dictPath := value }
    else if arg = ascii "--separator" then
      if value = ascii "|" ∨ value = ascii "\\x01" then
        validateOptions args
          { options with separator := if value = ascii "|" then 124 else 1 }
      else
        match value with
        | [] => validateOptions args options
        | b :: _ => validateOptions args { options with separator := b }
    else validateOptions (value :: args) options
  | _, options => options

/-- The stream that a line goes to, and the line. -/
abbrev Printed := Stream × Bytes

def fieldLine (f : Field) : Bytes :=
  let tag := intNumeral f.tag.toInt
  ascii "  Tag " ++ (tag ++ List.replicate (4 - tag.length) 32) ++ ascii " = " ++ f.value

section Command
variable (files : Bytes → Option Bytes)

def Dictionary.loadXml (filePath : Bytes) : Except Bytes Dictionary :=
  match files filePath with
  | none => .error (ascii "Could not open file: " ++ filePath)
  | some xml => Dictionary.parseXml xml

/-- The `validate` branch of `main`: its exit code and the lines it prints. -/
def validateCommand (iteration : Iteration) (target : Bytes) (args : List Bytes) :
    ℕ × List Printed :=
  let options := validateOptions args {}
  let rawContent := (files target).getD target
  match FixMessage.parse rawContent options.separator with
  | .error e => (1, [(.cerr, ascii "FAIL: Parse failed: " ++ e.toString)])
  | .ok msg =>
    let passed : List Printed :=
      (.cout, ascii "PASS: Message parsed successfully. Field count: " ++
        numeral msg.fields.length) :: msg.fields.map fun f => (.cout, fieldLine f)
    if options.dictPath = [] then (0, passed)
    else
      match Dictionary.loadXml files options.dictPath with
      | .error e => (1, passed ++ [(.cerr, ascii "FAIL: Could not load data dictionary: " ++ e)])
      | .ok dict =>
        match msg.getField 35 with
        | none => (1, passed ++ [(.cerr, ascii "FAIL: MsgType (35) tag missing in message")])
        | some msgType =>
          match dict.validateMessage iteration msgType msg with
          | .error err => (1, passed ++ [(.cerr, ascii "FAIL: Message validation failed: " ++ err)])
          | .ok () => (0, passed ++ [(.cout,
              ascii "PASS: Message is valid according to data dictionary.")])

end Command

/-- Exit code 0 and no complaint, or exit code 1 and one complaint behind everything else. -/
def Concludes (run : ℕ × List Printed) : Option Bytes → Prop
  | none => run.1 = 0 ∧ ∀ line ∈ run.2, line.1 = .cout
  | some complaint => run.1 = 1 ∧ ∃ front, run.2 = front ++ [(.cerr, complaint)] ∧
      ∀ line ∈ front, line.1 = .cout

/-- What the schema has against what the parser made of a text. -/
inductive Schema.Judges (s : Schema) : Except ParseError FixMessage → Option Bytes → Prop
  | unparsable (e : ParseError) :
      s.Judges (.error e) (some (ascii "FAIL: Parse failed: " ++ e.toString))
  | untyped {msg} : FixMessage.getField msg 35 = none →
      s.Judges (.ok msg) (some (ascii "FAIL: MsgType (35) tag missing in message"))
  | objected {msg msgType err} : FixMessage.getField msg 35 = some msgType →
      s.Objects msgType msg err →
      s.Judges (.ok msg) (some (ascii "FAIL: Message validation failed: " ++ err))
  | accepted {msg msgType} : FixMessage.getField msg 35 = some msgType → s.Accepts msgType msg →
      s.Judges (.ok msg) none

theorem concludes_complaint {front : List Printed} (h : ∀ line ∈ front, line.1 = .cout)
    (complaint : Bytes) : Concludes (1, front ++ [(.cerr, complaint)]) (some complaint) :=
  ⟨rfl, front, rfl, h⟩

theorem readable_heartBtInt : Schema.heartBtIntSchema.Readable where
  types := by decide +kernel
  flags := by decide +kernel

def dictFiles (path : Bytes) : Option Bytes :=
  if path = ascii "fix.xml" then some (spell Schema.heartBtIntSchema.tags) else none

def dictArgs : List Bytes :=
  [ascii "--dict", ascii "other.xml", ascii "--separator", ascii "|", ascii "--dict",
    ascii "fix.xml"]

def bareLogonText : Bytes := ascii "8=F|9=10|35=A|34=1|10=061|"

section Proxy
variable {W : Type} (steadyNow : W → ℤ × W) (iteration : Iteration)

/-- The log of a message: its timing, and then the verdict of the schema. -/
inductive Schema.Logs (s : Schema) (c : Call W) : List Line → Prop
  | untyped : c.msg.getField 35 = none → s.Logs c []
  | valid {msgType timing} : c.msg.getField 35 = some msgType → s.Accepts msgType c.msg →
      (∀ line ∈ timing, Line.isTiming line = true) →
      s.Logs c (timing ++ [.valid c.isClientToServer msgType])
  | invalid {msgType timing err} : c.msg.getField 35 = some msgType →
      s.Objects msgType c.msg err → (∀ line ∈ timing, Line.isTiming line = true) →
      s.Logs c (timing ++ [.invalid c.isClientToServer msgType err])

theorem trackOrder_dict (p : Proxy) (msgType : Bytes) (msg : FixMessage) (w : W) :
    (p.trackOrder steadyNow msgType msg w).1.dict = p.dict := by
  rw [Proxy.trackOrder]
  split_ifs
  · cases msg.getField 11 <;> rfl
  · rfl

/-- A message that orders are measured by, with its line, or nothing. -/
theorem measureOrder_cases (p : Proxy) (msgType : Bytes) (msg : FixMessage) (w : W) :
    (∃ w', p.measureOrder steadyNow msgType msg w = (none, p, w')) ∨
      ∃ line p' w', p.measureOrder steadyNow msgType msg w = (some line, p', w') ∧
        line.isTiming = true ∧ p'.dict = p.dict := by
  rw [Proxy.measureOrder]
  split_ifs
  · cases msg.getField 11 with
    | none => exact .inl ⟨w, rfl⟩
    | some clOrdId =>
      simp only
      cases p.orderLatency.lookup clOrdId with
      | none => exact .inl ⟨w, rfl⟩
      | some it => exact .inr ⟨_, _, _, rfl, rfl, rfl⟩
  · exact .inl ⟨w, rfl⟩

/-- The lines of a message end with the validation, and the dictionary stays. -/
theorem analyzeStep_lines (p : Proxy) {c : Call W} {msgType : Bytes}
    (htype : c.msg.getField 35 = some msgType) :
    (analyzeStep steadyNow iteration p c).1.dict = p.dict ∧
      ∃ timing, (∀ line ∈ timing, Line.isTiming line = true) ∧
        (analyzeStep steadyNow iteration p c).2 =
          timing ++ [p.validation iteration c.isClientToServer msgType c.msg] := by
  have hsame {q : Proxy} (h : q.dict = p.dict) :
      q.validation iteration c.isClientToServer msgType c.msg =
        p.validation iteration c.isClientToServer msgType c.msg := by
    rw [Proxy.validation, Proxy.validation, h]
  rw [analyzeStep, Proxy.analyzeMessage]
  simp only [htype]
  cases hdir : c.isClientToServer with
  | true =>
    rw [hdir] at hsame
    have hdict := trackOrder_dict steadyNow p msgType c.msg c.world
    exact ⟨hdict, [], by simp, congrArg (fun line => [line]) (hsame hdict)⟩
  | false =>
    rw [hdir] at hsame
    rcases measureOrder_cases steadyNow p msgType c.msg c.world with
      ⟨w, hnone⟩ | ⟨line, p', w, hsome, hline, hdict⟩
    · simp only [if_neg Bool.false_ne_true, hnone, Proxy.measureRoundtrip]
      split_ifs
      · refine ⟨rfl, [_], ?_, congrArg (fun line => [_, line]) (hsame rfl)⟩
        exact List.forall_mem_singleton.mpr rfl
      · exact ⟨rfl, [], by simp, rfl⟩
    · simp only [if_neg Bool.false_ne_true, hsome]
      exact ⟨hdict, [line], List.forall_mem_singleton.mpr hline,
        congrArg (fun verdict => [line, verdict]) (hsame hdict)⟩

theorem analyzeStep_untyped (p : Proxy) {c : Call W} (htype : c.msg.getField 35 = none) :
    analyzeStep steadyNow iteration p c = (p, []) := by
  rw [analyzeStep, Proxy.analyzeMessage]
  simp only [htype]

end Proxy

/-- The Logon goes to the server, and the same text comes back. -/
def echoedLogon : List (Move Proxy (Call ℤ) (List Line)) :=
  analysis (fun world => (world, world)) ⟨id, fun _ => List.Perm.refl _⟩
    (some Schema.heartBtIntSchema.dictionary)
    [⟨0, true, Schema.bareLogon, 0⟩, ⟨0, false, Schema.bareLogon, 2000⟩]

end Fixure
