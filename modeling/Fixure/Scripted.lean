import Fixure.RoundTrip
import Fixure.Runner
import Fixure.SessionRuns

/-!
# What is scripted and what is sent

A message written from a list of fields and read back is matched by the same list
exactly when no tag has two values in it, since a lookup finds the first field of a tag.
A SEND step and a mock response go out under the session's header; the header takes the
message type from the first place of the scripted fields only.
-/

namespace Fixure
open Decimal

/-! ### Lookups in a written message -/

section Lookup
variable {separator : UInt8} {first : Field} {rest : List Field}

def SameTagSameValue (fields : List Field) : Prop :=
  ∀ f ∈ fields, ∀ g ∈ fields, f.tag = g.tag → f.value = g.value

instance (fields : List Field) : Decidable (SameTagSameValue fields) :=
  inferInstanceAs (Decidable (∀ f ∈ fields, ∀ g ∈ fields, f.tag = g.tag → f.value = g.value))

theorem find?_tag_append {xs ys : List Field} {tag : Int32} (h : ∀ f ∈ ys, f.tag ≠ tag) :
    (xs ++ ys).find? (fun f => f.tag = tag) = xs.find? (fun f => f.tag = tag) := by
  have hnone : ys.find? (fun f => f.tag = tag) = none := by
    apply List.find?_eq_none.mpr
    intro f hf
    simpa using h f hf
  rw [List.find?_append, hnone, Option.or_none]

theorem bodyFields_eq_self (h : ∀ f ∈ rest, isFraming f.tag = false) : bodyFields rest = rest := by
  apply List.filter_eq_self.mpr
  intro f hf
  simp [h f hf]

/-- Where the serializer drops no field, the lookup of a tag other than 9 and 10 is a lookup
in the fields it was given. -/
theorem find?_wireFields {tag : Int32} (h8 : first.tag = 8)
    (hrest : ∀ f ∈ rest, isFraming f.tag = false) (h9 : tag ≠ 9) (h10 : tag ≠ 10) :
    (wireFields separator first rest).find? (fun f => f.tag = tag) =
      (first :: rest).find? (fun f => f.tag = tag) := by
  have hfirst : (⟨8, first.value⟩ : Field) = first := by rw [← h8]
  rw [wireFields, coveredFields, bodyFields_eq_self hrest, find?_tag_append, hfirst]
  · by_cases htag : first.tag = tag
    · simp [htag]
    · simp [htag, h9.symm]
  · intro f hf
    rw [List.mem_singleton.mp hf]
    exact h10.symm

theorem find?_eq_self_iff {fields : List Field} :
    (∀ f ∈ fields, (fields.find? fun g => g.tag = f.tag).map Field.value = some f.value) ↔
      SameTagSameValue fields := by
  constructor
  · intro h f hf g hg htag
    have hfound := h f hf
    rw [htag, h g hg] at hfound
    exact (Option.some.inj hfound).symm
  · intro h f hf
    cases hfound : fields.find? fun g => g.tag = f.tag with
    | none =>
      have hnone := List.find?_eq_none.mp hfound f hf
      simp at hnone
    | some g =>
      have htag : g.tag = f.tag := by simpa using List.find?_some hfound
      rw [Option.map_some, h g (List.mem_of_find?_eq_some hfound) f hf htag]

end Lookup

/-- A list of fields that was written and read back is matched by itself exactly when no tag
has two values in it. -/
theorem matchFields_written_iff {first : Field} {rest : List Field} {buffer : Bytes}
    (h8 : first.tag = 8) (hrest : ∀ f ∈ rest, f.tag ≠ 8 ∧ f.tag ≠ 9 ∧ f.tag ≠ 10)
    (hfree : ∀ f ∈ first :: rest, soh ∉ f.value) (hcount : rest.length ≤ 253)
    (hfit : (wire soh first rest).length ≤ buffer.length) (hbuffer : buffer.length < 2 ^ 31) :
    ∃ s msg, serializeMessage (first :: rest) buffer soh = .ok s ∧
      FixMessage.parse s soh = .ok msg ∧
      (matchFields msg (first :: rest) = true ↔ SameTagSameValue (first :: rest)) := by
  have hbody : ∀ f ∈ rest, isFraming f.tag = false := by
    intro f hf
    simpa [isFraming, and_assoc] using hrest f hf
  have hwritten := (serializeMessage_eq_ok_iff first rest hbuffer soh).mpr ⟨h8, hfit, rfl⟩
  have hparse := parse_wire (by decide) (by decide) hfree
    (by rw [bodyFields_eq_self hbody]; exact hcount) (show (wire soh first rest).length < 2 ^ 31 by omega)
  refine ⟨_, _, hwritten, hparse, ?_⟩
  rw [← find?_eq_self_iff, matchFields, List.all_eq_true]
  apply forall₂_congr
  intro f hf
  have hlookup : f.tag ≠ 9 ∧ f.tag ≠ 10 := by
    rcases List.mem_cons.mp hf with rfl | hf
    · rw [h8]
      decide
    · exact (hrest f hf).2
  rw [decide_eq_true_iff, FixMessage.getField, find?_wireFields h8 hbody hlookup.1 hlookup.2]

theorem matchFields_written_order :
    ∃ s msg, serializeMessage [⟨8, ascii "F"⟩, ⟨35, ascii "D"⟩, ⟨11, ascii "x"⟩]
        (List.replicate 64 0) soh = .ok s ∧ FixMessage.parse s soh = .ok msg ∧
      (matchFields msg [⟨8, ascii "F"⟩, ⟨35, ascii "D"⟩, ⟨11, ascii "x"⟩] = true ↔
        SameTagSameValue [⟨8, ascii "F"⟩, ⟨35, ascii "D"⟩, ⟨11, ascii "x"⟩]) :=
  matchFields_written_iff (by decide) (by decide) (by decide) (by decide) (by decide) (by decide)

/-- Two parties of a repeating group. -/
def partiesFields : List Field := [⟨8, ascii "F"⟩, ⟨448, ascii "A"⟩, ⟨448, ascii "B"⟩]

theorem matchFields_written_group :
    ¬ ∀ (first : Field) (rest : List Field) (buffer : Bytes), first.tag = 8 →
      (∀ f ∈ rest, f.tag ≠ 8 ∧ f.tag ≠ 9 ∧ f.tag ≠ 10) → (∀ f ∈ first :: rest, soh ∉ f.value) →
      rest.length ≤ 253 → (wire soh first rest).length ≤ buffer.length →
      buffer.length < 2 ^ 31 →
      ∃ s msg, serializeMessage (first :: rest) buffer soh = .ok s ∧
        FixMessage.parse s soh = .ok msg ∧ matchFields msg (first :: rest) = true := by
  intro h
  obtain ⟨s, msg, hwritten, hparse, hmatch⟩ := h ⟨8, ascii "F"⟩
    [⟨448, ascii "A"⟩, ⟨448, ascii "B"⟩] (List.replicate 64 0) (by decide) (by decide) (by decide)
    (by decide) (by decide) (by decide)
  have htext : serializeMessage partiesFields (List.replicate 64 0) soh =
      .ok (ascii "8=F\x019=12\x01448=A\x01448=B\x0110=213\x01") := by decide
  have hread : FixMessage.parse (ascii "8=F\x019=12\x01448=A\x01448=B\x0110=213\x01") soh =
      .ok ⟨ascii "8=F\x019=12\x01448=A\x01448=B\x0110=213\x01", [⟨8, ascii "F"⟩,
        ⟨9, ascii "12"⟩, ⟨448, ascii "A"⟩, ⟨448, ascii "B"⟩, ⟨10, ascii "213"⟩]⟩ := by decide
  obtain rfl := Except.ok.inj (htext.symm.trans hwritten)
  obtain rfl := Except.ok.inj (hread.symm.trans hparse)
  exact absurd hmatch (by decide)

/-! ### Scripted messages on the wire -/

def scriptedType (fields : List Field) : Option Bytes :=
  (fields.find? fun f => f.tag = 35).map Field.value

/-- The message type that goes into the header: the first scripted field, if it is tagged 35. -/
def headType (fallback : Bytes) (fields : List Field) : Bytes :=
  match fields with
  | f :: _ => if f.tag = 35 then f.value else fallback
  | [] => fallback

def isStandard (f : Field) : Bool := isHeader f || isFraming f.tag

structure Scripted (s : FixSession) (fields : List Field) : Prop where
  typed : ∃ f ∈ fields, f.tag = 35
  free : ∀ f ∈ fields, soh ∉ f.value
  beginString_free : soh ∉ s.config.beginString
  senderCompId_free : soh ∉ s.config.senderCompId
  targetCompId_free : soh ∉ s.config.targetCompId

/-- The finished message has room in the buffer of the runner and in the field array of the
parser. -/
structure Fits (s : FixSession) (msgType sendingTime : Bytes) (fields : List Field) : Prop where
  bytes : (wire soh ⟨8, s.config.beginString⟩
    (outgoingFields s msgType sendingTime fields).tail).length ≤ 4096
  count : (wireFields soh ⟨8, s.config.beginString⟩
    (outgoingFields s msgType sendingTime fields).tail).length ≤ 256

/-- The text is read as what was scripted, under the header of the session. -/
def Delivers (s : FixSession) (fields : List Field) (text : Bytes) : Prop :=
  ∃ msg, FixMessage.parse text soh = .ok msg ∧ msg.getField 35 = scriptedType fields ∧
    msg.getField 8 = some s.config.beginString ∧ msg.getField 49 = some s.config.senderCompId ∧
    msg.getField 56 = some s.config.targetCompId ∧ msg.getInt 34 = some s.nextOutSeq ∧
    ∃ header trailer, msg.fields = header ++ fields.filter (fun f => !isStandard f) ++ [trailer] ∧
      header.map Field.tag = [8, 9, 35, 49, 56, 34, 52] ∧ trailer.tag = 10

theorem soh_notMem_numeral (n : ℕ) : soh ∉ numeral n := by
  intro h
  exact absurd (isDigit_of_mem_numeral h) (by decide)

theorem soh_notMem_zeroPadded (width : ℕ) (n : ℤ) : soh ∉ zeroPadded width n := by
  have hzero : soh ≠ 48 := by decide
  have hminus : soh ≠ minus := by decide
  rw [zeroPadded]
  split_ifs
  · simp [soh_notMem_numeral, hzero, hminus]
  · simp [soh_notMem_numeral, hzero]

theorem soh_notMem_getSendingTime (gmtime : ℤ → Tm) (now : ℤ) :
    soh ∉ getSendingTime gmtime now := by
  intro h
  have hmem := List.mem_of_mem_take h
  have hmarks : soh ∉ ascii "-" ∧ soh ∉ ascii ":" ∧ soh ∉ ascii "." := by decide
  simp only [List.mem_append, soh_notMem_zeroPadded, hmarks.1, hmarks.2.1, hmarks.2.2,
    or_self] at hmem

theorem soh_notMem_intNumeral (n : ℤ) : soh ∉ intNumeral n := by
  have hminus : soh ≠ minus := by decide
  rw [intNumeral]
  split_ifs
  · simp [soh_notMem_numeral, hminus]
  · exact soh_notMem_numeral _

/-- The fields of the header behind the first one. -/
def headerRest (s : FixSession) (msgType sendingTime : Bytes) : List Field :=
  [⟨35, msgType⟩, ⟨49, s.config.senderCompId⟩, ⟨56, s.config.targetCompId⟩,
    ⟨34, intNumeral s.nextOutSeq.toInt⟩, ⟨52, sendingTime⟩]

theorem outgoingFields_eq (s : FixSession) (msgType sendingTime : Bytes) (fields : List Field) :
    outgoingFields s msgType sendingTime fields = ⟨8, s.config.beginString⟩ ::
      (headerRest s msgType sendingTime ++ fields.filter fun f => !isHeader f) := by
  simp [outgoingFields, FixSession.prepareHeader, Writer.toChars_tag, headerRest]

theorem bodyFields_outgoing (s : FixSession) (msgType sendingTime : Bytes) (fields : List Field) :
    bodyFields (outgoingFields s msgType sendingTime fields).tail =
      headerRest s msgType sendingTime ++ fields.filter fun f => !isStandard f := by
  have hfilter : bodyFields (fields.filter fun f => !isHeader f) =
      fields.filter fun f => !isStandard f := by
    rw [bodyFields, List.filter_filter]
    apply List.filter_congr
    intro f _
    simp [isStandard, Bool.and_comm]
  rw [outgoingFields_eq, List.tail_cons, ← hfilter, bodyFields, List.filter_append]
  rfl

section Outgoing
variable {s : FixSession} {msgType sendingTime : Bytes} {fields : List Field}

theorem outgoingFields_free (hscript : Scripted s fields) (htype : soh ∉ msgType)
    (htime : soh ∉ sendingTime) :
    ∀ f ∈ outgoingFields s msgType sendingTime fields, soh ∉ f.value := by
  intro f hf
  rw [outgoingFields_eq, headerRest] at hf
  simp only [List.mem_cons, List.mem_append, List.not_mem_nil, or_false, List.mem_filter] at hf
  rcases hf with rfl | (rfl | rfl | rfl | rfl | rfl) | hf
  · exact hscript.beginString_free
  · exact htype
  · exact hscript.senderCompId_free
  · exact hscript.targetCompId_free
  · exact soh_notMem_intNumeral _
  · exact htime
  · exact hscript.free f hf.1

theorem fields_outgoing (s : FixSession) (msgType sendingTime : Bytes) (fields : List Field) :
    ∃ len cs, wireFields soh ⟨8, s.config.beginString⟩
        (outgoingFields s msgType sendingTime fields).tail =
      (⟨8, s.config.beginString⟩ :: ⟨9, len⟩ :: headerRest s msgType sendingTime) ++
        fields.filter (fun f => !isStandard f) ++ [⟨10, cs⟩] := by
  rw [wireFields, coveredFields, bodyFields_outgoing, checksumField]
  exact ⟨_, _, rfl⟩

theorem outgoing_delivers_iff (hscript : Scripted s fields) (htype : soh ∉ msgType)
    (htime : soh ∉ sendingTime) (hfits : Fits s msgType sendingTime fields) {buffer : Bytes}
    (hbuffer : buffer.length = 4096) :
    ∃ text, serializeMessage (outgoingFields s msgType sendingTime fields) buffer soh = .ok text ∧
      (Delivers s fields text ↔ scriptedType fields = some msgType) := by
  have hbytes := hfits.bytes
  have hsplit : outgoingFields s msgType sendingTime fields = ⟨8, s.config.beginString⟩ ::
      (outgoingFields s msgType sendingTime fields).tail := by
    rw [outgoingFields_eq, List.tail_cons]
  have hfree := outgoingFields_free hscript htype htime
  rw [hsplit] at hfree ⊢
  have hwritten := (serializeMessage_eq_ok_iff ⟨8, s.config.beginString⟩
    (outgoingFields s msgType sendingTime fields).tail
    (show buffer.length < 2 ^ 31 by omega) soh).mpr ⟨rfl, by omega, rfl⟩
  have hslots : (bodyFields (outgoingFields s msgType sendingTime fields).tail).length ≤ 253 := by
    have hcount := hfits.count
    simp only [wireFields, coveredFields, List.length_append, List.length_cons,
      List.length_nil] at hcount
    omega
  have hparse := parse_wire (by decide) (by decide) hfree hslots (lt_of_le_of_lt hbytes (by decide))
  obtain ⟨len, cs, hfields⟩ := fields_outgoing s msgType sendingTime fields
  refine ⟨_, hwritten, ?_⟩
  constructor
  · rintro ⟨msg, hmsg, htyped, _⟩
    obtain rfl := Except.ok.inj (hparse.symm.trans hmsg)
    rw [← htyped, FixMessage.getField, hfields]
    rfl
  · intro htyped
    refine ⟨_, hparse, ?_, ?_, ?_, ?_, ?_, ⟨_, _, hfields, rfl, rfl⟩⟩
    · rw [htyped, FixMessage.getField, hfields]
      rfl
    · rw [FixMessage.getField, hfields]
      rfl
    · rw [FixMessage.getField, hfields]
      rfl
    · rw [FixMessage.getField, hfields]
      rfl
    · apply getInt_eq_some_iff.mpr
      refine ⟨intNumeral s.nextOutSeq.toInt, ?_, (spells_intNumeral _).leads⟩
      rw [FixMessage.getField, hfields]
      rfl

/-- The first scripted field with tag 35 gives the message type if it comes first, or if it
names the type that is put in without one. -/
theorem scriptedType_eq_headType_iff (fallback : Bytes) (h : ∃ f ∈ fields, f.tag = 35) :
    scriptedType fields = some (headType fallback fields) ↔
      (fields.head?.map Field.tag = some 35 ∨ scriptedType fields = some fallback) := by
  cases fields with
  | nil =>
    obtain ⟨f, hf, _⟩ := h
    exact absurd hf List.not_mem_nil
  | cons f fields =>
    by_cases hf : f.tag = 35
    · simp [scriptedType, headType, hf]
    · simp [headType, hf]

theorem soh_notMem_headType {fallback : Bytes} (hfallback : soh ∉ fallback)
    (hfree : ∀ f ∈ fields, soh ∉ f.value) : soh ∉ headType fallback fields := by
  cases fields with
  | nil => exact hfallback
  | cons f fields =>
    rw [headType]
    split_ifs
    · exact hfree f List.mem_cons_self
    · exact hfallback

theorem headType_delivers_iff {fallback : Bytes} (hfallback : soh ∉ fallback)
    (hscript : Scripted s fields) (htime : soh ∉ sendingTime)
    (hfits : Fits s (headType fallback fields) sendingTime fields) {buffer : Bytes}
    (hbuffer : buffer.length = 4096) :
    ∃ first rest text, fields = first :: rest ∧
      serializeMessage (outgoingFields s (if first.tag = 35 then first.value else fallback)
        sendingTime fields) buffer soh = .ok text ∧
      (Delivers s fields text ↔
        (fields.head?.map Field.tag = some 35 ∨ scriptedType fields = some fallback)) := by
  obtain ⟨text, hwritten, hdelivers⟩ := outgoing_delivers_iff hscript
    (soh_notMem_headType hfallback hscript.free) htime hfits hbuffer
  rw [scriptedType_eq_headType_iff _ hscript.typed] at hdelivers
  cases fields with
  | nil =>
    obtain ⟨f, hf, _⟩ := hscript.typed
    exact absurd hf List.not_mem_nil
  | cons first rest => exact ⟨first, rest, text, rfl, hwritten, hdelivers⟩

end Outgoing

/-- What a SEND step or a mock response puts on the wire is what its fields say exactly when
the first field is the message type, or the type is the one put in without it. -/
theorem scripted_delivered_iff {W : Type} (env : Environment W) :
    (∀ (st : RunState W) (step : ScenarioStep) (todo : List ScenarioStep), step.type = .send →
      Scripted st.session step.fields →
      Fits st.session (headType (ascii "0") step.fields)
        (getSendingTime env.gmtime (env.systemNow st.world).1) step.fields →
      ∃ e, (beginStep env st step todo).2 = [.sent e] ∧
        (Delivers st.session step.fields e.text ↔
          (step.fields.head?.map Field.tag = some 35 ∨
            scriptedType step.fields = some (ascii "0")))) ∧
    ∀ (received : FixMessage) (rule : ScenarioStep) (rules : List ScenarioStep) (world : W)
      (session : FixSession) (trigger : Field) (response : List Field),
      rule.fields = trigger :: response →
      received.getField trigger.tag = some trigger.value → Scripted session response →
      Fits session (headType (ascii "8") response)
        (getSendingTime env.gmtime (env.systemNow world).1) response →
      ∃ e world', processMocks env received (rule :: rules) world session =
          (true, world', session.onMessageSent, [.sent e]) ∧
        (Delivers session response e.text ↔
          (response.head?.map Field.tag = some 35 ∨ scriptedType response = some (ascii "8"))) := by
  constructor
  · intro st step todo hsend hscript hfits
    obtain ⟨first, rest, text, hfields, hwritten, hdelivers⟩ := headType_delivers_iff (by decide)
      hscript (soh_notMem_getSendingTime _ _) hfits (env.serializeBuf_length
        (env.systemNow st.world).2)
    rw [hfields] at hwritten hdelivers ⊢
    simp only [beginStep, hsend, hfields, sendStep, hwritten]
    cases hok : env.send (env.systemNow st.world).2 text with
    | mk ok world =>
      cases ok with
      | true => exact ⟨_, rfl, hdelivers⟩
      | false => exact ⟨_, rfl, hdelivers⟩
  · intro received rule rules world session trigger response hrule htrigger hscript hfits
    obtain ⟨first, rest, text, rfl, hwritten, hdelivers⟩ := headType_delivers_iff (by decide)
      hscript (soh_notMem_getSendingTime _ _) hfits (env.serializeBuf_length (env.systemNow world).2)
    simp only [processMocks, hrule, htrigger, if_true, hwritten]
    exact ⟨_, _, rfl, hdelivers⟩

def orderStep (fields : List Field) : ScenarioStep := ⟨.send, fields⟩

def idleState : RunState Script :=
  { world := { inbox := [] }, session := freshSession, control := .stepping [] }

/-- The message types of the messages that went out, as a parser reads them. -/
def sentTypes (es : List Event) : List (Option Bytes) :=
  es.filterMap fun
    | .sent e =>
      match FixMessage.parse e.text soh with
      | .ok msg => some (msg.getField 35)
      | .error _ => none
    | _ => none

theorem scripted_delivered_typeFirst :
    ∃ e, (beginStep scripted idleState (orderStep [⟨35, ascii "D"⟩, ⟨55, ascii "X"⟩]) []).2 =
        [.sent e] ∧
      (Delivers freshSession [⟨35, ascii "D"⟩, ⟨55, ascii "X"⟩] e.text ↔
        (some (35 : Int32) = some 35 ∨ some (ascii "D") = some (ascii "0"))) :=
  (scripted_delivered_iff scripted).1 idleState (orderStep [⟨35, ascii "D"⟩, ⟨55, ascii "X"⟩]) []
    rfl ⟨by decide, by decide, by decide, by decide, by decide⟩ ⟨by decide +kernel, by decide⟩

/-- An order whose message type is not its first field goes out as a heartbeat. -/
theorem scripted_delivered_typeBehind :
    ¬ ∀ (W : Type) (env : Environment W) (st : RunState W) (step : ScenarioStep)
      (todo : List ScenarioStep), step.type = .send → Scripted st.session step.fields →
      Fits st.session (headType (ascii "0") step.fields)
        (getSendingTime env.gmtime (env.systemNow st.world).1) step.fields →
      ∃ e, (beginStep env st step todo).2 = [.sent e] ∧
        Delivers st.session step.fields e.text := by
  intro h
  obtain ⟨e, hsent, msg, hparse, htype, _⟩ := h Script scripted idleState
    (orderStep [⟨55, ascii "X"⟩, ⟨35, ascii "D"⟩]) [] rfl
    ⟨by decide, by decide, by decide, by decide, by decide⟩ ⟨by decide +kernel, by decide⟩
  have hwire : sentTypes (beginStep scripted idleState
      (orderStep [⟨55, ascii "X"⟩, ⟨35, ascii "D"⟩]) []).2 = [some (ascii "0")] := by
    decide +kernel
  rw [hsent] at hwire
  simp only [sentTypes, List.filterMap_cons, hparse, htype, List.filterMap_nil] at hwire
  exact absurd hwire (by decide)

end Fixure
