import Fixure.Dictionary

/-!
# The sections of a dictionary

A dictionary with one section of fields and one of messages is read into the tables of its
definitions, the last definition of a key being the one that counts. The fields of a
message are looked up while it is read, so they are lost when the messages come first.
-/

namespace Fixure
open Tables

/-! ### Kinds of tags -/

inductive TagKind
  | openFields
  | openMessages
  | closeFields
  | closeMessages
  | closeMessage
  | field
  | message
  | other
  deriving DecidableEq

def tagKind (content : Bytes) : TagKind :=
  if ascii "/" <+: content then
    if content.drop 1 = ascii "fields" then .closeFields
    else if content.drop 1 = ascii "messages" then .closeMessages
    else if content.drop 1 = ascii "message" then .closeMessage
    else .other
  else if tagName content = ascii "fields" then .openFields
  else if tagName content = ascii "messages" then .openMessages
  else if tagName content = ascii "field" then .field
  else if tagName content = ascii "message" then .message
  else .other

theorem readTag_eq (r : Reader) (content : Bytes) :
    r.readTag content =
      match tagKind content with
      | .openFields => { r with inFieldsSection := true }
      | .openMessages => { r with inMessagesSection := true }
      | .closeFields => { r with inFieldsSection := false }
      | .closeMessages => { r with inMessagesSection := false }
      | .closeMessage => { r with currentMessageType := [] }
      | .field =>
        if r.inFieldsSection then r.defineField content
        else if r.currentMessageType ≠ [] then r.listField content
        else r
      | .message => if r.inMessagesSection then r.defineMessage content else r
      | .other => r := by
  rw [Reader.readTag, tagKind]
  by_cases hslash : ascii "/" <+: content
  · simp only [if_pos hslash, Reader.endTag]
    split_ifs <;> rfl
  · simp only [if_neg hslash]
    by_cases hfields : tagName content = ascii "fields"
    · simp only [if_pos hfields]
    by_cases hmessages : tagName content = ascii "messages"
    · simp only [if_neg hfields, if_pos hmessages]
    by_cases hfield : tagName content = ascii "field"
    · simp only [if_neg hfields, if_neg hmessages, if_pos hfield]
    by_cases hmessage : tagName content = ascii "message"
    · simp only [if_neg hfields, if_neg hmessages, if_neg hfield, if_pos hmessage,
        and_iff_right hmessage]
    · have hand : ¬ (tagName content = ascii "message" ∧ r.inMessagesSection = true) :=
        fun h => hmessage h.1
      simp only [if_neg hfields, if_neg hmessages, if_neg hfield, if_neg hmessage, if_neg hand]

/-- A tag that neither opens nor closes anything the reader keeps track of. -/
def Inner (content : Bytes) : Prop := tagKind content = .field ∨ tagKind content = .other

instance : DecidablePred Inner := fun c =>
  inferInstanceAs (Decidable (tagKind c = .field ∨ tagKind c = .other))

/-! ### Reading the parts -/

def fieldDefs (tags : List Bytes) : List FieldDef :=
  tags.filterMap fun c => if tagKind c = .field then fieldDef c else none

/-- The flags that the tags set, when `number` gives the tags of the names. -/
def flags (number : Bytes → Option Int32) (tags : List Bytes) : List (Int32 × Bool) :=
  tags.filterMap fun c =>
    if tagKind c = .field then
      (fieldRef c).bind fun ref => (number ref.1).map fun tag => (tag, ref.2)
    else none

section Parts
variable {r : Reader} {tags : List Bytes} (hinner : ∀ c ∈ tags, Inner c)
include hinner

theorem foldl_outside (hf : r.inFieldsSection = false) (hm : r.currentMessageType = []) :
    tags.foldl Reader.readTag r = r := by
  induction tags with
  | nil => rfl
  | cons c tags ih =>
    rw [List.forall_mem_cons] at hinner
    have hc : r.readTag c = r := by
      rw [readTag_eq]
      rcases hinner.1 with hk | hk
      · simp [hk, hf, hm]
      · simp [hk]
    rw [List.foldl_cons, hc]
    exact ih hinner.2

theorem foldl_fields (hf : r.inFieldsSection = true) :
    tags.foldl Reader.readTag r =
      { r with dict := (fieldDefs tags).foldl Dictionary.define r.dict } := by
  induction tags generalizing r with
  | nil => rfl
  | cons c tags ih =>
    rw [List.forall_mem_cons] at hinner
    rcases hinner.1 with hk | hk
    · cases hdef : fieldDef c with
      | none =>
        have hc : r.readTag c = r := by simp [readTag_eq, hk, hf, Reader.defineField, hdef]
        have hdefs : fieldDefs (c :: tags) = fieldDefs tags := by simp [fieldDefs, hk, hdef]
        rw [List.foldl_cons, hc, hdefs]
        exact ih hinner.2 hf
      | some f =>
        have hc : r.readTag c = { r with dict := r.dict.define f } := by
          simp [readTag_eq, hk, hf, Reader.defineField, hdef]
        have hdefs : fieldDefs (c :: tags) = f :: fieldDefs tags := by simp [fieldDefs, hk, hdef]
        rw [List.foldl_cons, hc, hdefs]
        exact ih hinner.2 hf
    · have hc : r.readTag c = r := by simp [readTag_eq, hk]
      have hdefs : fieldDefs (c :: tags) = fieldDefs tags := by simp [fieldDefs, hk]
      rw [List.foldl_cons, hc, hdefs]
      exact ih hinner.2 hf

theorem foldl_children (hf : r.inFieldsSection = false) (hm : r.currentMessageType ≠ []) :
    tags.foldl Reader.readTag r =
      { r with
        dict := (flags r.dict.nameToTag.lookup tags).foldl
          (fun d flag => d.setRequired r.currentMessageType flag.1 flag.2) r.dict } := by
  induction tags generalizing r with
  | nil => rfl
  | cons c tags ih =>
    rw [List.forall_mem_cons] at hinner
    have hskip (hc : r.readTag c = r)
        (hflags : flags r.dict.nameToTag.lookup (c :: tags) =
          flags r.dict.nameToTag.lookup tags) :
        (c :: tags).foldl Reader.readTag r =
          { r with
            dict := (flags r.dict.nameToTag.lookup (c :: tags)).foldl
              (fun d flag => d.setRequired r.currentMessageType flag.1 flag.2) r.dict } := by
      rw [List.foldl_cons, hc, hflags]
      exact ih hinner.2 hf hm
    rcases hinner.1 with hk | hk
    · cases href : fieldRef c with
      | none =>
        apply hskip
        · simp [readTag_eq, hk, hf, hm, Reader.listField, href]
        · simp [flags, hk, href]
      | some ref =>
        obtain ⟨name, req⟩ := ref
        cases htag : r.dict.nameToTag.lookup name with
        | none =>
          apply hskip
          · simp [readTag_eq, hk, hf, hm, Reader.listField, href, htag]
          · simp [flags, hk, href, htag]
        | some tag =>
          have hc : r.readTag c =
              { r with dict := r.dict.setRequired r.currentMessageType tag req } := by
            simp [readTag_eq, hk, hf, hm, Reader.listField, href, htag]
          have hflags : flags r.dict.nameToTag.lookup (c :: tags) =
              (tag, req) :: flags r.dict.nameToTag.lookup tags := by
            simp [flags, hk, href, htag]
          rw [List.foldl_cons, hc, hflags]
          exact ih hinner.2 hf hm
    · apply hskip
      · simp [readTag_eq, hk]
      · simp [flags, hk]

end Parts

/-! ### Tables of definitions -/

theorem foldl_define (defs : List FieldDef) (d : Dictionary) :
    defs.foldl Dictionary.define d =
      { d with
        nameToTag := fill d.nameToTag (defs.map fun f => (f.name, f.tag))
        tagToName := fill d.tagToName (defs.map fun f => (f.tag, f.name))
        tagToType := fill d.tagToType
          ((defs.filter fun f => f.type ≠ []).map fun f => (f.tag, f.type)) } := by
  induction defs generalizing d with
  | nil => rfl
  | cons f defs ih =>
    rw [List.foldl_cons, ih]
    by_cases htype : f.type = []
    · simp [Dictionary.define, fill, htype]
    · simp [Dictionary.define, fill, htype]

theorem foldl_defineMessage (ms : List MessageDef) (d : Dictionary) :
    ms.foldl Dictionary.defineMessage d =
      { d with
        msgNameToType := fill d.msgNameToType (ms.map fun m => (m.name, m.msgType))
        msgTypeToName := fill d.msgTypeToName (ms.map fun m => (m.msgType, m.name))
        messages := fill d.messages (ms.map fun m => (m.msgType, m)) } := by
  induction ms generalizing d with
  | nil => rfl
  | cons m ms ih =>
    rw [List.foldl_cons, ih]
    rfl

theorem foldl_setRequired (fs : List (Int32 × Bool)) (d : Dictionary) (m : MessageDef) :
    fs.foldl (fun d flag => d.setRequired m.msgType flag.1 flag.2) (d.defineMessage m) =
      d.defineMessage { m with fields := fill m.fields fs } := by
  induction fs generalizing m with
  | nil => rfl
  | cons f fs ih =>
    have hset : (d.defineMessage m).setRequired m.msgType f.1 f.2 =
        d.defineMessage { m with fields := m.fields.insert f.1 f.2 } := by
      simp [Dictionary.setRequired, Dictionary.defineMessage, AList.insert_insert]
    rw [List.foldl_cons, hset]
    exact ih { m with fields := m.fields.insert f.1 f.2 }

/-! ### Well-formed dictionaries -/

/-- A `message` element: its start tag, which may close itself, and the tags inside it. -/
structure MessageElement where
  head : Bytes
  children : List Bytes
  selfClosed : Bool
  message : MessageDef
  head_kind : tagKind head = .message
  head_def : messageDef head = some message
  children_inner : ∀ c ∈ children, Inner c
  children_nil : selfClosed = true → children = []

namespace MessageElement

def tags (e : MessageElement) : List Bytes :=
  e.head :: (e.children ++ if e.selfClosed then [] else [ascii "/message"])

def meaning (number : Bytes → Option Int32) (e : MessageElement) : MessageDef :=
  { e.message with fields := fill ∅ (flags number e.children) }

theorem message_of_def {content : Bytes} {m : MessageDef} (h : messageDef content = some m) :
    m.msgType ≠ [] ∧ m.fields = ∅ := by
  simp only [messageDef] at h
  split_ifs at h with hne
  obtain rfl := Option.some.inj h
  exact ⟨hne.2, rfl⟩

/-- A message that closes itself stays the current one. -/
def current (e : MessageElement) : Bytes := if e.selfClosed then e.message.msgType else []

theorem foldl_tags (e : MessageElement) {r : Reader} (hf : r.inFieldsSection = false)
    (hm : r.inMessagesSection = true) :
    e.tags.foldl Reader.readTag r =
      { r with
        currentMessageType := e.current
        dict := r.dict.defineMessage (e.meaning r.dict.nameToTag.lookup) } := by
  obtain ⟨htype, hfields⟩ := message_of_def e.head_def
  have hhead : r.readTag e.head =
      { r with currentMessageType := e.message.msgType, dict := r.dict.defineMessage e.message } := by
    simp [readTag_eq, e.head_kind, hm, Reader.defineMessage, e.head_def]
  have hchildren := foldl_children e.children_inner
    (r := { r with currentMessageType := e.message.msgType, dict := r.dict.defineMessage e.message })
    hf htype
  have hclose (r : Reader) : r.readTag (ascii "/message") = { r with currentMessageType := [] } := by
    rw [readTag_eq, show tagKind (ascii "/message") = .closeMessage by decide]
  rw [tags, List.foldl_cons, List.foldl_append, hhead, hchildren, current]
  simp only [foldl_setRequired, hfields]
  cases e.selfClosed with
  | true => rfl
  | false => exact hclose _

theorem foldl_elements (es : List MessageElement) {r : Reader} (hf : r.inFieldsSection = false)
    (hm : r.inMessagesSection = true) :
    ∃ current, (es.flatMap tags).foldl Reader.readTag r =
      { r with
        currentMessageType := current
        dict := (es.map (meaning r.dict.nameToTag.lookup)).foldl Dictionary.defineMessage r.dict } := by
  induction es generalizing r with
  | nil => exact ⟨r.currentMessageType, rfl⟩
  | cons e es ih =>
    rw [List.flatMap_cons, List.foldl_append, e.foldl_tags hf hm]
    exact ih hf hm

end MessageElement

/-- The tags of a dictionary with one section of either kind. -/
structure Sections where
  prologue : List Bytes
  fields : List Bytes
  messages : List MessageElement
  epilogue : List Bytes
  prologue_inner : ∀ c ∈ prologue, Inner c
  fields_inner : ∀ c ∈ fields, Inner c
  epilogue_other : ∀ c ∈ epilogue, tagKind c = .other

namespace Sections

def fieldsSection (s : Sections) : List Bytes :=
  ascii "fields" :: (s.fields ++ [ascii "/fields"])

def messagesSection (s : Sections) : List Bytes :=
  ascii "messages" :: (s.messages.flatMap MessageElement.tags ++ [ascii "/messages"])

def fieldsFirst (s : Sections) : List Bytes :=
  s.prologue ++ (s.fieldsSection ++ (s.messagesSection ++ s.epilogue))

def messagesFirst (s : Sections) : List Bytes :=
  s.prologue ++ (s.messagesSection ++ (s.fieldsSection ++ s.epilogue))

/-- The tag of a field name: that of its last definition. -/
def number (s : Sections) (name : Bytes) : Option Int32 :=
  lastEntry ((fieldDefs s.fields).map fun f => (f.name, f.tag)) name

/-- The dictionary in which the messages list the fields that `number` knows. -/
def meaning (s : Sections) (number : Bytes → Option Int32) : Dictionary :=
  let defs := fieldDefs s.fields
  { nameToTag := fill ∅ (defs.map fun f => (f.name, f.tag))
    tagToName := fill ∅ (defs.map fun f => (f.tag, f.name))
    tagToType := fill ∅ ((defs.filter fun f => f.type ≠ []).map fun f => (f.tag, f.type))
    msgNameToType := fill ∅ (s.messages.map fun e => (e.message.name, e.message.msgType))
    msgTypeToName := fill ∅ (s.messages.map fun e => (e.message.msgType, e.message.name))
    messages := fill ∅ (s.messages.map fun e => (e.message.msgType, e.meaning number)) }

theorem foldl_fieldsSection (s : Sections) (r : Reader) :
    s.fieldsSection.foldl Reader.readTag r =
      { r with
        inFieldsSection := false
        dict := (fieldDefs s.fields).foldl Dictionary.define r.dict } := by
  have hopen : r.readTag (ascii "fields") = { r with inFieldsSection := true } := by
    rw [readTag_eq, show tagKind (ascii "fields") = .openFields by decide]
  have hclose (r : Reader) : r.readTag (ascii "/fields") = { r with inFieldsSection := false } := by
    rw [readTag_eq, show tagKind (ascii "/fields") = .closeFields by decide]
  rw [fieldsSection, List.foldl_cons, List.foldl_append, hopen, foldl_fields s.fields_inner rfl]
  exact hclose _

theorem foldl_messagesSection (s : Sections) {r : Reader} (hf : r.inFieldsSection = false) :
    ∃ current, s.messagesSection.foldl Reader.readTag r =
      { r with
        currentMessageType := current
        inMessagesSection := false
        dict := (s.messages.map (MessageElement.meaning r.dict.nameToTag.lookup)).foldl
          Dictionary.defineMessage r.dict } := by
  have hopen : r.readTag (ascii "messages") = { r with inMessagesSection := true } := by
    rw [readTag_eq, show tagKind (ascii "messages") = .openMessages by decide]
  have hclose (r : Reader) :
      r.readTag (ascii "/messages") = { r with inMessagesSection := false } := by
    rw [readTag_eq, show tagKind (ascii "/messages") = .closeMessages by decide]
  obtain ⟨current, hes⟩ := MessageElement.foldl_elements s.messages
    (r := { r with inMessagesSection := true }) hf rfl
  rw [messagesSection, List.foldl_cons, List.foldl_append, hopen, hes]
  exact ⟨current, hclose _⟩

theorem foldl_other {tags : List Bytes} (h : ∀ c ∈ tags, tagKind c = .other) (r : Reader) :
    tags.foldl Reader.readTag r = r := by
  induction tags with
  | nil => rfl
  | cons c tags ih =>
    rw [List.forall_mem_cons] at h
    rw [List.foldl_cons, readTag_eq, h.1]
    exact ih h.2

theorem parseXml_fieldsFirst (s : Sections) {xml : Bytes} (h : HasTags s.fieldsFirst xml) :
    Dictionary.parseXml xml = .ok (s.meaning s.number) := by
  have hnumber : (fill ∅ ((fieldDefs s.fields).map fun f => (f.name, f.tag))).lookup =
      s.number := by
    funext name
    exact lookup_fill_empty _ name
  obtain ⟨current, hmessages⟩ := s.foldl_messagesSection
    (r := { dict := (fieldDefs s.fields).foldl Dictionary.define {} }) rfl
  rw [Dictionary.parseXml_hasTags h, fieldsFirst, List.foldl_append, List.foldl_append,
    List.foldl_append, foldl_outside s.prologue_inner rfl rfl, foldl_fieldsSection]
  rw [hmessages, foldl_other s.epilogue_other]
  simp only [foldl_define, foldl_defineMessage, List.map_map, hnumber]
  rfl

theorem parseXml_messagesFirst (s : Sections) {xml : Bytes} (h : HasTags s.messagesFirst xml) :
    Dictionary.parseXml xml = .ok (s.meaning fun _ => none) := by
  obtain ⟨current, hmessages⟩ := s.foldl_messagesSection (r := {}) rfl
  rw [Dictionary.parseXml_hasTags h, messagesFirst, List.foldl_append, List.foldl_append,
    List.foldl_append, foldl_outside s.prologue_inner rfl rfl, hmessages, foldl_fieldsSection,
    foldl_other s.epilogue_other]
  simp only [foldl_define, foldl_defineMessage, List.map_map]
  rfl

/-- The element that counts for a message type: the last one. -/
def lastMessage (s : Sections) (msgType : Bytes) : Option MessageElement :=
  s.messages.reverse.find? fun e => e.message.msgType = msgType

theorem meaning_messages (s : Sections) (number : Bytes → Option Int32) (msgType : Bytes) :
    (s.meaning number).messages.lookup msgType =
      (s.lastMessage msgType).map (MessageElement.meaning number) := by
  rw [meaning, lookup_fill_empty]
  exact lastEntry_map (fun e => e.message.msgType) _ s.messages msgType

theorem meaning_isRequired (s : Sections) (number : Bytes → Option Int32) (msgType : Bytes)
    (tag : Int32) :
    (s.meaning number).isRequired msgType tag =
      match s.lastMessage msgType with
      | some e => (lastEntry (flags number e.children) tag).getD false
      | none => false := by
  rw [Dictionary.isRequired, meaning_messages]
  cases s.lastMessage msgType with
  | none => rfl
  | some e => exact congrArg (Option.getD · false) (lookup_fill_empty _ tag)

end Sections

/-! ### The order of the sections -/

/-- Two dictionaries that answer alike. -/
structure Agree (d d' : Dictionary) : Prop where
  getTag : ∀ name, d.getTag name = d'.getTag name
  getName : ∀ tag, d.getName tag = d'.getName tag
  getMsgType : ∀ msgName, d.getMsgType msgName = d'.getMsgType msgName
  getMsgName : ∀ msgType, d.getMsgName msgType = d'.getMsgName msgType
  isRequired : ∀ msgType tag, d.isRequired msgType tag = d'.isRequired msgType tag
  validateMessage : ∀ iteration msgType msg,
    d.validateMessage iteration msgType msg = d'.validateMessage iteration msgType msg

/-- No message requires a field of the `fields` section. -/
def RequiresNothing (s : Sections) : Prop :=
  ∀ msgType e, s.lastMessage msgType = some e →
    ∀ tag, lastEntry (flags s.number e.children) tag ≠ some true

theorem validate_of_required_false {d : Dictionary}
    (h : ∀ msgType tag, d.isRequired msgType tag = false) (iteration : Iteration) (msgType : Bytes)
    (msg : FixMessage) :
    d.validateMessage iteration msgType msg =
      match d.messages.lookup msgType with
      | none => .error (ascii "Unknown MsgType: " ++ msgType)
      | some _ => .ok () := by
  rw [Dictionary.validateMessage]
  cases hm : d.messages.lookup msgType with
  | none => rfl
  | some it =>
    have hnone : (iteration.order it.fields.keys).find? (fun tag =>
        decide (it.fields.lookup tag = some true ∧ msg.getField tag = none)) = none := by
      apply List.find?_eq_none.mpr
      intro tag _
      have hreq := h msgType tag
      simp only [Dictionary.isRequired, hm] at hreq
      intro hmissing
      rw [(of_decide_eq_true hmissing).1] at hreq
      cases hreq
    simp only [hnone]

theorem meaning_notRequired (s : Sections) (h : RequiresNothing s) (msgType : Bytes) (tag : Int32) :
    (s.meaning s.number).isRequired msgType tag = false := by
  rw [s.meaning_isRequired]
  cases he : s.lastMessage msgType with
  | none => rfl
  | some e =>
    have htag := h msgType e he tag
    simp only
    cases hflag : lastEntry (flags s.number e.children) tag with
    | none => rfl
    | some req =>
      cases req with
      | true => exact absurd hflag htag
      | false => rfl

theorem meaning_unresolved (s : Sections) (msgType : Bytes) (tag : Int32) :
    (s.meaning fun _ => none).isRequired msgType tag = false := by
  rw [s.meaning_isRequired]
  cases s.lastMessage msgType with
  | none => rfl
  | some e =>
    have hflags : flags (fun _ => none) e.children = [] := by
      rw [flags, List.filterMap_eq_nil_iff]
      intro c _
      split_ifs
      · cases fieldRef c <;> rfl
      · rfl
    simp only [hflags]
    rfl

/-- The two orders give dictionaries that answer alike exactly when no message requires a field
of the `fields` section. -/
theorem sections_agree_iff (s : Sections) {xml xml' : Bytes} (h : HasTags s.fieldsFirst xml)
    (h' : HasTags s.messagesFirst xml') :
    (∃ d d', Dictionary.parseXml xml = .ok d ∧ Dictionary.parseXml xml' = .ok d' ∧ Agree d d') ↔
      RequiresNothing s := by
  rw [s.parseXml_fieldsFirst h, s.parseXml_messagesFirst h']
  constructor
  · rintro ⟨d, d', hd, hd', hagree⟩
    obtain rfl := Except.ok.inj hd
    obtain rfl := Except.ok.inj hd'
    intro msgType e he tag htag
    have hreq := hagree.isRequired msgType tag
    rw [meaning_unresolved, s.meaning_isRequired, he] at hreq
    simp only [htag] at hreq
    cases hreq
  · intro hnothing
    refine ⟨_, _, rfl, rfl, fun _ => rfl, fun _ => rfl, fun _ => rfl, fun _ => rfl, ?_, ?_⟩
    · intro msgType tag
      rw [meaning_notRequired s hnothing, meaning_unresolved]
    · intro iteration msgType msg
      rw [validate_of_required_false (meaning_notRequired s hnothing),
        validate_of_required_false (meaning_unresolved s), s.meaning_messages, s.meaning_messages]
      cases s.lastMessage msgType <;> rfl

theorem rootEnd_other : ∀ c ∈ [ascii "/fix"], tagKind c = .other := by decide +kernel

def logonElement : MessageElement where
  head := ascii "message name=\"Logon\" msgtype=\"A\" msgcat=\"admin\""
  children := [ascii "field name=\"HeartBtInt\" required=\"Y\"/"]
  selfClosed := false
  message := ⟨ascii "Logon", ascii "A", ∅⟩
  head_kind := by decide +kernel
  head_def := messageDef_of_attributes (by decide +kernel) (by decide +kernel) (by decide)
  children_inner := by decide +kernel
  children_nil := by decide

def logonSections : Sections where
  prologue := [ascii "fix major=\"4\" minor=\"2\""]
  fields := [ascii "field number=\"108\" name=\"HeartBtInt\" type=\"INT\"/"]
  messages := [logonElement]
  epilogue := [ascii "/fix"]
  prologue_inner := by decide +kernel
  fields_inner := by decide +kernel
  epilogue_other := rootEnd_other

theorem logonSections_fieldsFirst :
    HasTags logonSections.fieldsFirst (spell logonSections.fieldsFirst) :=
  hasTags_spell (by decide +kernel)

theorem logonSections_messagesFirst :
    HasTags logonSections.messagesFirst (spell logonSections.messagesFirst) :=
  hasTags_spell (by decide +kernel)

theorem sections_agree_logon :
    (∃ d d', Dictionary.parseXml (spell logonSections.fieldsFirst) = .ok d ∧
      Dictionary.parseXml (spell logonSections.messagesFirst) = .ok d' ∧ Agree d d') ↔
      RequiresNothing logonSections :=
  sections_agree_iff logonSections logonSections_fieldsFirst logonSections_messagesFirst

theorem sections_agree_required :
    ¬ ∀ (s : Sections) (xml xml' : Bytes), HasTags s.fieldsFirst xml →
      HasTags s.messagesFirst xml' →
      ∃ d d', Dictionary.parseXml xml = .ok d ∧ Dictionary.parseXml xml' = .ok d' ∧ Agree d d' := by
  intro h
  obtain ⟨d, d', hd, hd', hagree⟩ := h logonSections _ _ logonSections_fieldsFirst
    logonSections_messagesFirst
  have hreq : (Dictionary.parseXml (spell logonSections.fieldsFirst)).map
      (fun d => d.isRequired (ascii "A") 108) = .ok true := by decide +kernel
  have hreq' : (Dictionary.parseXml (spell logonSections.messagesFirst)).map
      (fun d => d.isRequired (ascii "A") 108) = .ok false := by decide +kernel
  rw [hd] at hreq
  rw [hd'] at hreq'
  have hfirst : d.isRequired (ascii "A") 108 = true := Except.ok.inj hreq
  have hlast : d'.isRequired (ascii "A") 108 = false := Except.ok.inj hreq'
  rw [hagree.isRequired, hlast] at hfirst
  cases hfirst

end Fixure
