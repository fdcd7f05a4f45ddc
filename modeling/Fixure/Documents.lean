import Fixure.Sections

/-!
# Dictionaries in any arrangement

Behind the section of fields, sections of messages and other elements may follow in any
order. The reader takes the tags behind a message that closes itself for tags inside it, up to
the next message.
-/

namespace Fixure
open Tables

/-! ### Documents -/

/-- What can stand behind the section of fields: a tag outside of any message, the ends of a
section of messages, or a message. -/
inductive Item
  | inner (content : Bytes) (h : Inner content)
  | openMessages
  | closeMessages
  | message (e : MessageElement)

theorem root_inner : ∀ c ∈ [ascii "fix"], Inner c := by decide +kernel

theorem rootEnd_inner : Inner (ascii "/fix") := by decide +kernel

def Item.tags : Item → List Bytes
  | .inner content _ => [content]
  | .openMessages => [ascii "messages"]
  | .closeMessages => [ascii "/messages"]
  | .message e => e.tags

/-- Messages stand in sections of messages only; `inside` says whether the first item does. -/
def Placed (inside : Bool) : List Item → Prop
  | [] => True
  | .inner _ _ :: items => Placed inside items
  | .openMessages :: items => Placed true items
  | .closeMessages :: items => Placed false items
  | .message _ :: items => inside = true ∧ Placed inside items

/-- The text up to the end of the section of fields. -/
structure Opening where
  prologue : List Bytes
  fields : List Bytes
  prologue_inner : ∀ c ∈ prologue, Inner c
  fields_inner : ∀ c ∈ fields, Inner c

namespace Opening

def sections (o : Opening) : Sections where
  prologue := o.prologue
  fields := o.fields
  messages := []
  epilogue := []
  prologue_inner := o.prologue_inner
  fields_inner := o.fields_inner
  epilogue_other := List.forall_mem_nil _

def tags (o : Opening) (items : List Item) : List Bytes :=
  o.prologue ++ (o.sections.fieldsSection ++ items.flatMap Item.tags)

/-- The tag of a field name: that of its last definition. -/
def number (o : Opening) (name : Bytes) : Option Int32 := o.sections.number name

end Opening

/-! ### What is taken for the fields of a message -/

/-- The tags up to the next message. -/
def strays : List Item → List Bytes
  | [] => []
  | .inner content _ :: items => content :: strays items
  | .openMessages :: items => strays items
  | .closeMessages :: items => strays items
  | .message _ :: _ => []

/-- The tags that are taken for children of the message when `later` follows it. -/
def MessageElement.taken (e : MessageElement) (later : List Item) : List Bytes :=
  e.children ++ if e.selfClosed then strays later else []

/-- The last message of the type, with what follows it. -/
def lastOf (msgType : Bytes) : List Item → Option (MessageElement × List Item)
  | [] => none
  | .inner _ _ :: items => lastOf msgType items
  | .openMessages :: items => lastOf msgType items
  | .closeMessages :: items => lastOf msgType items
  | .message e :: items =>
    (lastOf msgType items).or (if e.message.msgType = msgType then some (e, items) else none)

/-- The definition of the message as it is read. -/
def readAs (number : Bytes → Option Int32) (place : MessageElement × List Item) : MessageDef :=
  { place.1.message with fields := fill ∅ (flags number (place.1.taken place.2)) }

/-! ### Reading the items -/

/-- The table has the current message, and none without a type. -/
structure Tracks (r : Reader) : Prop where
  known : r.currentMessageType ≠ [] → ∃ m, r.dict.messages.lookup r.currentMessageType = some m
  typed : r.dict.messages.lookup [] = none

def addFlags (fs : List (Int32 × Bool)) (m : MessageDef) : MessageDef :=
  { m with fields := fill m.fields fs }

theorem addFlags_append (fs fs' : List (Int32 × Bool)) (m : MessageDef) :
    addFlags fs' (addFlags fs m) = addFlags (fs ++ fs') m := by
  simp [addFlags, fill]

theorem addFlags_nil (m : MessageDef) : addFlags [] m = m := rfl

theorem flags_nil (number : Bytes → Option Int32) : flags number [] = [] := rfl

theorem flags_append (number : Bytes → Option Int32) (tags tags' : List Bytes) :
    flags number (tags ++ tags') = flags number tags ++ flags number tags' :=
  List.filterMap_append

theorem readAs_of_meaning (number : Bytes → Option Int32) (e : MessageElement)
    (later : List Item) :
    readAs number (e, later) =
      if e.selfClosed then addFlags (flags number (strays later)) (e.meaning number)
      else e.meaning number := by
  simp only [readAs, MessageElement.taken, MessageElement.meaning, flags_append]
  split_ifs
  · simp [addFlags, fill]
  · rw [flags_nil, List.append_nil]

theorem foldl_setRequired_nameToTag (msgType : Bytes) (fs : List (Int32 × Bool)) (d : Dictionary) :
    (fs.foldl (fun d flag => d.setRequired msgType flag.1 flag.2) d).nameToTag = d.nameToTag := by
  induction fs generalizing d with
  | nil => rfl
  | cons f fs ih => exact ih _

theorem lookup_setRequired {d : Dictionary} {msgType : Bytes} {m : MessageDef}
    (h : d.messages.lookup msgType = some m) (f : Int32 × Bool) (msgType' : Bytes) :
    (d.setRequired msgType f.1 f.2).messages.lookup msgType' =
      if msgType' = msgType then some (addFlags [f] m) else d.messages.lookup msgType' := by
  simp only [Dictionary.setRequired, lookup_insert_eq, h, Option.getD_some]
  rfl

theorem lookup_foldl_setRequired {d : Dictionary} {msgType : Bytes} {m : MessageDef}
    (h : d.messages.lookup msgType = some m) (fs : List (Int32 × Bool)) (msgType' : Bytes) :
    (fs.foldl (fun d flag => d.setRequired msgType flag.1 flag.2) d).messages.lookup msgType' =
      if msgType' = msgType then some (addFlags fs m) else d.messages.lookup msgType' := by
  induction fs generalizing d m with
  | nil =>
    split_ifs with htype
    · rw [htype]
      exact h
    · rfl
  | cons f fs ih =>
    have hset := lookup_setRequired h f
    have hfirst := hset msgType
    rw [if_pos rfl] at hfirst
    rw [List.foldl_cons, ih hfirst, hset, addFlags_append]
    split_ifs <;> rfl

/-- What is read for a message type: the flags that the rest of the current message sets, until
another message of the type is defined. -/
def outcome (r : Reader) (items : List Item) (msgType : Bytes) : Option MessageDef :=
  ((lastOf msgType items).map (readAs r.dict.nameToTag.lookup)).or
    ((r.dict.messages.lookup msgType).map fun m =>
      if r.currentMessageType = msgType then
        addFlags (flags r.dict.nameToTag.lookup (strays items)) m
      else m)

/-- Reading an item in `r` gives `r'`, and nothing is lost of what `outcome` says. -/
structure Keeps (r r' : Reader) (item : Item) : Prop where
  inFieldsSection : r'.inFieldsSection = false
  placed : ∀ items, Placed r.inMessagesSection (item :: items) → Placed r'.inMessagesSection items
  tracks : Tracks r'
  outcome : ∀ items msgType, outcome r' items msgType = outcome r (item :: items) msgType

section Step
variable {r : Reader} (hf : r.inFieldsSection = false) (htracks : Tracks r)
include hf htracks

theorem keeps_inner {content : Bytes} (h : Inner content) :
    Keeps r (r.readTag content) (.inner content h) := by
  have hone : ∀ c ∈ [content], Inner c := List.forall_mem_singleton.mpr h
  by_cases hm : r.currentMessageType = []
  · have hread : r.readTag content = r := foldl_outside hone hf hm
    rw [hread]
    refine ⟨hf, fun items hp => hp, htracks, fun items msgType => ?_⟩
    simp only [Fixure.outcome, lastOf]
    by_cases htype : r.currentMessageType = msgType
    · rw [← htype, hm, htracks.typed]
      rfl
    · simp only [if_neg htype]
  · have hread : r.readTag content =
        { r with
          dict := (flags r.dict.nameToTag.lookup [content]).foldl
            (fun d flag => d.setRequired r.currentMessageType flag.1 flag.2) r.dict } :=
      foldl_children hone hf hm
    obtain ⟨m, hknown⟩ := htracks.known hm
    have hlookup := lookup_foldl_setRequired hknown (flags r.dict.nameToTag.lookup [content])
    have hnumber := foldl_setRequired_nameToTag r.currentMessageType
      (flags r.dict.nameToTag.lookup [content]) r.dict
    rw [hread]
    refine ⟨hf, fun items hp => hp, ⟨fun _ => ?_, ?_⟩, fun items msgType => ?_⟩
    · exact ⟨_, (hlookup _).trans (if_pos rfl)⟩
    · exact (hlookup []).trans ((if_neg (Ne.symm hm)).trans htracks.typed)
    · simp only [Fixure.outcome, hnumber, lastOf, hlookup]
      by_cases htype : r.currentMessageType = msgType
      · have hstrays : flags r.dict.nameToTag.lookup (strays (.inner content h :: items)) =
            flags r.dict.nameToTag.lookup [content] ++ flags r.dict.nameToTag.lookup (strays items) :=
          flags_append _ [content] (strays items)
        subst htype
        simp only [if_true, hknown, Option.map_some, addFlags_append, hstrays]
      · simp only [if_neg htype, if_neg (Ne.symm htype)]

theorem keeps_openMessages : Keeps r (r.readTag (ascii "messages")) .openMessages := by
  have hread : r.readTag (ascii "messages") = { r with inMessagesSection := true } := by
    rw [readTag_eq, show tagKind (ascii "messages") = .openMessages by decide]
  rw [hread]
  exact ⟨hf, fun items hp => hp, ⟨htracks.known, htracks.typed⟩, fun items msgType => rfl⟩

theorem keeps_closeMessages : Keeps r (r.readTag (ascii "/messages")) .closeMessages := by
  have hread : r.readTag (ascii "/messages") = { r with inMessagesSection := false } := by
    rw [readTag_eq, show tagKind (ascii "/messages") = .closeMessages by decide]
  rw [hread]
  exact ⟨hf, fun items hp => hp, ⟨htracks.known, htracks.typed⟩, fun items msgType => rfl⟩

theorem keeps_message (e : MessageElement) (hm : r.inMessagesSection = true) :
    Keeps r (e.tags.foldl Reader.readTag r) (.message e) := by
  obtain ⟨htype, hfields⟩ := MessageElement.message_of_def e.head_def
  have hlookup (msgType : Bytes) :
      (r.dict.defineMessage (e.meaning r.dict.nameToTag.lookup)).messages.lookup msgType =
        if msgType = e.message.msgType then some (e.meaning r.dict.nameToTag.lookup)
        else r.dict.messages.lookup msgType := lookup_insert_eq _ _ _ _
  rw [e.foldl_tags hf hm]
  refine ⟨hf, fun items hp => hp.2, ⟨fun hne => ?_, ?_⟩, fun items msgType => ?_⟩
  · have hcurrent : e.current = e.message.msgType := by
      simp only [MessageElement.current, ite_eq_left_iff]
      intro hclosed
      simp only [MessageElement.current, if_neg hclosed] at hne
      exact absurd rfl hne
    exact ⟨_, (hlookup _).trans (if_pos hcurrent)⟩
  · exact (hlookup []).trans ((if_neg (Ne.symm htype)).trans htracks.typed)
  · simp only [Fixure.outcome, lastOf, strays, hlookup, flags_nil, addFlags_nil, ite_self]
    by_cases hother : msgType = e.message.msgType
    · have hcurrent : (e.current = e.message.msgType) = (e.selfClosed = true) :=
        propext ⟨fun h => by_contra fun hopen => htype (h.symm.trans (if_neg hopen)),
          fun h => if_pos h⟩
      subst hother
      simp only [if_true, Option.map_some, hcurrent]
      cases lastOf e.message.msgType items with
      | none =>
        simp only [Option.map_none, Option.none_or, Option.map_some, Option.some_or,
          readAs_of_meaning]
        rfl
      | some place => rfl
    · simp only [if_neg hother, if_neg (Ne.symm hother), Option.or_none]
      congr 1
      by_cases hnone : msgType = []
      · rw [hnone, htracks.typed]
        rfl
      · have hcurrent : e.current ≠ msgType := by
          rw [MessageElement.current]
          split_ifs
          · exact Ne.symm hother
          · exact Ne.symm hnone
        simp only [if_neg hcurrent]

end Step

theorem lookup_items (items : List Item) {r : Reader} (hf : r.inFieldsSection = false)
    (hplaced : Placed r.inMessagesSection items) (htracks : Tracks r) (msgType : Bytes) :
    ((items.flatMap Item.tags).foldl Reader.readTag r).dict.messages.lookup msgType =
      outcome r items msgType := by
  induction items generalizing r with
  | nil =>
    rw [outcome, lastOf, strays, List.flatMap_nil, List.foldl_nil]
    cases r.dict.messages.lookup msgType with
    | none => rfl
    | some m => simp [flags, addFlags, fill]
  | cons item items ih =>
    have hstep : Keeps r (item.tags.foldl Reader.readTag r) item := by
      cases item with
      | inner content h => exact keeps_inner hf htracks h
      | openMessages => exact keeps_openMessages hf htracks
      | closeMessages => exact keeps_closeMessages hf htracks
      | message e => exact keeps_message hf htracks e hplaced.1
    rw [List.flatMap_cons, List.foldl_append,
      ih hstep.inFieldsSection (hstep.placed items hplaced) hstep.tracks, hstep.outcome]

/-! ### The dictionary of a document -/

namespace Opening

def dictionary (o : Opening) (items : List Item) : Dictionary :=
  ((o.tags items).foldl Reader.readTag {}).dict

theorem parseXml_tags (o : Opening) {items : List Item} {xml : Bytes}
    (h : HasTags (o.tags items) xml) : Dictionary.parseXml xml = .ok (o.dictionary items) :=
  Dictionary.parseXml_hasTags h

theorem dictionary_messages (o : Opening) {items : List Item} (hplaced : Placed false items)
    (msgType : Bytes) :
    (o.dictionary items).messages.lookup msgType =
      (lastOf msgType items).map (readAs o.number) := by
  have hnumber : (fill ∅ ((fieldDefs o.fields).map fun f => (f.name, f.tag))).lookup =
      o.number := by
    funext name
    exact lookup_fill_empty _ name
  have htracks : Tracks { dict := (fieldDefs o.fields).foldl Dictionary.define {} } := by
    refine ⟨fun h => absurd rfl h, ?_⟩
    simp only [foldl_define]
    rfl
  have hitems := lookup_items items
    (r := { dict := (fieldDefs o.fields).foldl Dictionary.define {} }) rfl hplaced htracks msgType
  rw [dictionary, tags, List.foldl_append, List.foldl_append,
    foldl_outside o.prologue_inner rfl rfl, Sections.foldl_fieldsSection]
  refine hitems.trans ?_
  simp only [outcome, foldl_define, hnumber]
  exact Option.or_none

theorem dictionary_isRequired (o : Opening) {items : List Item} (hplaced : Placed false items)
    (msgType : Bytes) (tag : Int32) :
    (o.dictionary items).isRequired msgType tag =
      ((lastOf msgType items).bind fun place =>
        lastEntry (flags o.number (place.1.taken place.2)) tag).getD false := by
  rw [Dictionary.isRequired, o.dictionary_messages hplaced]
  cases lastOf msgType items with
  | none => rfl
  | some place => exact congrArg (Option.getD · false) (lookup_fill_empty _ tag)

end Opening

theorem Dictionary.validateMessage_iff_isRequired (iteration : Iteration) (d : Dictionary)
    (msgType : Bytes) (msg : FixMessage) :
    d.validateMessage iteration msgType msg = .ok () ↔
      d.messages.lookup msgType ≠ none ∧
        ∀ tag, d.isRequired msgType tag = true → msg.getField tag ≠ none := by
  rw [validateMessage_eq_ok_iff]
  simp only [isRequired]
  cases d.messages.lookup msgType with
  | none => simp
  | some it =>
    have hflag (tag : Int32) :
        (it.fields.lookup tag).getD false = true ↔ it.fields.lookup tag = some true := by
      cases it.fields.lookup tag with
      | none => simp
      | some req => simp
    simp [hflag]

end Fixure
