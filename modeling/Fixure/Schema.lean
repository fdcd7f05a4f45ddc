import Fixure.RoundTrip
import Fixure.Sections

/-!
# Dictionaries that are written from a schema

The reader looks for an attribute by its name in the text of the tag, the values of other
attributes included. A name that ends in `msgtype=` or `required=` is therefore taken for the
attribute, and the dictionary conforms to its schema exactly when no such name makes a
difference.
-/

namespace Fixure
open Search Decimal Tables

/-! ### Writing tags -/

/-- A value in double quotes between two texts. -/
def quoted (before value rest : Bytes) : Bytes := before ++ 34 :: (value ++ 34 :: rest)

def rootTag (major minor : Bytes) : Bytes :=
  quoted (ascii "fix major=") major (quoted (ascii " minor=") minor [])

def fieldTag (f : FieldDef) : Bytes :=
  quoted (ascii "field number=") (intNumeral f.tag.toInt)
    (quoted (ascii " name=") f.name (quoted (ascii " type=") f.type (ascii "/")))

def refTag (ref : Bytes × Bool) : Bytes :=
  quoted (ascii "field name=") ref.1
    (quoted (ascii " required=") (if ref.2 then ascii "Y" else ascii "N") (ascii "/"))

structure MessageSpec where
  name : Bytes
  msgType : Bytes
  msgCat : Bytes
  fields : List (Bytes × Bool)

def messageTag (m : MessageSpec) : Bytes :=
  quoted (ascii "message name=") m.name
    (quoted (ascii " msgtype=") m.msgType (quoted (ascii " msgcat=") m.msgCat []))

/-! ### Reading them back -/

section Quoted
variable {attr before value rest : Bytes} (hattr : 34 ∉ attr) (hbefore : 34 ∉ before)
  (hvalue : 34 ∉ value)

theorem found_quoted (h : attr ++ [equals] <:+ before) :
    (attr ++ [equals]) ++ [34] <:+: quoted before value rest := by
  obtain ⟨a, rfl⟩ := h
  exact ⟨a, value ++ 34 :: rest, by simp [quoted]⟩

include hattr hbefore hvalue

theorem getAttribute_quoted (h : attr ++ [equals] <:+ before) :
    getAttribute (quoted before value rest) attr = value := by
  obtain ⟨a, rfl⟩ := h
  have ha : 34 ∉ a := fun hm => hbefore (List.mem_append_left _ hm)
  exact getAttribute_here hattr ha hvalue rest

theorem getAttribute_behind (hb : ¬ attr ++ [equals] <:+ before) (hv : ¬ attr ++ [equals] <:+ value)
    (hfound : (attr ++ [equals]) ++ [34] <:+: rest) :
    getAttribute (quoted before value rest) attr = getAttribute rest attr := by
  have hmore : (attr ++ [equals]) ++ [34] <:+: value ++ 34 :: rest :=
    hfound.trans ⟨value ++ [34], [], by simp⟩
  rw [quoted, getAttribute_skip hattr hbefore hb hmore, getAttribute_skip hattr hvalue hv hfound]

/-- A value that ends like the attribute is taken for it. -/
theorem getAttribute_inside {between next more : Bytes} (hbetween : 34 ∉ between)
    (hb : ¬ attr ++ [equals] <:+ before) (hv : attr ++ [equals] <:+ value) :
    getAttribute (quoted before value (quoted between next more)) attr = between := by
  have hmore : (attr ++ [equals]) ++ [34] <:+: value ++ 34 :: quoted between next more := by
    obtain ⟨a, rfl⟩ := hv
    exact ⟨a, quoted between next more, by simp⟩
  rw [quoted, getAttribute_skip hattr hbefore hb hmore]
  obtain ⟨a, rfl⟩ := hv
  have ha : 34 ∉ a := fun hm => hvalue (List.mem_append_left _ hm)
  exact getAttribute_here hattr ha hbetween _

end Quoted

theorem tagName_append {name rest : Bytes} (h : 32 ∉ name) : tagName (name ++ 32 :: rest) = name := by
  have hfind : find (ascii " ") (name ++ 32 :: rest) = some name.length := find_singleton_append h rest
  simp only [tagName, hfind, List.take_left]

theorem tagKind_append (name : Bytes) (hspace : 32 ∉ name) (hslash : 47 ∉ name) (rest : Bytes) :
    tagKind (name ++ 32 :: rest) = tagKind name := by
  have hname : tagName name = name := by
    have hnone : find (ascii " ") name = none := by
      rw [find_eq_none_iff]
      exact fun h => hspace (h.subset List.mem_cons_self)
    simp only [tagName, hnone]
  have hstart : ¬ ascii "/" <+: name := fun h => hslash (h.subset List.mem_cons_self)
  have hstart' : ¬ ascii "/" <+: name ++ 32 :: rest := by
    intro h
    cases name with
    | nil => exact absurd (List.cons_prefix_cons.mp h).1 (by decide)
    | cons b name => exact hslash ((List.cons_prefix_cons.mp h).1 ▸ List.mem_cons_self)
  rw [tagKind, if_neg hstart', tagName_append hspace, tagKind, if_neg hstart, hname]

theorem tagKind_rootTag (major minor : Bytes) : tagKind (rootTag major minor) = .other :=
  (tagKind_append (ascii "fix") (by decide) (by decide) _).trans (by decide)

theorem tagKind_fieldTag (f : FieldDef) : tagKind (fieldTag f) = .field :=
  (tagKind_append (ascii "field") (by decide) (by decide) _).trans (by decide)

theorem tagKind_refTag (ref : Bytes × Bool) : tagKind (refTag ref) = .field :=
  (tagKind_append (ascii "field") (by decide) (by decide) _).trans (by decide)

theorem fromChars_intNumeral (n : Int32) : fromChars (intNumeral n.toInt) = .parsed n [] := by
  rw [fromChars_eq_parsed_iff]
  exact ⟨intNumeral n.toInt, by rw [List.append_nil], spells_intNumeral _, by simp [NoDigitAhead]⟩

theorem quote_notMem_intNumeral (n : ℤ) : 34 ∉ intNumeral n := by
  intro hm
  rcases (spells_intNumeral n).mem hm with h | h
  · exact absurd h (by decide)
  · exact absurd h (by decide)

theorem not_suffix_intNumeral (attr : Bytes) (n : ℤ) : ¬ attr ++ [equals] <:+ intNumeral n := by
  intro h
  exact equals_notMem_of_spells (spells_intNumeral n) (h.subset (by simp))

theorem fieldDef_fieldTag {f : FieldDef} (hplain : 34 ∉ f.name) (hne : f.name ≠ []) :
    ∃ type, fieldDef (fieldTag f) = some { f with type := type } := by
  have hnumber : getAttribute (fieldTag f) (ascii "number") = intNumeral f.tag.toInt :=
    getAttribute_quoted (by decide) (by decide) (quote_notMem_intNumeral _) ⟨ascii "field ", rfl⟩
  have hname : getAttribute (fieldTag f) (ascii "name") = f.name := by
    rw [fieldTag, getAttribute_behind (by decide) (by decide) (quote_notMem_intNumeral _)
      (by decide) (not_suffix_intNumeral _ _) (found_quoted (by decide))]
    exact getAttribute_quoted (by decide) (by decide) hplain (by decide)
  have hnum : intNumeral f.tag.toInt ≠ [] := (spells_intNumeral _).ne_nil
  refine ⟨getAttribute (fieldTag f) (ascii "type"), ?_⟩
  simp only [fieldDef, hnumber, hname, fromChars_intNumeral, if_pos (And.intro hnum hne)]

/-- The flag that is read for a field of a message. -/
def readFlag (ref : Bytes × Bool) : Bool := ref.2 && !decide (ascii "required=" <:+ ref.1)

theorem fieldRef_refTag {ref : Bytes × Bool} (hplain : 34 ∉ ref.1) (hne : ref.1 ≠ []) :
    fieldRef (refTag ref) = some (ref.1, readFlag ref) := by
  have hname : getAttribute (refTag ref) (ascii "name") = ref.1 :=
    getAttribute_quoted (by decide) (by decide) hplain ⟨ascii "field ", rfl⟩
  have hvalue : 34 ∉ (if ref.2 then ascii "Y" else ascii "N") := by
    cases ref.2 <;> decide
  have hrequired : (getAttribute (refTag ref) (ascii "required") = ascii "Y" ∨
      getAttribute (refTag ref) (ascii "required") = ascii "y") ↔ readFlag ref = true := by
    by_cases hends : ascii "required=" <:+ ref.1
    · have hread : getAttribute (refTag ref) (ascii "required") = ascii " required=" :=
        getAttribute_inside (by decide) (by decide) hplain (by decide) (by decide) hends
      rw [hread, readFlag, decide_eq_true hends]
      simp
      decide
    · have hread : getAttribute (refTag ref) (ascii "required") =
          if ref.2 then ascii "Y" else ascii "N" := by
        rw [refTag, getAttribute_behind (by decide) (by decide) hplain (by decide) hends
          (found_quoted (by decide))]
        exact getAttribute_quoted (by decide) (by decide) hvalue (by decide)
      rw [hread, readFlag, decide_eq_false hends]
      cases ref.2 <;> decide
  simp only [fieldRef, hname, if_pos hne]
  congr 2
  rw [Bool.eq_iff_iff, decide_eq_true_iff]
  exact hrequired

/-- The message type that is read for a message. -/
def readType (m : MessageSpec) : Bytes :=
  if ascii "msgtype=" <:+ m.name then ascii " msgtype=" else m.msgType

theorem readType_ne {m : MessageSpec} (h : m.msgType ≠ []) : readType m ≠ [] := by
  rw [readType]
  split_ifs
  · decide
  · exact h

theorem messageDef_messageTag {m : MessageSpec} (hname : 34 ∉ m.name) (htype : 34 ∉ m.msgType)
    (hne : m.name ≠ []) (htne : m.msgType ≠ []) :
    messageDef (messageTag m) = some ⟨m.name, readType m, ∅⟩ := by
  have hread : getAttribute (messageTag m) (ascii "name") = m.name :=
    getAttribute_quoted (by decide) (by decide) hname ⟨ascii "message ", rfl⟩
  have htread : getAttribute (messageTag m) (ascii "msgtype") = readType m := by
    rw [readType]
    split_ifs with hends
    · exact getAttribute_inside (by decide) (by decide) hname (by decide) (by decide) hends
    · rw [messageTag, getAttribute_behind (by decide) (by decide) hname (by decide) hends
        (found_quoted (by decide))]
      exact getAttribute_quoted (by decide) (by decide) htype (by decide)
  exact messageDef_of_attributes hread htread ⟨hne, readType_ne htne⟩

/-! ### Messages with given tags -/

theorem intNumeral_length_le (n : Int32) : (intNumeral n.toInt).length ≤ 11 := by
  have hlo := n.le_toInt
  have hhi := n.toInt_lt
  have hdigits : (numeral n.toInt.natAbs).length ≤ 10 :=
    (numeral_length_le_iff (by decide)).mpr (by omega)
  rw [intNumeral]
  split_ifs
  · rw [List.length_cons]
    omega
  · omega

def emptyFields (tags : List Int32) : List Field := tags.map fun tag => ⟨tag, []⟩

theorem emptyFields_length_le (tags : List Int32) :
    ((emptyFields tags).flatMap (Field.text soh)).length ≤ 13 * tags.length := by
  induction tags with
  | nil => exact le_rfl
  | cons tag tags ih =>
    have htag := intNumeral_length_le tag
    rw [emptyFields, List.map_cons, List.flatMap_cons, List.length_append, Field.text]
    simp only [List.length_append, List.length_cons, List.length_nil]
    rw [emptyFields] at ih
    omega

theorem bodyFields_emptyFields {tags : List Int32} (h : ∀ tag ∈ tags, isFraming tag = false) :
    bodyFields (emptyFields tags) = emptyFields tags := by
  rw [bodyFields, List.filter_eq_self]
  intro f hf
  obtain ⟨tag, htag, rfl⟩ := List.mem_map.mp hf
  simp [h tag htag]

/-- A message with these tags and the framing ones, if there is room for them. -/
theorem exists_parse_tags {tags : List Int32} (h : ∀ tag ∈ tags, isFraming tag = false)
    (hroom : tags.length ≤ 253) :
    ∃ raw msg, FixMessage.parse raw soh = .ok msg ∧
      msg.fields.map Field.tag = 8 :: 9 :: (tags ++ [10]) := by
  have hbody := bodyFields_emptyFields h
  have hfree : ∀ f ∈ (⟨8, []⟩ : Field) :: emptyFields tags, soh ∉ f.value := by
    intro f hf
    rcases List.mem_cons.mp hf with rfl | hf
    · exact List.not_mem_nil
    · obtain ⟨tag, _, rfl⟩ := List.mem_map.mp hf
      exact List.not_mem_nil
  have hlen : (wire soh ⟨8, []⟩ (emptyFields tags)).length < 2 ^ 31 := by
    have htext := emptyFields_length_le tags
    have hnumeral : (numeral (bodyText soh (emptyFields tags)).length).length ≤ 10 := by
      apply (numeral_length_le_iff (by decide)).mpr
      rw [bodyText, hbody]
      omega
    have h8 := intNumeral_length_le 8
    have h9 := intNumeral_length_le 9
    have h10 := intNumeral_length_le 10
    simp only [wire, wireFields, coveredFields, hbody, List.cons_append, List.flatMap_cons,
      List.flatMap_append, List.flatMap_nil, Field.text, checksumField, threeDigits,
      List.length_append, List.length_cons, List.length_nil] at htext ⊢
    omega
  have hcount : (bodyFields (emptyFields tags)).length ≤ 253 := by
    rw [hbody, emptyFields, List.length_map]
    exact hroom
  have htags : (emptyFields tags).map Field.tag = tags := by
    simp [emptyFields, Function.comp_def]
  refine ⟨_, _, parse_wire (by decide) (by decide) hfree hcount hlen, ?_⟩
  simp [wireFields, coveredFields, hbody, htags, checksumField]

/-! ### Schemas -/

/-- A text that can stand between double quotes. -/
def Plain (text : Bytes) : Prop := 34 ∉ text ∧ 60 ∉ text ∧ 62 ∉ text

instance : DecidablePred Plain := fun _ => inferInstanceAs (Decidable (_ ∧ _ ∧ _))

structure Schema where
  major : Bytes
  minor : Bytes
  fields : List FieldDef
  messages : List MessageSpec
  root_plain : Plain major ∧ Plain minor
  field_plain : ∀ f ∈ fields, Plain f.name ∧ Plain f.type
  field_name : ∀ f ∈ fields, f.name ≠ []
  field_tag : ∀ f ∈ fields, 0 < f.tag
  names_nodup : (fields.map FieldDef.name).Nodup
  tags_nodup : (fields.map FieldDef.tag).Nodup
  message_plain : ∀ m ∈ messages, Plain m.name ∧ Plain m.msgType ∧ Plain m.msgCat
  message_name : ∀ m ∈ messages, m.name ≠ [] ∧ m.msgType ≠ []
  messageNames_nodup : (messages.map MessageSpec.name).Nodup
  msgTypes_nodup : (messages.map MessageSpec.msgType).Nodup
  refs_nodup : ∀ m ∈ messages, (m.fields.map Prod.fst).Nodup
  refs_defined : ∀ m ∈ messages, ∀ ref ∈ m.fields, ref.1 ∈ fields.map FieldDef.name

namespace Schema

theorem ref_field (s : Schema) {m : MessageSpec} (hm : m ∈ s.messages) {ref : Bytes × Bool}
    (hr : ref ∈ m.fields) : ∃ f ∈ s.fields, f.name = ref.1 :=
  List.mem_map.mp (s.refs_defined m hm ref hr)

def element (s : Schema) (m : MessageSpec) (hm : m ∈ s.messages) : MessageElement where
  head := messageTag m
  children := m.fields.map refTag
  selfClosed := false
  message := ⟨m.name, readType m, ∅⟩
  head_kind := (tagKind_append (ascii "message") (by decide) (by decide) _).trans (by decide)
  head_def := messageDef_messageTag (s.message_plain m hm).1.1 (s.message_plain m hm).2.1.1
    (s.message_name m hm).1 (s.message_name m hm).2
  children_inner := by
    intro c hc
    obtain ⟨ref, _, rfl⟩ := List.mem_map.mp hc
    exact Or.inl (tagKind_refTag ref)
  children_nil h := by cases h

/-- The sections of the text, with the messages as they are read. -/
def sections (s : Schema) : Sections where
  prologue := [rootTag s.major s.minor]
  fields := s.fields.map fieldTag
  messages := s.messages.pmap s.element fun _ hm => hm
  epilogue := [ascii "/fix"]
  prologue_inner := List.forall_mem_singleton.mpr (Or.inr (tagKind_rootTag s.major s.minor))
  fields_inner := List.forall_mem_map.mpr fun f _ => Or.inl (tagKind_fieldTag f)
  epilogue_other := rootEnd_other

def tags (s : Schema) : List Bytes := s.sections.fieldsFirst

def number (s : Schema) (name : Bytes) : Option Int32 :=
  (s.fields.find? fun f => f.name = name).map FieldDef.tag

/-- The definition of a message as it is read. -/
def readMessage (s : Schema) (m : MessageSpec) : MessageDef where
  name := m.name
  msgType := readType m
  fields := fill ∅ (m.fields.filterMap fun ref => (s.number ref.1).map fun tag => (tag, readFlag ref))

theorem fieldDefs_fieldTag {β : Type*} (g : Int32 → Bytes → β) {fs : List FieldDef}
    (h : ∀ f ∈ fs, 34 ∉ f.name ∧ f.name ≠ []) :
    (fieldDefs (fs.map fieldTag)).map (fun f => g f.tag f.name) = fs.map fun f => g f.tag f.name := by
  induction fs with
  | nil => rfl
  | cons f fs ih =>
    rw [List.forall_mem_cons] at h
    obtain ⟨type, hdef⟩ := fieldDef_fieldTag h.1.1 h.1.2
    have hdefs : fieldDefs ((f :: fs).map fieldTag) =
        { f with type := type } :: fieldDefs (fs.map fieldTag) := by
      simp [fieldDefs, tagKind_fieldTag, hdef]
    rw [hdefs, List.map_cons, List.map_cons, ih h.2]

theorem flags_refTag (number : Bytes → Option Int32) {refs : List (Bytes × Bool)}
    (h : ∀ ref ∈ refs, 34 ∉ ref.1 ∧ ref.1 ≠ []) :
    flags number (refs.map refTag) =
      refs.filterMap fun ref => (number ref.1).map fun tag => (tag, readFlag ref) := by
  rw [flags, List.filterMap_map]
  apply List.filterMap_congr
  intro ref hr
  simp [tagKind_refTag, fieldRef_refTag (h ref hr).1 (h ref hr).2]

theorem field_readable (s : Schema) : ∀ f ∈ s.fields, 34 ∉ f.name ∧ f.name ≠ [] := fun f hf =>
  ⟨(s.field_plain f hf).1.1, s.field_name f hf⟩

theorem ref_readable (s : Schema) {m : MessageSpec} (hm : m ∈ s.messages) :
    ∀ ref ∈ m.fields, 34 ∉ ref.1 ∧ ref.1 ≠ [] := by
  intro ref hr
  obtain ⟨f, hf, hname⟩ := s.ref_field hm hr
  exact hname ▸ s.field_readable f hf

theorem sections_number (s : Schema) : s.sections.number = s.number := by
  funext name
  rw [Sections.number, sections]
  simp only
  rw [fieldDefs_fieldTag (fun tag name => (name, tag)) s.field_readable]
  exact lastEntry_map_of_nodup s.names_nodup FieldDef.tag name

theorem sections_messages {β : Type*} (s : Schema) (g : MessageElement → β) (f : MessageSpec → β)
    (h : ∀ m (hm : m ∈ s.messages), g (s.element m hm) = f m) :
    s.sections.messages.map g = s.messages.map f := by
  rw [sections, List.map_pmap, ← List.pmap_eq_map (p := (· ∈ s.messages)) (H := fun _ hm => hm)]
  exact List.pmap_congr_left _ fun m _ hm _ => h m hm

/-! ### The dictionary of a schema -/

def dictionary (s : Schema) : Dictionary := s.sections.meaning s.sections.number

theorem parseXml_tags (s : Schema) {xml : Bytes} (h : HasTags s.tags xml) :
    Dictionary.parseXml xml = .ok s.dictionary := s.sections.parseXml_fieldsFirst h

theorem dictionary_getTag (s : Schema) (name : Bytes) : s.dictionary.getTag name = s.number name := by
  rw [← s.sections_number]
  exact lookup_fill_empty _ name

theorem dictionary_getName (s : Schema) (tag : Int32) :
    s.dictionary.getName tag = (s.fields.find? fun f => f.tag = tag).map FieldDef.name := by
  rw [← lastEntry_map_of_nodup s.tags_nodup FieldDef.name tag,
    ← fieldDefs_fieldTag (fun tag name => (tag, name)) s.field_readable]
  exact lookup_fill_empty _ tag

theorem dictionary_getMsgType (s : Schema) (name : Bytes) :
    s.dictionary.getMsgType name = (s.messages.find? fun m => m.name = name).map readType := by
  rw [← lastEntry_map_of_nodup s.messageNames_nodup readType name,
    ← s.sections_messages (fun e => (e.message.name, e.message.msgType)) _ fun _ _ => rfl]
  exact lookup_fill_empty _ name

theorem dictionary_getMsgName (s : Schema) (msgType : Bytes) :
    s.dictionary.getMsgName msgType =
      lastEntry (s.messages.map fun m => (readType m, m.name)) msgType := by
  rw [← s.sections_messages (fun e => (e.message.msgType, e.message.name)) _ fun _ _ => rfl]
  exact lookup_fill_empty _ msgType

theorem dictionary_messages (s : Schema) (msgType : Bytes) :
    s.dictionary.messages.lookup msgType =
      lastEntry (s.messages.map fun m => (readType m, s.readMessage m)) msgType := by
  rw [← s.sections_messages
    (fun e => (e.message.msgType, e.meaning s.sections.number)) _ fun m hm => ?_]
  · exact lookup_fill_empty _ msgType
  · simp only [element, MessageElement.meaning, readMessage, sections_number,
      flags_refTag s.number (s.ref_readable hm)]

theorem number_eq_some_iff (s : Schema) {name : Bytes} {tag : Int32} :
    s.number name = some tag ↔ ∃ f ∈ s.fields, f.name = name ∧ f.tag = tag :=
  find?_map_eq_some_iff s.names_nodup

theorem number_inj (s : Schema) {name name' : Bytes} {tag : Int32} (h : s.number name = some tag)
    (h' : s.number name' = some tag) : name = name' := by
  obtain ⟨f, hf, rfl, htag⟩ := s.number_eq_some_iff.mp h
  obtain ⟨f', hf', rfl, htag'⟩ := s.number_eq_some_iff.mp h'
  rw [List.inj_on_of_nodup_map s.tags_nodup hf hf' (htag.trans htag'.symm)]

theorem numbers_nodup (s : Schema) {m : MessageSpec} (hm : m ∈ s.messages) :
    (m.fields.filterMap fun ref => s.number ref.1).Nodup := by
  have hnames := (s.refs_nodup m hm).filterMap (f := s.number) fun name name' tag h h' =>
    s.number_inj h h'
  rwa [List.filterMap_map] at hnames

theorem readMessage_lookup (s : Schema) {m : MessageSpec} (hm : m ∈ s.messages) (tag : Int32) :
    (s.readMessage m).fields.lookup tag = some true ↔
      ∃ ref ∈ m.fields, s.number ref.1 = some tag ∧ readFlag ref = true := by
  have hkeys : ((m.fields.filterMap fun ref =>
      (s.number ref.1).map fun tag => (tag, readFlag ref)).map Prod.fst).Nodup := by
    have hnumbers := s.numbers_nodup hm
    rw [List.map_filterMap]
    convert hnumbers using 3
    simp [Function.comp_def]
  rw [readMessage, lookup_fill_empty, lastEntry_of_nodup hkeys, List.mem_filterMap]
  apply exists_congr
  intro ref
  simp

/-! ### Conformance -/

/-- The message has the fields of `m` that are required according to `flag`. -/
def Meets (s : Schema) (flag : Bytes × Bool → Bool) (m : MessageSpec) (msg : FixMessage) : Prop :=
  ∀ ref ∈ m.fields, flag ref = true → ∀ f ∈ s.fields, f.name = ref.1 → msg.getField f.tag ≠ none

structure Conforms (s : Schema) (d : Dictionary) : Prop where
  getTag : ∀ name, d.getTag name = (s.fields.find? fun f => f.name = name).map FieldDef.tag
  getName : ∀ tag, d.getName tag = (s.fields.find? fun f => f.tag = tag).map FieldDef.name
  getMsgType : ∀ name,
    d.getMsgType name = (s.messages.find? fun m => m.name = name).map MessageSpec.msgType
  getMsgName : ∀ msgType,
    d.getMsgName msgType = (s.messages.find? fun m => m.msgType = msgType).map MessageSpec.name
  validates : ∀ (iteration : Iteration) (raw : Bytes) (separator : UInt8) (msg : FixMessage),
    FixMessage.parse raw separator = .ok msg → ∀ msgType,
      (d.validateMessage iteration msgType msg = .ok () ↔
        ∃ m ∈ s.messages, m.msgType = msgType ∧ s.Meets Prod.snd m msg)

theorem dictionary_validates (s : Schema) (htypes : ∀ m ∈ s.messages, readType m = m.msgType)
    (iteration : Iteration) (msgType : Bytes) (msg : FixMessage) :
    s.dictionary.validateMessage iteration msgType msg = .ok () ↔
      ∃ m ∈ s.messages, m.msgType = msgType ∧ s.Meets readFlag m msg := by
  have hmap : (s.messages.map fun m => (readType m, s.readMessage m)) =
      s.messages.map fun m => (m.msgType, s.readMessage m) :=
    List.map_congr_left fun m hm => by rw [htypes m hm]
  have hkeys : ((s.messages.map fun m => (m.msgType, s.readMessage m)).map Prod.fst).Nodup := by
    rw [List.map_map]
    exact s.msgTypes_nodup
  rw [Dictionary.validateMessage_eq_ok_iff, dictionary_messages, hmap]
  constructor
  · rintro ⟨it, hit, hall⟩
    obtain ⟨m, hm, heq⟩ := List.mem_map.mp ((lastEntry_of_nodup hkeys).mp hit)
    obtain ⟨htype, rfl⟩ := Prod.mk.inj heq
    refine ⟨m, hm, htype, ?_⟩
    intro ref hr hflag f hf hname
    exact hall f.tag ((s.readMessage_lookup hm f.tag).mpr
      ⟨ref, hr, s.number_eq_some_iff.mpr ⟨f, hf, hname, rfl⟩, hflag⟩)
  · rintro ⟨m, hm, rfl, hmeets⟩
    refine ⟨s.readMessage m, (lastEntry_of_nodup hkeys).mpr (List.mem_map_of_mem hm), ?_⟩
    intro tag htag
    obtain ⟨ref, hr, hnumber, hflag⟩ := (s.readMessage_lookup hm tag).mp htag
    obtain ⟨f, hf, hname, rfl⟩ := s.number_eq_some_iff.mp hnumber
    exact hmeets ref hr hflag f hf hname

/-! ### Required fields that are not read as required -/

def isHidden (ref : Bytes × Bool) : Bool := ref.2 && decide (ascii "required=" <:+ ref.1)

def tagsOf (s : Schema) (flag : Bytes × Bool → Bool) (m : MessageSpec) : List Int32 :=
  ((m.fields.filter flag).filterMap fun ref => s.number ref.1).filter fun tag => !isFraming tag

theorem mem_tagsOf (s : Schema) {flag : Bytes × Bool → Bool} {m : MessageSpec} {tag : Int32} :
    tag ∈ s.tagsOf flag m ↔
      (∃ ref ∈ m.fields, flag ref = true ∧ s.number ref.1 = some tag) ∧ isFraming tag = false := by
  simp [tagsOf, and_assoc]

theorem tagsOf_nodup (s : Schema) {m : MessageSpec} (hm : m ∈ s.messages)
    (flag : Bytes × Bool → Bool) : (s.tagsOf flag m).Nodup := by
  apply List.Nodup.filter
  exact List.Nodup.sublist (List.filter_sublist.filterMap _) (s.numbers_nodup hm)

/-- No name of the schema misleads the reader in a way that a lookup or a parsed message could
show: a required field that is read as optional has a framing tag, or the message requires
more fields than can be parsed. -/
structure Readable (s : Schema) : Prop where
  types : ∀ m ∈ s.messages, ascii "msgtype=" <:+ m.name → m.msgType = ascii " msgtype="
  flags : ∀ m ∈ s.messages, s.tagsOf isHidden m = [] ∨ 253 < (s.tagsOf readFlag m).length

theorem readType_eq_iff {m : MessageSpec} :
    readType m = m.msgType ↔ (ascii "msgtype=" <:+ m.name → m.msgType = ascii " msgtype=") := by
  rw [readType]
  split_ifs with hends
  · simp [hends, eq_comm]
  · simp [hends]

theorem meets_required_iff (s : Schema) (m : MessageSpec) (msg : FixMessage) :
    s.Meets Prod.snd m msg ↔ s.Meets readFlag m msg ∧ s.Meets isHidden m msg := by
  constructor
  · intro h
    constructor
    · intro ref hr hflag
      exact h ref hr (by simp_all [readFlag])
    · intro ref hr hflag
      exact h ref hr (by simp_all [isHidden])
  · rintro ⟨hread, hhidden⟩ ref hr hflag
    by_cases hends : ascii "required=" <:+ ref.1
    · exact hhidden ref hr (by simp [isHidden, hflag, hends])
    · exact hread ref hr (by simp [readFlag, hflag, hends])

section Parsed
variable {raw : Bytes} {separator : UInt8} {msg : FixMessage}
  (hparse : FixMessage.parse raw separator = .ok msg)
include hparse

theorem framing_present {tag : Int32} (h : isFraming tag = true) : msg.getField tag ≠ none := by
  obtain ⟨first, second, body, last, hfields, h8, h9, h10, _⟩ := parse_frame hparse
  rw [getField_ne_none_iff, hfields]
  rcases (Writer.isFraming_iff tag).mp h with rfl | rfl | rfl
  · simp [h8]
  · simp [h9]
  · simp [h10]

theorem meets_iff_tagsOf (s : Schema) (flag : Bytes × Bool → Bool) (m : MessageSpec) :
    s.Meets flag m msg ↔ ∀ tag ∈ s.tagsOf flag m, msg.getField tag ≠ none := by
  constructor
  · intro hmeets tag htag
    obtain ⟨⟨ref, hr, hflag, hnumber⟩, _⟩ := s.mem_tagsOf.mp htag
    obtain ⟨f, hf, hname, rfl⟩ := s.number_eq_some_iff.mp hnumber
    exact hmeets ref hr hflag f hf hname
  · intro hall ref hr hflag f hf hname
    cases hframing : isFraming f.tag with
    | true => exact framing_present hparse hframing
    | false =>
      have hnumber := s.number_eq_some_iff.mpr ⟨f, hf, hname, rfl⟩
      exact hall f.tag (s.mem_tagsOf.mpr ⟨⟨ref, hr, hflag, hnumber⟩, hframing⟩)

theorem tagsOf_length_le (s : Schema) {m : MessageSpec} (hm : m ∈ s.messages)
    {flag : Bytes × Bool → Bool} (h : s.Meets flag m msg) : (s.tagsOf flag m).length ≤ 253 := by
  obtain ⟨first, second, body, last, hfields, h8, h9, h10, hroom⟩ := parse_frame hparse
  have hsubset : s.tagsOf flag m ⊆ body.map Field.tag := by
    intro tag htag
    have hpresent := (meets_iff_tagsOf hparse s flag m).mp h tag htag
    have hframing := (s.mem_tagsOf.mp htag).2
    rw [getField_ne_none_iff, hfields] at hpresent
    simp only [List.map_cons, List.map_append, List.map_nil, List.mem_cons, List.mem_append,
      List.not_mem_nil, or_false, h8, h9, h10] at hpresent
    rcases hpresent with rfl | rfl | hbody | rfl
    · exact absurd hframing (by decide)
    · exact absurd hframing (by decide)
    · exact hbody
    · exact absurd hframing (by decide)
  have hle := (List.subperm_of_subset (s.tagsOf_nodup hm flag) hsubset).length_le
  rw [List.length_map] at hle
  rw [maxFields] at hroom
  omega

end Parsed

theorem conforms_of_readable (s : Schema) (h : s.Readable) : s.Conforms s.dictionary := by
  have htypes : ∀ m ∈ s.messages, readType m = m.msgType := fun m hm =>
    readType_eq_iff.mpr (h.types m hm)
  refine ⟨s.dictionary_getTag, s.dictionary_getName, ?_, ?_, ?_⟩
  · intro name
    rw [s.dictionary_getMsgType]
    cases hfind : s.messages.find? (fun m => decide (m.name = name)) with
    | none => rfl
    | some m => exact congrArg some (htypes m (List.mem_of_find?_eq_some hfind))
  · intro msgType
    have hmap : (s.messages.map fun m => (readType m, m.name)) =
        s.messages.map fun m => (m.msgType, m.name) :=
      List.map_congr_left fun m hm => by rw [htypes m hm]
    rw [s.dictionary_getMsgName, hmap]
    exact lastEntry_map_of_nodup s.msgTypes_nodup MessageSpec.name msgType
  · intro iteration raw separator msg hparse msgType
    rw [s.dictionary_validates htypes]
    apply exists_congr
    intro m
    apply and_congr_right
    intro hm
    apply and_congr_right
    intro _
    rw [s.meets_required_iff, iff_self_and]
    intro hread
    rcases h.flags m hm with hnone | hmany
    · rw [meets_iff_tagsOf hparse, hnone]
      exact fun tag htag => absurd htag List.not_mem_nil
    · exact absurd (tagsOf_length_le hparse s hm hread) (Nat.not_le.mpr hmany)

theorem readable_of_conforms (s : Schema) (h : s.Conforms s.dictionary) : s.Readable := by
  have htypes : ∀ m ∈ s.messages, readType m = m.msgType := by
    intro m hm
    have htype := h.getMsgType m.name
    rw [s.dictionary_getMsgType,
      (find?_map_eq_some_iff s.messageNames_nodup).mpr ⟨m, hm, rfl, rfl⟩,
      (find?_map_eq_some_iff s.messageNames_nodup).mpr ⟨m, hm, rfl, rfl⟩] at htype
    exact Option.some.inj htype
  refine ⟨fun m hm => readType_eq_iff.mp (htypes m hm), ?_⟩
  intro m hm
  by_contra hneither
  rw [not_or, Nat.not_lt] at hneither
  obtain ⟨hhidden, hroom⟩ := hneither
  obtain ⟨tag, htag⟩ := List.exists_mem_of_ne_nil _ hhidden
  obtain ⟨raw, msg, hparse, htags⟩ :=
    exists_parse_tags (fun tag ht => (s.mem_tagsOf.mp ht).2) hroom
  have hread : s.Meets readFlag m msg := by
    rw [meets_iff_tagsOf hparse]
    intro tag ht
    rw [getField_ne_none_iff, htags]
    simp [ht]
  have hvalid := (s.dictionary_validates htypes ⟨id, fun _ => List.Perm.refl _⟩ m.msgType msg).mpr
    ⟨m, hm, rfl, hread⟩
  obtain ⟨m', hm', htype, hmeets⟩ := (h.validates _ raw soh msg hparse m.msgType).mp hvalid
  obtain rfl := List.inj_on_of_nodup_map s.msgTypes_nodup hm' hm htype
  have hpresent := (meets_iff_tagsOf hparse s isHidden m').mp
    ((s.meets_required_iff m' msg).mp hmeets).2 tag htag
  obtain ⟨⟨ref, _, hflag, hnumber⟩, hframing⟩ := s.mem_tagsOf.mp htag
  have hends : ascii "required=" <:+ ref.1 := by
    simp only [isHidden, Bool.and_eq_true, decide_eq_true_eq] at hflag
    exact hflag.2
  rw [getField_ne_none_iff, htags] at hpresent
  rcases List.mem_cons.mp hpresent with rfl | hpresent
  · exact absurd hframing (by decide)
  rcases List.mem_cons.mp hpresent with rfl | hpresent
  · exact absurd hframing (by decide)
  rcases List.mem_append.mp hpresent with hpresent | hpresent
  · -- a name has one number, so the same name would be read as required
    obtain ⟨⟨ref', _, hflag', hnumber'⟩, _⟩ := s.mem_tagsOf.mp hpresent
    rw [s.number_inj hnumber hnumber'] at hends
    simp [readFlag, hends] at hflag'
  · rw [List.mem_singleton.mp hpresent] at hframing
    exact absurd hframing (by decide)

/-- The dictionary that is read from the text of a schema conforms to it exactly when no name
misleads the reader. -/
theorem parseXml_conforms_iff (s : Schema) {xml : Bytes} (h : HasTags s.tags xml) :
    (∃ d, Dictionary.parseXml xml = .ok d ∧ s.Conforms d) ↔ s.Readable := by
  rw [s.parseXml_tags h]
  constructor
  · rintro ⟨d, hd, hconforms⟩
    obtain rfl := Except.ok.inj hd
    exact s.readable_of_conforms hconforms
  · intro hreadable
    exact ⟨_, rfl, s.conforms_of_readable hreadable⟩

/-- A Logon that requires one field. -/
def logonSchema (name : Bytes) (hplain : Plain name) (hne : name ≠ []) : Schema where
  major := ascii "4"
  minor := ascii "2"
  fields := [⟨108, name, ascii "INT"⟩]
  messages := [⟨ascii "Logon", ascii "A", ascii "admin", [(name, true)]⟩]
  root_plain := by decide
  field_plain := List.forall_mem_singleton.mpr ⟨hplain, show Plain (ascii "INT") by decide⟩
  field_name := List.forall_mem_singleton.mpr hne
  field_tag := List.forall_mem_singleton.mpr (show (0 : Int32) < 108 by decide)
  names_nodup := List.nodup_singleton _
  tags_nodup := List.nodup_singleton _
  message_plain := List.forall_mem_singleton.mpr
    (show Plain (ascii "Logon") ∧ Plain (ascii "A") ∧ Plain (ascii "admin") by decide)
  message_name := List.forall_mem_singleton.mpr
    (show ascii "Logon" ≠ [] ∧ ascii "A" ≠ [] by decide)
  messageNames_nodup := List.nodup_singleton _
  msgTypes_nodup := List.nodup_singleton _
  refs_nodup := List.forall_mem_singleton.mpr (List.nodup_singleton _)
  refs_defined := List.forall_mem_singleton.mpr
    (List.forall_mem_singleton.mpr (List.mem_singleton_self _))

def heartBtIntSchema : Schema := logonSchema (ascii "HeartBtInt") (by decide) (by decide)

theorem parseXml_conforms_heartBtInt :
    (∃ d, Dictionary.parseXml (spell heartBtIntSchema.tags) = .ok d ∧
      heartBtIntSchema.Conforms d) ↔ heartBtIntSchema.Readable :=
  parseXml_conforms_iff heartBtIntSchema (hasTags_spell (by decide +kernel))

def misleadingSchema : Schema := logonSchema (ascii "required=") (by decide) (by decide)

/-- A Logon without the required field. -/
def bareLogon : FixMessage where
  raw := ascii "8=F|9=10|35=A|34=1|10=061|"
  fields := [⟨8, ascii "F"⟩, ⟨9, ascii "10"⟩, ⟨35, ascii "A"⟩, ⟨34, ascii "1"⟩, ⟨10, ascii "061"⟩]

theorem parseXml_conforms_misleading :
    ¬ ∀ (s : Schema) (xml : Bytes), HasTags s.tags xml →
      ∃ d, Dictionary.parseXml xml = .ok d ∧ s.Conforms d := by
  intro h
  obtain ⟨d, hd, hconforms⟩ := h misleadingSchema _ (hasTags_spell (by decide +kernel))
  have hparse : FixMessage.parse (ascii "8=F|9=10|35=A|34=1|10=061|") 124 = .ok bareLogon := by
    decide +kernel
  have hvalid : (Dictionary.parseXml (spell misleadingSchema.tags)).map (fun d =>
      d.validateMessage ⟨id, fun _ => List.Perm.refl _⟩ (ascii "A") bareLogon) = .ok (.ok ()) := by
    decide +kernel
  rw [hd] at hvalid
  obtain ⟨m, hm, _, hmeets⟩ := (hconforms.validates _ _ _ _ hparse _).mp (Except.ok.inj hvalid)
  obtain rfl := List.mem_singleton.mp hm
  exact hmeets _ List.mem_cons_self rfl _ List.mem_cons_self rfl (by decide +kernel)

end Schema

end Fixure
