import Fixure.Comments
import Fixure.Sections

/-!
# The lookup tables of a dictionary

Every definition is entered in two tables, under its name and under its number or type. A
later definition replaces one entry in each table, and these need not belong together: the
tables are inverse to each other exactly when the last definition of a name is the last one
of its number, and the other way round.
-/

namespace Fixure
open Tables

/-! ### The definitions of a text -/

def insideFields (inside : Bool) (content : Bytes) : Bool :=
  match tagKind content with
  | .openFields => true
  | .closeFields => false
  | _ => inside

def insideMessages (inside : Bool) (content : Bytes) : Bool :=
  match tagKind content with
  | .openMessages => true
  | .closeMessages => false
  | _ => inside

/-- The field definitions of the tags, where `inside` says whether the first one stands in a
section of fields. -/
def definedFields (inside : Bool) : List Bytes → List FieldDef
  | [] => []
  | content :: tags =>
    (if inside ∧ tagKind content = .field then (fieldDef content).toList else []) ++
      definedFields (insideFields inside content) tags

def definedMessages (inside : Bool) : List Bytes → List MessageDef
  | [] => []
  | content :: tags =>
    (if inside ∧ tagKind content = .message then (messageDef content).toList else []) ++
      definedMessages (insideMessages inside content) tags

def numbers (defs : List FieldDef) : List (Bytes × Int32) := defs.map fun f => (f.name, f.tag)

def types (defs : List MessageDef) : List (Bytes × Bytes) := defs.map fun m => (m.name, m.msgType)

/-! ### The tables -/

/-- The lookup tables of `d'` are those of `d` with these definitions entered. -/
structure Enters (d d' : Dictionary) (fs : List FieldDef) (ms : List MessageDef) : Prop where
  nameToTag : d'.nameToTag = fill d.nameToTag (numbers fs)
  tagToName : d'.tagToName = fill d.tagToName ((numbers fs).map Prod.swap)
  msgNameToType : d'.msgNameToType = fill d.msgNameToType (types ms)
  msgTypeToName : d'.msgTypeToName = fill d.msgTypeToName ((types ms).map Prod.swap)

theorem Enters.refl (d : Dictionary) : Enters d d [] [] := ⟨rfl, rfl, rfl, rfl⟩

theorem Enters.trans {d d' d'' : Dictionary} {fs fs' : List FieldDef} {ms ms' : List MessageDef}
    (h : Enters d d' fs ms) (h' : Enters d' d'' fs' ms') : Enters d d'' (fs ++ fs') (ms ++ ms') where
  nameToTag := by simp [h'.nameToTag, h.nameToTag, fill, numbers]
  tagToName := by simp [h'.tagToName, h.tagToName, fill, numbers]
  msgNameToType := by simp [h'.msgNameToType, h.msgNameToType, fill, types]
  msgTypeToName := by simp [h'.msgTypeToName, h.msgTypeToName, fill, types]

theorem Enters.define (d : Dictionary) (f : FieldDef) : Enters d (d.define f) [f] [] :=
  ⟨rfl, rfl, rfl, rfl⟩

theorem Enters.defineMessage (d : Dictionary) (m : MessageDef) :
    Enters d (d.defineMessage m) [] [m] := ⟨rfl, rfl, rfl, rfl⟩

theorem Enters.setRequired (d : Dictionary) (msgType : Bytes) (tag : Int32) (req : Bool) :
    Enters d (d.setRequired msgType tag req) [] [] := ⟨rfl, rfl, rfl, rfl⟩

theorem inFieldsSection_readTag (r : Reader) (content : Bytes) :
    (r.readTag content).inFieldsSection = insideFields r.inFieldsSection content := by
  rw [readTag_eq, insideFields]
  cases tagKind content <;> simp only [Reader.defineField, Reader.listField, Reader.defineMessage]
  all_goals grind

theorem inMessagesSection_readTag (r : Reader) (content : Bytes) :
    (r.readTag content).inMessagesSection = insideMessages r.inMessagesSection content := by
  rw [readTag_eq, insideMessages]
  cases tagKind content <;> simp only [Reader.defineField, Reader.listField, Reader.defineMessage]
  all_goals grind

theorem enters_defineField (r : Reader) (content : Bytes) :
    Enters r.dict (r.defineField content).dict (fieldDef content).toList [] := by
  rw [Reader.defineField]
  cases fieldDef content with
  | none => exact .refl _
  | some f => exact .define _ f

theorem enters_listField (r : Reader) (content : Bytes) :
    Enters r.dict (r.listField content).dict [] [] := by
  rw [Reader.listField]
  cases fieldRef content with
  | none => exact .refl _
  | some ref =>
    simp only
    cases r.dict.nameToTag.lookup ref.1 with
    | none => exact .refl _
    | some tag => exact .setRequired _ _ tag ref.2

theorem enters_defineMessage (r : Reader) (content : Bytes) :
    Enters r.dict (r.defineMessage content).dict [] (messageDef content).toList := by
  rw [Reader.defineMessage]
  cases messageDef content with
  | none => exact .refl _
  | some m => exact .defineMessage _ m

theorem enters_readTag (r : Reader) (content : Bytes) :
    Enters r.dict (r.readTag content).dict (definedFields r.inFieldsSection [content])
      (definedMessages r.inMessagesSection [content]) := by
  rw [readTag_eq]
  cases hk : tagKind content with
  | field =>
    simp only [definedFields, definedMessages, hk, reduceCtorEq, and_true, and_false, if_false,
      List.append_nil]
    split_ifs
    · exact enters_defineField r content
    · exact enters_listField r content
    · exact .refl _
  | message =>
    simp only [definedFields, definedMessages, hk, reduceCtorEq, and_true, and_false, if_false,
      List.append_nil]
    split_ifs
    · exact enters_defineMessage r content
    · exact .refl _
  | _ =>
    simp only [definedFields, definedMessages, hk, reduceCtorEq, and_false, if_false]
    exact .refl _

theorem enters_foldl (tags : List Bytes) (r : Reader) :
    Enters r.dict (tags.foldl Reader.readTag r).dict (definedFields r.inFieldsSection tags)
      (definedMessages r.inMessagesSection tags) := by
  induction tags generalizing r with
  | nil => exact .refl _
  | cons content tags ih =>
    have hrest := ih (r.readTag content)
    rw [inFieldsSection_readTag, inMessagesSection_readTag] at hrest
    have hall := (enters_readTag r content).trans hrest
    simp only [definedFields, definedMessages, List.append_nil] at hall
    exact hall

/-! ### Lookups in both directions -/

structure InverseLookups (d : Dictionary) : Prop where
  fields : ∀ name tag, d.getTag name = some tag ↔ d.getName tag = some name
  messages : ∀ name msgType, d.getMsgType name = some msgType ↔ d.getMsgName msgType = some name

/-- The lookups of an accepted text are inverse to each other exactly when the last definition
of every name is the last one of its number or type, and the other way round. -/
theorem inverseLookups_iff {xml : Bytes} {d : Dictionary} (h : Dictionary.parseXml xml = .ok d) :
    ∃ tags, HasTags tags xml ∧
      (InverseLookups d ↔
        LastTogether (numbers (definedFields false tags)) ∧
          LastTogether (types (definedMessages false tags))) := by
  obtain ⟨tags, htags⟩ := outside_iff.mpr ⟨d, h⟩
  refine ⟨tags, htags, ?_⟩
  rw [Dictionary.parseXml_hasTags htags] at h
  obtain rfl := Except.ok.inj h
  have htables := enters_foldl tags {}
  rw [← fill_inverse_iff, ← fill_inverse_iff, ← htables.nameToTag, ← htables.tagToName,
    ← htables.msgNameToType, ← htables.msgTypeToName]
  constructor
  · intro hinverse
    exact ⟨hinverse.fields, hinverse.messages⟩
  · intro hinverse
    exact ⟨hinverse.1, hinverse.2⟩

/-- A name that is defined twice, with two numbers. -/
def renumberedTags : List Bytes :=
  [ascii "fields", ascii "field number='1' name='Account'/",
    ascii "field number='2' name='Account'/", ascii "/fields"]

theorem hasTags_renumbered : HasTags renumberedTags (spell renumberedTags) :=
  hasTags_spell (by decide +kernel)

theorem inverseLookups_renumbered :
    ∃ tags, HasTags tags (spell renumberedTags) ∧
      (InverseLookups (renumberedTags.foldl Reader.readTag {}).dict ↔
        LastTogether (numbers (definedFields false tags)) ∧
          LastTogether (types (definedMessages false tags))) :=
  inverseLookups_iff (Dictionary.parseXml_hasTags hasTags_renumbered)

theorem inverseLookups_stale :
    ¬ ∀ (xml : Bytes) (d : Dictionary), Dictionary.parseXml xml = .ok d → InverseLookups d := by
  intro h
  have hinverse := h _ _ (Dictionary.parseXml_hasTags hasTags_renumbered)
  have hname : (renumberedTags.foldl Reader.readTag {}).dict.getName 1 = some (ascii "Account") := by
    decide +kernel
  have htag := (hinverse.fields _ _).mpr hname
  exact absurd htag (by decide +kernel)

end Fixure
