import Fixure.Message
import Fixure.Table

/-!
# The data dictionary

`parseXml` looks for one `<` after the other, skips comments and hands the text between `<`
and `>` to the reader. A text is therefore read as the list of its tags, whatever stands
between them (`parseXml_hasTags`).
-/

namespace Fixure
open Search Decimal Tables

/-! ### The reader -/

structure FieldDef where
  tag : Int32 := 0
  name : Bytes
  type : Bytes
  deriving DecidableEq

structure MessageDef where
  name : Bytes := []
  msgType : Bytes := []
  fields : Table Int32 Bool := ∅

structure Dictionary where
  nameToTag : Table Bytes Int32 := ∅
  tagToName : Table Int32 Bytes := ∅
  msgNameToType : Table Bytes Bytes := ∅
  msgTypeToName : Table Bytes Bytes := ∅
  messages : Table Bytes MessageDef := ∅
  tagToType : Table Int32 Bytes := ∅

/-- The text behind `key`, up to the quote that ends `key`. -/
def quotedText (tag key : Bytes) (quote : UInt8) (start : ℕ) : Bytes :=
  let start := start + key.length
  match findFrom [quote] tag start with
  | none => []
  | some stop => substr tag start (stop - start)

def getAttribute (tag attr : Bytes) : Bytes :=
  let key := attr ++ ascii "=\""
  match find key tag with
  | some start => quotedText tag key 34 start
  | none =>
    let key := attr ++ ascii "='"
    match find key tag with
    | some start => quotedText tag key 39 start
    | none => []

def tagName (content : Bytes) : Bytes :=
  match find (ascii " ") content with
  | none => content
  | some spacePos => content.take spacePos

/-- A field definition, such as `field number="1" name="Account" type="STRING"/`. -/
def fieldDef (content : Bytes) : Option FieldDef :=
  let num := getAttribute content (ascii "number")
  let name := getAttribute content (ascii "name")
  let type := getAttribute content (ascii "type")
  if num ≠ [] ∧ name ≠ [] then
    let tagNum :=
      match fromChars num with
      | .parsed n _ => n
      | _ => 0
    some ⟨tagNum, name, type⟩
  else none

/-- A field of a message, such as `field name="Account" required="Y"/`. -/
def fieldRef (content : Bytes) : Option (Bytes × Bool) :=
  let name := getAttribute content (ascii "name")
  let required := getAttribute content (ascii "required")
  if name ≠ [] then some (name, required = ascii "Y" ∨ required = ascii "y") else none

def messageDef (content : Bytes) : Option MessageDef :=
  let name := getAttribute content (ascii "name")
  let type := getAttribute content (ascii "msgtype")
  if name ≠ [] ∧ type ≠ [] then some ⟨name, type, ∅⟩ else none

theorem messageDef_of_attributes {content name type : Bytes}
    (hname : getAttribute content (ascii "name") = name)
    (htype : getAttribute content (ascii "msgtype") = type) (hne : name ≠ [] ∧ type ≠ []) :
    messageDef content = some ⟨name, type, ∅⟩ := by
  simp only [messageDef, hname, htype, if_pos hne]

namespace Dictionary

def define (d : Dictionary) (f : FieldDef) : Dictionary :=
  { d with
    nameToTag := d.nameToTag.insert f.name f.tag
    tagToName := d.tagToName.insert f.tag f.name
    tagToType := if f.type ≠ [] then d.tagToType.insert f.tag f.type else d.tagToType }

def defineMessage (d : Dictionary) (m : MessageDef) : Dictionary :=
  { d with
    msgNameToType := d.msgNameToType.insert m.name m.msgType
    msgTypeToName := d.msgTypeToName.insert m.msgType m.name
    messages := d.messages.insert m.msgType m }

/-- Set the flag of a message field; the table makes up a message that it does not have. -/
def setRequired (d : Dictionary) (msgType : Bytes) (tag : Int32) (req : Bool) : Dictionary :=
  let message := (d.messages.lookup msgType).getD {}
  let message := { message with fields := message.fields.insert tag req }
  { d with messages := d.messages.insert msgType message }

end Dictionary

/-- The local variables of the reading loop. -/
structure Reader where
  dict : Dictionary := {}
  currentMessageType : Bytes := []
  inFieldsSection : Bool := false
  inMessagesSection : Bool := false

namespace Reader

def endTag (r : Reader) (endName : Bytes) : Reader :=
  if endName = ascii "fields" then { r with inFieldsSection := false }
  else if endName = ascii "messages" then { r with inMessagesSection := false }
  else if endName = ascii "message" then { r with currentMessageType := [] }
  else r

def defineField (r : Reader) (content : Bytes) : Reader :=
  match fieldDef content with
  | some f => { r with dict := r.dict.define f }
  | none => r

/-- A name that is not defined yet is dropped. -/
def listField (r : Reader) (content : Bytes) : Reader :=
  match fieldRef content with
  | some (name, req) =>
    match r.dict.nameToTag.lookup name with
    | some tag => { r with dict := r.dict.setRequired r.currentMessageType tag req }
    | none => r
  | none => r

def defineMessage (r : Reader) (content : Bytes) : Reader :=
  match messageDef content with
  | some m => { r with currentMessageType := m.msgType, dict := r.dict.defineMessage m }
  | none => r

def readTag (r : Reader) (content : Bytes) : Reader :=
  if ascii "/" <+: content then r.endTag (content.drop 1)
  else
    let name := tagName content
    if name = ascii "fields" then { r with inFieldsSection := true }
    else if name = ascii "messages" then { r with inMessagesSection := true }
    else if name = ascii "field" then
      if r.inFieldsSection then r.defineField content
      else if r.currentMessageType ≠ [] then r.listField content
      else r
    else if name = ascii "message" ∧ r.inMessagesSection then r.defineMessage content
    else r

end Reader

/-- The loop on what is left of the text. Every round takes up two bytes at least, so the
length of the text bounds the number of rounds. -/
def parseXmlLoop : ℕ → Reader → Bytes → Except Bytes Dictionary
  | 0, r, _ => .ok r.dict
  | rounds + 1, r, xml =>
    match find (ascii "<") xml with
    | none => .ok r.dict
    | some tagStart =>
      if substr xml tagStart 4 = ascii "<!--" then
        match findFrom (ascii "-->") xml (tagStart + 4) with
        | none => .error (ascii "Malformed XML: unclosed comment")
        | some commentEnd => parseXmlLoop rounds r (xml.drop (commentEnd + 3))
      else
        match findFrom (ascii ">") xml tagStart with
        | none => .error (ascii "Malformed XML: unclosed tag")
        | some tagEnd =>
          let content := substr xml (tagStart + 1) (tagEnd - (tagStart + 1))
          parseXmlLoop rounds (r.readTag content) (xml.drop (tagEnd + 1))

def Dictionary.parseXml (xml : Bytes) : Except Bytes Dictionary :=
  parseXmlLoop xml.length {} xml

/-! ### Lookups -/

/-- An order in which a loop visits the keys of a table; the library leaves it open. -/
structure Iteration where
  order : List Int32 → List Int32
  perm : ∀ keys, (order keys).Perm keys

namespace Dictionary

def getTag (d : Dictionary) (name : Bytes) : Option Int32 := d.nameToTag.lookup name

def getName (d : Dictionary) (tag : Int32) : Option Bytes := d.tagToName.lookup tag

def getMsgType (d : Dictionary) (msgName : Bytes) : Option Bytes := d.msgNameToType.lookup msgName

def getMsgName (d : Dictionary) (msgType : Bytes) : Option Bytes := d.msgTypeToName.lookup msgType

def isRequired (d : Dictionary) (msgType : Bytes) (tag : Int32) : Bool :=
  match d.messages.lookup msgType with
  | some it => (it.fields.lookup tag).getD false
  | none => false

/-- `.ok` stands for `true`, and the error for `false` together with `out_error`. -/
def validateMessage (iteration : Iteration) (d : Dictionary) (msgType : Bytes) (msg : FixMessage) :
    Except Bytes Unit :=
  match d.messages.lookup msgType with
  | none => .error (ascii "Unknown MsgType: " ++ msgType)
  | some it =>
    let missing (tag : Int32) : Bool :=
      it.fields.lookup tag = some true ∧ msg.getField tag = none
    match (iteration.order it.fields.keys).find? missing with
    | some tag =>
      let fieldName := (d.getName tag).getD (intNumeral tag.toInt)
      .error (ascii "Missing required field: " ++ fieldName ++ ascii " (" ++
        intNumeral tag.toInt ++ ascii ")")
    | none => .ok ()

theorem validateMessage_eq_ok_iff (iteration : Iteration) (d : Dictionary) (msgType : Bytes)
    (msg : FixMessage) :
    d.validateMessage iteration msgType msg = .ok () ↔
      ∃ it, d.messages.lookup msgType = some it ∧
        ∀ tag, it.fields.lookup tag = some true → msg.getField tag ≠ none := by
  rw [validateMessage]
  cases d.messages.lookup msgType with
  | none => simp
  | some it =>
    simp only [Option.some.injEq, exists_eq_left']
    cases hfind : (iteration.order it.fields.keys).find? (fun tag =>
        decide (it.fields.lookup tag = some true ∧ msg.getField tag = none)) with
    | none =>
      apply iff_of_true rfl
      intro tag hreq hnone
      have hkey : tag ∈ it.fields.keys :=
        AList.mem_keys.mp (AList.lookup_isSome.mp (by rw [hreq]; rfl))
      have hmissing := List.find?_eq_none.mp hfind tag ((iteration.perm _).mem_iff.mpr hkey)
      exact hmissing (decide_eq_true ⟨hreq, hnone⟩)
    | some tag =>
      have hfound := List.find?_some hfind
      have hmissing : it.fields.lookup tag = some true ∧ msg.getField tag = none :=
        of_decide_eq_true hfound
      apply iff_of_false
      · simp
      · intro h
        exact h tag hmissing.1 hmissing.2

end Dictionary

/-! ### Attributes -/

theorem substr_append_add (x ys : Bytes) (j n : ℕ) :
    substr (x ++ ys) (x.length + j) n = substr ys j n := by
  rw [substr, substr, ← List.drop_drop, List.drop_left]

theorem quotedText_here {before key v rest : Bytes} (hv : 34 ∉ v) :
    quotedText ((before ++ key) ++ (v ++ 34 :: rest)) key 34 before.length = v := by
  have hstart : before.length + key.length = (before ++ key).length + 0 := by simp
  have hstop : findFrom [34] ((before ++ key) ++ (v ++ 34 :: rest)) ((before ++ key).length + 0) =
      some ((before ++ key).length + v.length) := by
    rw [findFrom_append_add, findFrom, List.drop_zero, find_singleton_append hv]
    simp only [Option.map_some, Nat.zero_add]
  simp only [quotedText, hstart, hstop]
  rw [substr_append_add, substr, List.drop_zero]
  apply List.take_left'
  omega

theorem quotedText_append (x ys key : Bytes) (start : ℕ) :
    quotedText (x ++ ys) key 34 (x.length + start) = quotedText ys key 34 start := by
  simp only [quotedText, Nat.add_assoc, findFrom_append_add]
  cases findFrom [34] ys (start + key.length) with
  | none => rfl
  | some stop =>
    simp only [Option.map_some, substr_append_add]
    rw [Nat.add_sub_add_left]

section Attribute
variable {attr : Bytes} (hattr : 34 ∉ attr)
include hattr

theorem quote_notMem_key : 34 ∉ attr ++ [equals] := by
  rw [List.mem_append, not_or]
  exact ⟨hattr, by decide⟩

theorem getAttribute_here {a v : Bytes} (ha : 34 ∉ a) (hv : 34 ∉ v) (rest : Bytes) :
    getAttribute ((a ++ (attr ++ [equals])) ++ 34 :: (v ++ 34 :: rest)) attr = v := by
  have hkey : attr ++ ascii "=\"" = (attr ++ [equals]) ++ [34] := by
    rw [List.append_assoc]
    rfl
  have hsplit : (a ++ (attr ++ [equals])) ++ 34 :: (v ++ 34 :: rest) =
      (a ++ ((attr ++ [equals]) ++ [34])) ++ (v ++ 34 :: rest) := by simp
  have hfind := find_snoc_here (quote_notMem_key hattr) ha (v ++ 34 :: rest)
  simp only [getAttribute, hkey, hfind]
  rw [hsplit]
  exact quotedText_here hv

theorem getAttribute_skip {c rest : Bytes} (hc : 34 ∉ c) (h : ¬ attr ++ [equals] <:+ c)
    (hfound : (attr ++ [equals]) ++ [34] <:+: rest) :
    getAttribute (c ++ 34 :: rest) attr = getAttribute rest attr := by
  have hkey : attr ++ ascii "=\"" = (attr ++ [equals]) ++ [34] := by
    rw [List.append_assoc]
    rfl
  have hsplit : c ++ 34 :: rest = (c ++ [34]) ++ rest := by simp
  have hlen : c.length + 1 = (c ++ [34]).length := by simp
  obtain ⟨i, hi⟩ := Option.isSome_iff_exists.mp (find_isSome_iff.mpr hfound)
  have hfind := find_snoc_skip (quote_notMem_key hattr) hc h rest
  rw [hi] at hfind
  simp only [getAttribute, hkey, hfind, hi, Option.map_some]
  rw [hsplit, hlen]
  exact quotedText_append _ _ _ _

end Attribute

/-! ### Texts and their tags -/

theorem parseXmlLoop_rounds {n m : ℕ} {r : Reader} {xml : Bytes} (hn : xml.length ≤ n)
    (hm : xml.length ≤ m) : parseXmlLoop n r xml = parseXmlLoop m r xml := by
  induction n generalizing m r xml with
  | zero =>
    obtain rfl := List.eq_nil_of_length_eq_zero (Nat.le_zero.mp hn)
    cases m with
    | zero => rfl
    | succ m => rfl
  | succ n ih =>
    cases m with
    | zero =>
      obtain rfl := List.eq_nil_of_length_eq_zero (Nat.le_zero.mp hm)
      rfl
    | succ m =>
      have hrest (r : Reader) (k : ℕ) :
          parseXmlLoop n r (xml.drop (k + 1)) = parseXmlLoop m r (xml.drop (k + 1)) := by
        apply ih
        · rw [List.length_drop]
          omega
        · rw [List.length_drop]
          omega
      simp only [parseXmlLoop]
      cases find (ascii "<") xml with
      | none => rfl
      | some tagStart =>
        simp only
        split_ifs
        · cases findFrom (ascii "-->") xml (tagStart + 4) with
          | none => rfl
          | some commentEnd => exact hrest _ _
        · cases findFrom (ascii ">") xml tagStart with
          | none => rfl
          | some tagEnd => exact hrest _ _

/-- The loop on the text `xml`, from the reader `r` on. -/
def readFrom (r : Reader) (xml : Bytes) : Except Bytes Dictionary := parseXmlLoop xml.length r xml

theorem readFrom_eq (r : Reader) (xml : Bytes) :
    readFrom r xml =
      match find (ascii "<") xml with
      | none => .ok r.dict
      | some tagStart =>
        if substr xml tagStart 4 = ascii "<!--" then
          match findFrom (ascii "-->") xml (tagStart + 4) with
          | none => .error (ascii "Malformed XML: unclosed comment")
          | some commentEnd => readFrom r (xml.drop (commentEnd + 3))
        else
          match findFrom (ascii ">") xml tagStart with
          | none => .error (ascii "Malformed XML: unclosed tag")
          | some tagEnd =>
            readFrom (r.readTag (substr xml (tagStart + 1) (tagEnd - (tagStart + 1))))
              (xml.drop (tagEnd + 1)) := by
  cases xml with
  | nil => rfl
  | cons b xml =>
    have hrest (r : Reader) (k : ℕ) :
        parseXmlLoop xml.length r ((b :: xml).drop (k + 1)) =
          readFrom r ((b :: xml).drop (k + 1)) := by
      apply parseXmlLoop_rounds
      · rw [List.drop_succ_cons, List.length_drop]
        omega
      · exact le_rfl
    simp only [readFrom, List.length_cons, parseXmlLoop]
    cases find (ascii "<") (b :: xml) with
    | none => rfl
    | some tagStart =>
      simp only
      split_ifs
      · cases findFrom (ascii "-->") (b :: xml) (tagStart + 4) with
        | none => rfl
        | some commentEnd => exact hrest _ _
      · cases findFrom (ascii ">") (b :: xml) tagStart with
        | none => rfl
        | some tagEnd => exact hrest _ _

section Scanning
variable {gap : Bytes} (hgap : 60 ∉ gap)
include hgap

theorem readFrom_gap (r : Reader) : readFrom r gap = .ok r.dict := by
  have hnone : find (ascii "<") gap = none := by
    rw [find_eq_none_iff]
    exact fun h => hgap ((List.singleton_infix_iff _ _).mp h)
  rw [readFrom_eq, hnone]

theorem readFrom_comment {c : Bytes} (hc : ¬ ascii "-->" <:+: c ++ ascii "--") (r : Reader)
    (xml : Bytes) :
    readFrom r (gap ++ (ascii "<!--" ++ (c ++ (ascii "-->" ++ xml)))) = readFrom r xml := by
  have hstart : find (ascii "<") (gap ++ (ascii "<!--" ++ (c ++ (ascii "-->" ++ xml)))) =
      some gap.length := find_singleton_append hgap _
  have hmark : substr (gap ++ (ascii "<!--" ++ (c ++ (ascii "-->" ++ xml)))) gap.length 4 =
      ascii "<!--" := by
    rw [substr, List.drop_left]
    exact List.take_left' rfl
  have hlen : gap.length + 4 = (gap ++ ascii "<!--").length := by simp [ascii]
  have hend : findFrom (ascii "-->") (gap ++ (ascii "<!--" ++ (c ++ (ascii "-->" ++ xml))))
      (gap.length + 4) = some (gap.length + 4 + c.length) := by
    rw [← List.append_assoc gap, hlen, findFrom_length_append, ← List.append_assoc c,
      find_append (by decide) hc]
    rfl
  have hrest : (gap ++ (ascii "<!--" ++ (c ++ (ascii "-->" ++ xml)))).drop
      (gap.length + 4 + c.length + 3) = xml := by
    have hsplit : gap ++ (ascii "<!--" ++ (c ++ (ascii "-->" ++ xml))) =
        (gap ++ ascii "<!--" ++ c ++ ascii "-->") ++ xml := by simp
    rw [hsplit]
    apply List.drop_left'
    rw [List.length_append, List.length_append, ← hlen]
    rfl
  rw [readFrom_eq, hstart]
  simp only [hmark, hend, hrest, if_true]

theorem readFrom_tag {content : Bytes} (hend : 62 ∉ content) (hcomment : ¬ ascii "!--" <+: content)
    (r : Reader) (xml : Bytes) :
    readFrom r (gap ++ 60 :: (content ++ 62 :: xml)) = readFrom (r.readTag content) xml := by
  have hstart : find (ascii "<") (gap ++ 60 :: (content ++ 62 :: xml)) = some gap.length :=
    find_singleton_append hgap _
  have hmark : substr (gap ++ 60 :: (content ++ 62 :: xml)) gap.length 4 ≠ ascii "<!--" := by
    rw [substr, List.drop_left, List.take_succ_cons]
    intro h
    have htake : (content ++ 62 :: xml).take 3 = ascii "!--" := (List.cons.inj h).2
    obtain ⟨tail, htail⟩ : ascii "!--" <+: content ++ 62 :: xml := htake ▸ List.take_prefix _ _
    rcases List.append_eq_append_iff.mp htail with ⟨x, rfl, _⟩ | ⟨x, hbang, hx⟩
    · exact hcomment (List.prefix_append _ _)
    · cases x with
      | nil => exact hcomment (by rw [hbang, List.append_nil])
      | cons b x =>
        obtain ⟨rfl, _⟩ := List.cons.inj hx
        exact absurd (hbang ▸ by simp : (62 : UInt8) ∈ ascii "!--") (by decide)
  have hfound : findFrom (ascii ">") (gap ++ 60 :: (content ++ 62 :: xml)) gap.length =
      some (gap.length + (content.length + 1)) := by
    have hfirst : find (ascii ">") ((60 :: content) ++ 62 :: xml) = some (60 :: content).length := by
      apply find_singleton_append
      rw [List.mem_cons, not_or]
      exact ⟨by decide, hend⟩
    rw [findFrom_length_append]
    exact congrArg (Option.map (gap.length + ·)) hfirst
  have hsplit : gap ++ 60 :: (content ++ 62 :: xml) = (gap ++ [60]) ++ (content ++ 62 :: xml) := by
    simp
  have hlen : gap.length + 1 = (gap ++ [60]).length := by simp
  have htext : substr (gap ++ 60 :: (content ++ 62 :: xml)) (gap.length + 1)
      (gap.length + (content.length + 1) - (gap.length + 1)) = content := by
    rw [substr, hsplit, hlen, List.drop_left]
    apply List.take_left'
    rw [← hlen]
    omega
  have hrest : (gap ++ 60 :: (content ++ 62 :: xml)).drop
      (gap.length + (content.length + 1) + 1) = xml := by
    have hsplit' : gap ++ 60 :: (content ++ 62 :: xml) = (gap ++ 60 :: (content ++ [62])) ++ xml := by
      simp
    rw [hsplit']
    apply List.drop_left'
    simp
    omega
  rw [readFrom_eq, hstart]
  simp only [hfound, htext, hrest, if_neg hmark]

end Scanning

/-- The text holds these tags in this order, and besides them comments and texts without `<`. -/
inductive HasTags : List Bytes → Bytes → Prop
  | nil {gap : Bytes} : 60 ∉ gap → HasTags [] gap
  | comment {gap c xml : Bytes} {tags : List Bytes} : 60 ∉ gap →
      ¬ ascii "-->" <:+: c ++ ascii "--" → HasTags tags xml →
      HasTags tags (gap ++ (ascii "<!--" ++ (c ++ (ascii "-->" ++ xml))))
  | tag {gap content xml : Bytes} {tags : List Bytes} : 60 ∉ gap → 62 ∉ content →
      ¬ ascii "!--" <+: content → HasTags tags xml →
      HasTags (content :: tags) (gap ++ 60 :: (content ++ 62 :: xml))

theorem readFrom_hasTags {tags : List Bytes} {xml : Bytes} (h : HasTags tags xml) (r : Reader) :
    readFrom r xml = .ok (tags.foldl Reader.readTag r).dict := by
  induction h generalizing r with
  | nil hgap => exact readFrom_gap hgap r
  | comment hgap hc _ ih =>
    rw [readFrom_comment hgap hc]
    exact ih r
  | tag hgap hend hcomment _ ih =>
    rw [readFrom_tag hgap hend hcomment]
    exact ih _

theorem Dictionary.parseXml_hasTags {tags : List Bytes} {xml : Bytes} (h : HasTags tags xml) :
    Dictionary.parseXml xml = .ok (tags.foldl Reader.readTag {}).dict := readFrom_hasTags h {}

/-- The tags one after the other. -/
def spell (tags : List Bytes) : Bytes := tags.flatMap fun content => 60 :: (content ++ [62])

theorem hasTags_spell {tags : List Bytes}
    (h : ∀ content ∈ tags, 62 ∉ content ∧ ¬ ascii "!--" <+: content) :
    HasTags tags (spell tags) := by
  induction tags with
  | nil => exact .nil List.not_mem_nil
  | cons content tags ih =>
    rw [List.forall_mem_cons] at h
    have htag := HasTags.tag List.not_mem_nil h.1.1 h.1.2 (ih h.2)
    have htext : spell (content :: tags) = [] ++ 60 :: (content ++ 62 :: spell tags) := by
      simp [spell]
    rwa [htext]

end Fixure
