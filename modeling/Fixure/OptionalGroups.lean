import Fixure.Documents

/-!
# Groups inside of messages

A message requires its own fields; a field inside a group is required of the instances of the
group only. The reader does not know groups: it enters every field in the one table of the
message, and the last mention of a number counts.
-/

namespace Fixure
open Tables

/-- What stands inside a message or inside a group of it. -/
inductive Children
  | nil
  | tag (content : Bytes) (h : Inner content) (rest : Children)
  | group (head : Bytes) (h : tagName head = ascii "group") (inside rest : Children)

namespace Children

def tags : Children → List Bytes
  | nil => []
  | tag content _ rest => content :: rest.tags
  | group head _ inside rest => head :: (inside.tags ++ ascii "/group" :: rest.tags)

/-- The tags outside of any group. -/
def direct : Children → List Bytes
  | nil => []
  | tag content _ rest => content :: rest.direct
  | group _ _ _ rest => rest.direct

/-- The tags inside a group. -/
def grouped : Children → List Bytes
  | nil => []
  | tag _ _ rest => rest.grouped
  | group _ _ inside rest => inside.tags ++ rest.grouped

/-- The start tags of the groups that are not inside another group. -/
def heads : Children → List Bytes
  | nil => []
  | tag _ _ rest => rest.heads
  | group head _ _ rest => head :: rest.heads

end Children

/-- The fields with these tags that are listed as required. -/
def RequiredIn (number : Bytes → Option Int32) (tags : List Bytes) (tag : Int32) : Prop :=
  (tag, true) ∈ flags number tags

/-- The last mention of the number inside the message requires it. -/
def RequiredLast (number : Bytes → Option Int32) (tags : List Bytes) (tag : Int32) : Prop :=
  lastEntry (flags number tags) tag = some true

/-- The mentions of fields do not mislead the reader about `msg`: a field that `msg` lacks and
that a group requires is mentioned again without being required, and a field that the message
itself requires is not. -/
structure Unmisled (number : Bytes → Option Int32) (c : Children) (strays : List Bytes)
    (msg : FixMessage) : Prop where
  members : ∀ tag, RequiredIn number (c.grouped ++ strays) tag → msg.getField tag = none →
    ¬ RequiredLast number (c.tags ++ strays) tag
  direct : ∀ tag, RequiredIn number c.direct tag → RequiredLast number (c.tags ++ strays) tag

/-! ### Mentions -/

theorem requiredIn_append {number : Bytes → Option Int32} {tags tags' : List Bytes} {tag : Int32} :
    RequiredIn number (tags ++ tags') tag ↔
      RequiredIn number tags tag ∨ RequiredIn number tags' tag := by
  rw [RequiredIn, flags_append, List.mem_append]
  rfl

theorem not_requiredIn_singleton {content : Bytes} (h : tagKind content ≠ .field)
    (number : Bytes → Option Int32) (tag : Int32) : ¬ RequiredIn number [content] tag := by
  simp [RequiredIn, flags, h]

theorem tagKind_group {head : Bytes} (h : tagName head = ascii "group") :
    tagKind head ≠ .field := by
  have hne : ascii "group" ≠ ascii "field" := by decide
  rw [tagKind, h]
  split_ifs <;> simp_all

theorem requiredIn_tags {number : Bytes → Option Int32} (c : Children) (tag : Int32) :
    RequiredIn number c.tags tag ↔
      RequiredIn number c.direct tag ∨ RequiredIn number c.grouped tag := by
  induction c with
  | nil => simp [Children.tags, Children.direct, Children.grouped]
  | tag content h rest ih =>
    have hcons (tags : List Bytes) : content :: tags = [content] ++ tags := rfl
    rw [Children.tags, Children.direct, Children.grouped, hcons, requiredIn_append, ih,
      hcons rest.direct, requiredIn_append, or_assoc]
  | group head h inside rest _ ih =>
    have hhead := not_requiredIn_singleton (tagKind_group h) number tag
    have hend := not_requiredIn_singleton (show tagKind (ascii "/group") ≠ .field by decide)
      number tag
    have hsplit : (Children.group head h inside rest).tags =
        [head] ++ (inside.tags ++ ([ascii "/group"] ++ rest.tags)) := rfl
    rw [hsplit, Children.direct, Children.grouped, requiredIn_append, requiredIn_append,
      requiredIn_append, requiredIn_append, ih, or_iff_right hhead, or_iff_right hend, or_left_comm]

theorem RequiredLast.requiredIn {number : Bytes → Option Int32} {tags : List Bytes} {tag : Int32}
    (h : RequiredLast number tags tag) : RequiredIn number tags tag := by
  obtain ⟨earlier, later, heq, _⟩ := lastEntry_eq_some_iff.mp h
  rw [Fixure.RequiredIn, heq]
  simp

/-! ### Messages with optional groups -/

section Message
variable {o : Opening} {items : List Item} {msgType : Bytes} {e : MessageElement}
  {later : List Item} (hplaced : Placed false items)
  (hlast : lastOf msgType items = some (e, later))
include hplaced hlast

theorem isRequired_iff_requiredLast (tag : Int32) :
    (o.dictionary items).isRequired msgType tag = true ↔
      RequiredLast o.number (e.taken later) tag := by
  rw [o.dictionary_isRequired hplaced, hlast, Option.bind_some, RequiredLast]
  cases lastEntry (flags o.number (e.taken later)) tag with
  | none => simp
  | some req => simp

theorem validates_iff_requiredLast (iteration : Iteration) (msg : FixMessage) :
    (o.dictionary items).validateMessage iteration msgType msg = .ok () ↔
      ∀ tag, RequiredLast o.number (e.taken later) tag → msg.getField tag ≠ none := by
  have hknown : (o.dictionary items).messages.lookup msgType ≠ none := by
    rw [o.dictionary_messages hplaced, hlast]
    simp
  rw [Dictionary.validateMessage_iff_isRequired, and_iff_right hknown]
  simp only [isRequired_iff_requiredLast hplaced hlast]

/-- A message with the fields that its type itself requires is valid, and these fields are
required, exactly when no mention in a group misleads the reader. -/
theorem validates_iff_unmisled {xml : Bytes} (h : HasTags (o.tags items) xml) {c : Children}
    (hc : e.children = c.tags) {msg : FixMessage}
    (hmsg : ∀ tag, RequiredIn o.number c.direct tag → msg.getField tag ≠ none) :
    (∃ d, Dictionary.parseXml xml = .ok d ∧
      (∀ iteration, d.validateMessage iteration msgType msg = .ok ()) ∧
      ∀ tag, RequiredIn o.number c.direct tag → d.isRequired msgType tag = true) ↔
      Unmisled o.number c (if e.selfClosed then strays later else []) msg := by
  have htaken : e.taken later = c.tags ++ if e.selfClosed then strays later else [] := by
    rw [MessageElement.taken, hc]
  rw [o.parseXml_tags h]
  simp only [Except.ok.injEq, exists_eq_left', isRequired_iff_requiredLast hplaced hlast,
    validates_iff_requiredLast hplaced hlast, htaken]
  constructor
  · intro hread
    obtain ⟨hvalid, hdirect⟩ := hread
    refine ⟨fun tag _ hlacks hreq => ?_, hdirect⟩
    exact hvalid ⟨id, fun _ => List.Perm.refl _⟩ tag hreq hlacks
  · intro hun
    refine ⟨fun _ tag hreq hlacks => ?_, hun.direct⟩
    have hmention := hreq.requiredIn
    rw [requiredIn_append, requiredIn_tags, or_assoc, ← requiredIn_append] at hmention
    rcases hmention with hdirect | hmember
    · exact hmsg tag hdirect hlacks
    · exact hun.members tag hmember hlacks hreq

end Message

def orderOpening : Opening where
  prologue := [ascii "fix"]
  fields := [ascii "field number='11' name='ClOrdID'/", ascii "field number='78' name='NoAllocs'/",
    ascii "field number='79' name='AllocAccount'/"]
  prologue_inner := root_inner
  fields_inner := by decide +kernel

/-- `ClOrdID`, and an optional group that requires `AllocAccount`. -/
def orderChildren : Children :=
  .tag (ascii "field name='ClOrdID' required='Y'/") (by decide +kernel)
    (.group (ascii "group name='NoAllocs' required='N'") (by decide +kernel)
      (.tag (ascii "field name='AllocAccount' required='Y'/") (by decide +kernel) .nil) .nil)

def orderElement : MessageElement where
  head := ascii "message name='NewOrderSingle' msgtype='D'"
  children := orderChildren.tags
  selfClosed := false
  message := ⟨ascii "NewOrderSingle", ascii "D", ∅⟩
  head_kind := by decide +kernel
  head_def := messageDef_of_attributes (by decide +kernel) (by decide +kernel) (by decide)
  children_inner := by decide +kernel
  children_nil := by decide

def orderItems : List Item :=
  [.openMessages, .message orderElement, .closeMessages, .inner (ascii "/fix") rootEnd_inner]

theorem placed_order : Placed false orderItems := ⟨rfl, trivial⟩

theorem hasTags_order :
    HasTags (orderOpening.tags orderItems) (spell (orderOpening.tags orderItems)) :=
  hasTags_spell (by decide +kernel)

theorem lastOf_order :
    lastOf (ascii "D") orderItems =
      some (orderElement, [.closeMessages, .inner (ascii "/fix") rootEnd_inner]) := rfl

/-- An order without allocations. -/
def plainOrder : FixMessage where
  raw := ascii "8=F|9=10|35=D|11=X|10=098|"
  fields := [⟨8, ascii "F"⟩, ⟨9, ascii "10"⟩, ⟨35, ascii "D"⟩, ⟨11, ascii "X"⟩, ⟨10, ascii "098"⟩]

theorem flags_order :
    flags orderOpening.number orderChildren.direct = [(11, true)] := by decide +kernel

theorem plainOrder_direct (tag : Int32)
    (h : RequiredIn orderOpening.number orderChildren.direct tag) :
    plainOrder.getField tag ≠ none := by
  rw [RequiredIn, flags_order, List.mem_singleton] at h
  obtain ⟨rfl, _⟩ := Prod.mk.inj h
  decide +kernel

theorem validates_plainOrder :
    (∃ d, Dictionary.parseXml (spell (orderOpening.tags orderItems)) = .ok d ∧
      (∀ iteration, d.validateMessage iteration (ascii "D") plainOrder = .ok ()) ∧
      ∀ tag, RequiredIn orderOpening.number orderChildren.direct tag →
        d.isRequired (ascii "D") tag = true) ↔
      Unmisled orderOpening.number orderChildren [] plainOrder :=
  validates_iff_unmisled placed_order lastOf_order hasTags_order rfl plainOrder_direct

/-- Every group that stands directly in the message is optional. -/
def OptionalGroups (c : Children) : Prop :=
  ∀ head ∈ c.heads, getAttribute head (ascii "required") = ascii "N"

/-- The message has none of the groups: it lacks the fields that count their instances. -/
def LacksGroups (number : Bytes → Option Int32) (c : Children) (msg : FixMessage) : Prop :=
  ∀ head ∈ c.heads, ∀ tag, number (getAttribute head (ascii "name")) = some tag →
    msg.getField tag = none

theorem validates_optionalMember :
    ¬ ∀ (o : Opening) (items : List Item) (xml msgType : Bytes) (e : MessageElement)
      (later : List Item) (c : Children) (raw : Bytes) (separator : UInt8) (msg : FixMessage),
      Placed false items → HasTags (o.tags items) xml → lastOf msgType items = some (e, later) →
      e.children = c.tags → OptionalGroups c → FixMessage.parse raw separator = .ok msg →
      (∀ tag, RequiredIn o.number c.direct tag → msg.getField tag ≠ none) →
      LacksGroups o.number c msg →
      ∃ d, Dictionary.parseXml xml = .ok d ∧
        (∀ iteration, d.validateMessage iteration msgType msg = .ok ()) ∧
        ∀ tag, RequiredIn o.number c.direct tag → d.isRequired msgType tag = true := by
  intro h
  have hparse : FixMessage.parse (ascii "8=F|9=10|35=D|11=X|10=098|") 124 = .ok plainOrder := by
    decide +kernel
  have hoptional : OptionalGroups orderChildren :=
    List.forall_mem_singleton.mpr (by decide +kernel)
  have hlacks : LacksGroups orderOpening.number orderChildren plainOrder := by
    intro head hhead tag htag
    obtain rfl := List.mem_singleton.mp hhead
    have hnumber : orderOpening.number (getAttribute (ascii "group name='NoAllocs' required='N'")
        (ascii "name")) = some 78 := by decide +kernel
    obtain rfl := Option.some.inj (htag.symm.trans hnumber)
    decide +kernel
  obtain ⟨d, hd, hvalid, _⟩ := h orderOpening orderItems _ (ascii "D") orderElement _ orderChildren
    _ 124 plainOrder placed_order hasTags_order lastOf_order rfl hoptional hparse plainOrder_direct
    hlacks
  have hrefused : (Dictionary.parseXml (spell (orderOpening.tags orderItems))).map (fun d =>
      d.validateMessage ⟨id, fun _ => List.Perm.refl _⟩ (ascii "D") plainOrder) =
        .ok (.error (ascii "Missing required field: AllocAccount (79)")) := by decide +kernel
  rw [hd] at hrefused
  have herror := (hvalid _).symm.trans (Except.ok.inj hrefused)
  cases herror

end Fixure
