import Fixure.Documents

/-!
# Fields outside of messages

A field that a header, a trailer or a component lists is no field of a message. The reader
forgets a message at its end tag only, so such a field counts for a message that closes itself.
-/

namespace Fixure
open Tables

def NoMessage : List Item → Prop
  | [] => True
  | .inner _ _ :: items => NoMessage items
  | .openMessages :: items => NoMessage items
  | .closeMessages :: items => NoMessage items
  | .message _ :: _ => False

/-- A field that `content` lists outside of any message, between `before` and `after`, counts
for the type: the last message before it has the type and closes itself, no message of the type
follows, no field listed up to the next message has the same number, and the fields listed since
the message have left the flag different. -/
structure CountsFor (number : Bytes → Option Int32) (before after : List Item) (content : Bytes)
    (msgType : Bytes) (tag : Int32) (e : MessageElement) (between : List Item) (req : Bool) :
    Prop where
  place : lastOf msgType before = some (e, between)
  last : NoMessage between
  selfClosed : e.selfClosed = true
  only : lastOf msgType after = none
  flag : flags number [content] = [(tag, req)]
  kept : ∀ f ∈ flags number (strays after), f.1 ≠ tag
  changed : (lastEntry (flags number (strays between)) tag).getD false ≠ req

def Counts (number : Bytes → Option Int32) (before after : List Item) (content : Bytes) : Prop :=
  ∃ msgType tag e between req, CountsFor number before after content msgType tag e between req

/-- Two dictionaries that require the same fields and accept the same messages. -/
structure SameAnswers (d d' : Dictionary) : Prop where
  isRequired : ∀ msgType tag, d.isRequired msgType tag = d'.isRequired msgType tag
  validateMessage : ∀ iteration msgType msg,
    d.validateMessage iteration msgType msg = .ok () ↔
      d'.validateMessage iteration msgType msg = .ok ()

theorem inner_of_field {content : Bytes} (h : tagKind content = .field) : Inner content := .inl h

/-! ### Places -/

theorem lastOf_append (msgType : Bytes) (items rest : List Item) :
    lastOf msgType (items ++ rest) =
      (lastOf msgType rest).or
        ((lastOf msgType items).map fun place => (place.1, place.2 ++ rest)) := by
  induction items with
  | nil => simp [lastOf]
  | cons item items ih =>
    cases item with
    | message e =>
      simp only [List.cons_append, lastOf, ih, Option.or_assoc]
      congr 1
      cases lastOf msgType items with
      | some place => rfl
      | none =>
        split_ifs <;> rfl
    | _ => exact ih

theorem strays_append {items : List Item} (h : NoMessage items) (rest : List Item) :
    strays (items ++ rest) = strays items ++ strays rest := by
  induction items with
  | nil => rfl
  | cons item items ih =>
    cases item with
    | message e => exact absurd h id
    | inner content hinner => exact congrArg (content :: ·) (ih h)
    | _ => exact ih h

theorem strays_append_of_message {items : List Item} (h : ¬ NoMessage items) (rest : List Item) :
    strays (items ++ rest) = strays items := by
  induction items with
  | nil => exact absurd trivial h
  | cons item items ih =>
    cases item with
    | message e => rfl
    | inner content hinner => exact congrArg (content :: ·) (ih h)
    | _ => exact ih h

namespace MessageElement

theorem taken_append {e : MessageElement} {between : List Item}
    (h : ¬ (e.selfClosed = true ∧ NoMessage between)) (rest : List Item) :
    e.taken (between ++ rest) = e.taken between := by
  rw [taken, taken]
  split_ifs with hclosed
  · rw [strays_append_of_message fun hno => h ⟨hclosed, hno⟩]
  · rfl

theorem flags_taken_append {e : MessageElement} {between : List Item} (hclosed : e.selfClosed = true)
    (hno : NoMessage between) (number : Bytes → Option Int32) (rest : List Item) :
    flags number (e.taken (between ++ rest)) =
      flags number (strays between) ++ flags number (strays rest) := by
  rw [taken, if_pos hclosed, e.children_nil hclosed, strays_append hno, List.nil_append,
    flags_append]

end MessageElement

theorem flags_singleton (number : Bytes → Option Int32) (content : Bytes) :
    flags number [content] = [] ∨ ∃ tag req, flags number [content] = [(tag, req)] := by
  rw [flags, List.filterMap_cons, List.filterMap_nil]
  split
  · exact .inl rfl
  · exact .inr ⟨_, _, rfl⟩

/-! ### One flag more -/

theorem getD_lastEntry_insert {fs fs' : List (Int32 × Bool)} {k a : Int32} {b : Bool} :
    (lastEntry (fs ++ (k, b) :: fs') a).getD false = (lastEntry (fs ++ fs') a).getD false ↔
      ¬ (a = k ∧ (∀ f ∈ fs', f.1 ≠ k) ∧ (lastEntry fs k).getD false ≠ b) := by
  have hsplit : fs ++ (k, b) :: fs' = fs ++ ([(k, b)] ++ fs') := rfl
  rw [hsplit, lastEntry_append, lastEntry_append, lastEntry_append, lastEntry_singleton]
  by_cases hne : a = k
  · subst hne
    cases hlast : lastEntry fs' a with
    | some b' =>
      have hkept : ¬ ∀ f ∈ fs', f.1 ≠ a := by
        rw [← lastEntry_eq_none_iff, hlast]
        simp
      exact iff_of_true rfl fun h => hkept h.2.1
    | none =>
      have hkept := lastEntry_eq_none_iff.mp hlast
      rw [if_pos rfl, and_iff_right rfl, and_iff_right hkept, not_ne_iff]
      exact eq_comm
  · rw [if_neg hne, Option.or_none]
    exact iff_of_true rfl fun h => hne h.1

section Insertion
variable {o : Opening} {before after : List Item} {content : Bytes} (h : Inner content)

theorem CountsFor.place_eq {number : Bytes → Option Int32} {msgType : Bytes} {tag : Int32}
    {e e' : MessageElement} {between between' : List Item} {req : Bool}
    (hc : CountsFor number before after content msgType tag e' between' req)
    (hbefore : lastOf msgType before = some (e, between)) : e' = e ∧ between' = between :=
  Prod.mk.inj (Option.some.inj (hc.place.symm.trans hbefore))

/-- Behind a message that closes itself `content` gives it a flag more, if it gives one. -/
theorem required_insert_open {number : Bytes → Option Int32} {msgType : Bytes} {tag : Int32}
    {e : MessageElement} {between : List Item} (hbefore : lastOf msgType before = some (e, between))
    (hafter : lastOf msgType after = none) (hclosed : e.selfClosed = true)
    (hno : NoMessage between) :
    (lastEntry (flags number (e.taken (between ++ .inner content h :: after))) tag).getD false =
      (lastEntry (flags number (e.taken (between ++ after))) tag).getD false ↔
      ¬ ∃ e between req, CountsFor number before after content msgType tag e between req := by
  have hstrays : flags number (strays (.inner content h :: after)) =
      flags number [content] ++ flags number (strays after) :=
    flags_append number [content] (strays after)
  rw [MessageElement.flags_taken_append hclosed hno,
    MessageElement.flags_taken_append hclosed hno, hstrays]
  rcases flags_singleton number content with hflag | ⟨k, req, hflag⟩
  · rw [hflag]
    apply iff_of_true rfl
    intro hcounts
    obtain ⟨e', between', req, hc⟩ := hcounts
    rw [hc.flag] at hflag
    cases hflag
  · rw [hflag, List.singleton_append, getD_lastEntry_insert, not_iff_not]
    constructor
    · intro hchange
      obtain ⟨rfl, hkept, hchanged⟩ := hchange
      exact ⟨e, between, req, hbefore, hno, hclosed, hafter, hflag, hkept, hchanged⟩
    · intro hcounts
      obtain ⟨e', between', req', hc⟩ := hcounts
      obtain ⟨rfl, rfl⟩ := hc.place_eq hbefore
      obtain ⟨rfl, rfl⟩ := Prod.mk.inj (List.singleton_inj.mp (hflag.symm.trans hc.flag))
      exact ⟨rfl, hc.kept, hc.changed⟩

/-- The flag of a field is the same with and without `content`, unless it counts for the flag. -/
theorem required_insert_iff (number : Bytes → Option Int32) (msgType : Bytes) (tag : Int32) :
    ((lastOf msgType (before ++ .inner content h :: after)).bind fun place =>
        lastEntry (flags number (place.1.taken place.2)) tag).getD false =
      ((lastOf msgType (before ++ after)).bind fun place =>
        lastEntry (flags number (place.1.taken place.2)) tag).getD false ↔
      ¬ ∃ e between req, CountsFor number before after content msgType tag e between req := by
  rw [lastOf_append, lastOf_append, lastOf]
  cases hafter : lastOf msgType after with
  | some place =>
    apply iff_of_true rfl
    intro hcounts
    obtain ⟨e, between, req, hc⟩ := hcounts
    rw [hc.only] at hafter
    cases hafter
  | none =>
    cases hbefore : lastOf msgType before with
    | none =>
      apply iff_of_true rfl
      intro hcounts
      obtain ⟨e, between, req, hc⟩ := hcounts
      rw [hc.place] at hbefore
      cases hbefore
    | some place =>
      obtain ⟨e, between⟩ := place
      by_cases hopen : e.selfClosed = true ∧ NoMessage between
      · exact required_insert_open h hbefore hafter hopen.1 hopen.2
      · simp only [Option.none_or, Option.map_some, Option.bind_some]
        rw [MessageElement.taken_append hopen, MessageElement.taken_append hopen]
        apply iff_of_true rfl
        intro hcounts
        obtain ⟨e', between', req, hc⟩ := hcounts
        obtain ⟨rfl, rfl⟩ := hc.place_eq hbefore
        exact hopen ⟨hc.selfClosed, hc.last⟩

theorem placed_insert {inside : Bool} :
    Placed inside (before ++ .inner content h :: after) ↔ Placed inside (before ++ after) := by
  induction before generalizing inside with
  | nil => exact Iff.rfl
  | cons item before ih =>
    cases item with
    | message e => exact and_congr_right fun _ => ih
    | _ => exact ih

theorem lastOf_insert_eq_none_iff (msgType : Bytes) :
    lastOf msgType (before ++ .inner content h :: after) = none ↔
      lastOf msgType (before ++ after) = none := by
  simp [lastOf_append, lastOf]

/-- The answers are the same with and without a field outside of any message exactly when it
counts for no message. -/
theorem sameAnswers_insert_iff (hfield : tagKind content = .field)
    (hplaced : Placed false (before ++ after)) {xml xml' : Bytes}
    (hwith : HasTags (o.tags (before ++ .inner content (inner_of_field hfield) :: after)) xml)
    (hwithout : HasTags (o.tags (before ++ after)) xml') :
    (∃ d d', Dictionary.parseXml xml = .ok d ∧ Dictionary.parseXml xml' = .ok d' ∧
      SameAnswers d d') ↔ ¬ Counts o.number before after content := by
  have hplaced' := (placed_insert (inner_of_field hfield)).mpr hplaced
  rw [o.parseXml_tags hwith, o.parseXml_tags hwithout]
  constructor
  · intro hsame hcounts
    obtain ⟨d, d', hd, hd', hsame⟩ := hsame
    obtain rfl := Except.ok.inj hd
    obtain rfl := Except.ok.inj hd'
    obtain ⟨msgType, tag, hcounts⟩ := hcounts
    have hreq := hsame.isRequired msgType tag
    rw [o.dictionary_isRequired hplaced', o.dictionary_isRequired hplaced,
      required_insert_iff (inner_of_field hfield)] at hreq
    exact hreq hcounts
  · intro hno
    have hreq (msgType : Bytes) (tag : Int32) :
        (o.dictionary (before ++ .inner content (inner_of_field hfield) :: after)).isRequired
            msgType tag =
          (o.dictionary (before ++ after)).isRequired msgType tag := by
      rw [o.dictionary_isRequired hplaced', o.dictionary_isRequired hplaced,
        required_insert_iff (inner_of_field hfield)]
      exact fun hcounts => hno ⟨msgType, tag, hcounts⟩
    refine ⟨_, _, rfl, rfl, hreq, fun iteration msgType msg => ?_⟩
    simp only [Dictionary.validateMessage_iff_isRequired, hreq]
    rw [o.dictionary_messages hplaced', o.dictionary_messages hplaced, ne_eq, ne_eq,
      Option.map_eq_none_iff, Option.map_eq_none_iff, lastOf_insert_eq_none_iff]

end Insertion

def checkSumOpening : Opening where
  prologue := [ascii "fix"]
  fields := [ascii "field number='10' name='CheckSum'/"]
  prologue_inner := root_inner
  fields_inner := by decide +kernel

/-- `<message name='Heartbeat' msgtype='0'/>` in the section of messages, then a trailer. -/
def heartbeatItem : Item := .message
  { head := ascii "message name='Heartbeat' msgtype='0'/"
    children := []
    selfClosed := true
    message := ⟨ascii "Heartbeat", ascii "0", ∅⟩
    head_kind := by decide +kernel
    head_def := messageDef_of_attributes (by decide +kernel) (by decide +kernel) (by decide)
    children_inner := List.forall_mem_nil _
    children_nil := fun _ => rfl }

def beforeCheckSum : List Item :=
  [.openMessages, heartbeatItem, .closeMessages, .inner (ascii "trailer") (by decide +kernel)]

def afterCheckSum : List Item :=
  [.inner (ascii "/trailer") (by decide +kernel), .inner (ascii "/fix") rootEnd_inner]

theorem checkSum_field : tagKind (ascii "field name='CheckSum' required='Y'/") = .field := by
  decide +kernel

def checkSumItems : List Item :=
  beforeCheckSum ++
    .inner (ascii "field name='CheckSum' required='Y'/") (inner_of_field checkSum_field) ::
      afterCheckSum

theorem hasTags_checkSum :
    HasTags (checkSumOpening.tags checkSumItems) (spell (checkSumOpening.tags checkSumItems)) :=
  hasTags_spell (by decide +kernel)

theorem hasTags_noCheckSum :
    HasTags (checkSumOpening.tags (beforeCheckSum ++ afterCheckSum))
      (spell (checkSumOpening.tags (beforeCheckSum ++ afterCheckSum))) :=
  hasTags_spell (by decide +kernel)

theorem placed_checkSum : Placed false (beforeCheckSum ++ afterCheckSum) := ⟨rfl, trivial⟩

theorem sameAnswers_insert_checkSum :
    (∃ d d', Dictionary.parseXml (spell (checkSumOpening.tags checkSumItems)) = .ok d ∧
      Dictionary.parseXml (spell (checkSumOpening.tags (beforeCheckSum ++ afterCheckSum))) = .ok d' ∧
      SameAnswers d d') ↔
      ¬ Counts checkSumOpening.number beforeCheckSum afterCheckSum
        (ascii "field name='CheckSum' required='Y'/") :=
  sameAnswers_insert_iff checkSum_field placed_checkSum hasTags_checkSum hasTags_noCheckSum

theorem sameAnswers_insert_selfClosed :
    ¬ ∀ (o : Opening) (before after : List Item) (content : Bytes)
      (hfield : tagKind content = .field) (xml xml' : Bytes), Placed false (before ++ after) →
      HasTags (o.tags (before ++ .inner content (inner_of_field hfield) :: after)) xml →
      HasTags (o.tags (before ++ after)) xml' →
      ∃ d d', Dictionary.parseXml xml = .ok d ∧ Dictionary.parseXml xml' = .ok d' ∧
        SameAnswers d d' := by
  intro h
  obtain ⟨d, d', hd, hd', hsame⟩ := h checkSumOpening beforeCheckSum afterCheckSum _ checkSum_field
    _ _ placed_checkSum hasTags_checkSum hasTags_noCheckSum
  have hreq : (Dictionary.parseXml (spell (checkSumOpening.tags checkSumItems))).map
      (fun d => d.isRequired (ascii "0") 10) = .ok true := by decide +kernel
  have hreq' : (Dictionary.parseXml
      (spell (checkSumOpening.tags (beforeCheckSum ++ afterCheckSum)))).map
        (fun d => d.isRequired (ascii "0") 10) = .ok false := by decide +kernel
  rw [show Dictionary.parseXml (spell (checkSumOpening.tags checkSumItems)) = .ok d from hd] at hreq
  rw [hd'] at hreq'
  have hwith : d.isRequired (ascii "0") 10 = true := Except.ok.inj hreq
  have hwithout : d'.isRequired (ascii "0") 10 = false := Except.ok.inj hreq'
  rw [hsame.isRequired, hwithout] at hwith
  cases hwith

end Fixure
