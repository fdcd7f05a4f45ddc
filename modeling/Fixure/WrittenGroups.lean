import Fixure.Groups
import Fixure.RoundTrip

/-!
# Groups that were written

A group in a message is its count and then its instances, one behind the other. From the bytes of
the message, the parser and the scan for the group get the instances back, as they were written and
in their order. Only the last one also gets the fields that follow the group.
-/

namespace Fixure
open Segments Decimal

/-- A repeating group as it is written: every instance begins with the delimiter, which stands
nowhere else in it. -/
structure WrittenGroup where
  groupTag : Int32
  delimTag : Int32
  countText : Bytes
  instances : List (List Field)
  groupTag_plain : isFraming groupTag = false
  delimTag_plain : isFraming delimTag = false
  spells : Spells countText instances.length
  opened : ∀ fields ∈ instances, Opened (isDelimiter delimTag) fields
  plain : ∀ fields ∈ instances, ∀ f ∈ fields, isFraming f.tag = false

namespace WrittenGroup
variable (group : WrittenGroup)

def countField : Field := ⟨group.groupTag, group.countText⟩

def fields : List Field := group.countField :: group.instances.flatten

theorem plain_flatten : ∀ f ∈ group.instances.flatten, isFraming f.tag = false := by
  intro f hf
  obtain ⟨fields, hfields, hf⟩ := List.mem_flatten.mp hf
  exact group.plain fields hfields f hf

end WrittenGroup

section RoundTrip
variable {separator : UInt8} {first : Field} {pre post : List Field}

theorem bodyFields_append (xs ys : List Field) :
    bodyFields (xs ++ ys) = bodyFields xs ++ bodyFields ys := List.filter_append _ _

theorem bodyFields_of_plain {fields : List Field} (h : ∀ f ∈ fields, isFraming f.tag = false) :
    bodyFields fields = fields := by
  rw [bodyFields, List.filter_eq_self]
  exact fun f hf => by rw [h f hf]; rfl

theorem reach_append_framing {fields rest : List Field} {f : Field}
    (h : ∀ g ∈ fields, isFraming g.tag = false) (hf : isFraming f.tag = true) :
    reach (fields ++ f :: rest) = fields := by
  rw [reach, List.takeWhile_append_of_pos fun g hg => by simp [h g hg]]
  simp [hf]

theorem bodyFields_group (group : WrittenGroup) : bodyFields group.fields = group.fields := by
  refine bodyFields_of_plain ?_
  rw [WrittenGroup.fields, List.forall_mem_cons]
  exact ⟨group.groupTag_plain, group.plain_flatten⟩

/-- In the fields of a written message, the group stands between what was written around it. -/
theorem wireFields_group (group : WrittenGroup) :
    wireFields separator first (pre ++ group.fields ++ post) =
      (⟨8, first.value⟩ :: ⟨9, numeral
          (bodyText separator (pre ++ group.fields ++ post)).length⟩ :: bodyFields pre) ++
        group.countField :: ((group.instances.flatten ++ bodyFields post) ++
          [checksumField (coveredText separator first (pre ++ group.fields ++ post))]) := by
  rw [wireFields, coveredFields, bodyFields_append, bodyFields_append, bodyFields_group]
  simp [WrittenGroup.fields]

theorem getInt_countField (group : WrittenGroup) {front rest : List Field} {msg : FixMessage}
    (hfields : msg.fields = front ++ group.countField :: rest)
    (hfront : ∀ f ∈ front, f.tag ≠ group.groupTag) (hcount : group.instances.length < 2 ^ 31) :
    msg.getInt group.groupTag = some (Int32.ofNat group.instances.length) := by
  have hfind : msg.fields.find? (fun f => f.tag = group.groupTag) = some group.countField := by
    have hnone : front.find? (fun f => f.tag = group.groupTag) = none :=
      List.find?_eq_none.mpr fun f hf => by simpa using hfront f hf
    rw [hfields, List.find?_append, hnone,
      List.find?_cons_of_pos (by simp [WrittenGroup.countField])]
    rfl
  refine getInt_eq_some_iff.mpr ⟨group.countText, ?_, ?_⟩
  · rw [FixMessage.getField, hfind]
    rfl
  · rw [Int32.toInt_ofNat_of_lt hcount]
    exact group.spells.leads

theorem WrittenGroup.plain_scope (group : WrittenGroup) {tail : List Field}
    (htail : ∀ f ∈ tail, isFraming f.tag = false) :
    ∀ f ∈ group.instances.flatten ++ tail, isFraming f.tag = false := by
  intro f hf
  rcases List.mem_append.mp hf with hf | hf
  · exact group.plain_flatten f hf
  · exact htail f hf

/-- In front of its delimiters, a written group is cut into its instances. -/
theorem WrittenGroup.segments_scope (group : WrittenGroup) {tail : List Field}
    (hne : group.instances ≠ []) (htail : ∀ f ∈ tail, f.tag ≠ group.delimTag) :
    segments (isDelimiter group.delimTag) (group.instances.flatten ++ tail) =
      ([], absorb tail group.instances) := by
  obtain ⟨fields, instances, hinstances⟩ := List.exists_cons_of_ne_nil hne
  rw [hinstances]
  exact segments_flatten_append (hinstances ▸ group.opened)
    fun f hf => isDelimiter_eq_false_iff.mpr (htail f hf)

/-- A scan that starts behind the count of a written group finds its instances. -/
theorem getGroup_written (group : WrittenGroup) {front tail rest : List Field} {last : Field}
    {msg : FixMessage}
    (hfields : msg.fields = front ++ group.countField ::
      ((group.instances.flatten ++ tail) ++ last :: rest))
    (hfront : ∀ f ∈ front, f.tag ≠ group.groupTag)
    (htail : ∀ f ∈ tail, isFraming f.tag = false ∧ f.tag ≠ group.delimTag)
    (hlast : isFraming last.tag = true) (hcount : group.instances.length < 2 ^ 31) :
    (msg.getGroup group.groupTag group.delimTag).instances.map
        (fun inst => inst.fields.read msg.fields) =
      (absorb tail group.instances).take maxInstances := by
  have hn := getInt_countField group hfields hfront hcount
  cases hinstances : group.instances with
  | nil =>
    have hempty : ∀ n, msg.getInt group.groupTag = some n → n ≤ 0 := by
      intro n hn'
      rw [hn, hinstances] at hn'
      obtain rfl := Option.some.inj hn'
      exact Int32.le_refl _
    rw [getGroup_eq_empty hempty]
    rfl
  | cons fields instances =>
    have hpos : 0 < Int32.ofNat group.instances.length := by
      rw [Int32.lt_iff_toInt_lt, Int32.toInt_ofNat_of_lt hcount, Int32.toInt_zero, hinstances,
        List.length_cons]
      omega
    have hlimit : (Int32.ofNat group.instances.length).toInt.toNat = group.instances.length := by
      rw [Int32.toInt_ofNat_of_lt hcount, Int.toNat_natCast]
    have hne : group.instances ≠ [] := by simp [hinstances]
    have hplain := group.plain_scope fun f hf => (htail f hf).1
    have hcut := group.segments_scope hne fun f hf => (htail f hf).2
    have harray : msg.fields = (front ++ [group.countField]) ++
        ((absorb tail group.instances).flatten ++ last :: rest) := by
      rw [hfields, flatten_absorb tail hne]
      simp
    have hspans := getGroup_eq_spans group.delimTag_plain hn hpos hfields hfront rfl
    rw [reach_append_framing hplain hlast, pendingSpans, hcut, hlimit] at hspans
    have hreads := congrArg (List.map (Span.read msg.fields)) hspans
    rw [List.map_map] at hreads
    rw [← hinstances]
    refine hreads.trans ?_
    simp only [openSpan, Option.map_none, Option.toList_none, List.nil_append, List.length_nil,
      Nat.add_zero]
    have hstart : front.length + 1 = (front ++ [group.countField]).length := by simp
    rw [List.map_take, hstart, harray, map_read_spans, List.take_eq_take_iff, absorb_length]
    omega

/-- A group that is serialized and parsed is read as it was written: at most 64 instances, the last
one with the fields that follow the group. -/
theorem group_roundTrip (group : WrittenGroup) {buffer s : Bytes} (heq : separator ≠ equals)
    (hdigit : isDigit separator = false)
    (hfree : ∀ f ∈ first :: (pre ++ group.fields ++ post), separator ∉ f.value)
    (hpre : ∀ f ∈ pre, f.tag ≠ group.groupTag) (hpost : ∀ f ∈ post, f.tag ≠ group.delimTag)
    (hcount : (bodyFields (pre ++ group.fields ++ post)).length ≤ 253)
    (hbuffer : buffer.length < 2 ^ 31)
    (hs : serializeMessage (first :: (pre ++ group.fields ++ post)) buffer separator = .ok s) :
    ∃ msg, FixMessage.parse s separator = .ok msg ∧
      (msg.getGroup group.groupTag group.delimTag).instances.map
          (fun inst => inst.fields.read msg.fields) =
        (absorb (bodyFields post) group.instances).take maxInstances := by
  obtain ⟨_, hfit, rfl⟩ := (serializeMessage_eq_ok_iff _ _ hbuffer separator).mp hs
  refine ⟨_, parse_wire heq hdigit hfree hcount (by omega), ?_⟩
  refine getGroup_written group (wireFields_group group) ?_ ?_ rfl ?_
  · have h8 : group.groupTag ≠ 8 := fun h => absurd (h ▸ group.groupTag_plain) (by decide)
    have h9 : group.groupTag ≠ 9 := fun h => absurd (h ▸ group.groupTag_plain) (by decide)
    rw [List.forall_mem_cons, List.forall_mem_cons]
    exact ⟨h8.symm, h9.symm, fun f hf => hpre f (List.mem_of_mem_filter hf)⟩
  · intro f hf
    obtain ⟨hf, hplain⟩ := List.mem_filter.mp hf
    exact ⟨by simpa using hplain, hpost f hf⟩
  · have hle := length_le_flatten group.opened
    rw [bodyFields_append, bodyFields_append, bodyFields_group, List.length_append,
      List.length_append, WrittenGroup.fields, List.length_cons] at hcount
    omega

end RoundTrip

def allocationInstances : List (List Field) :=
  [[⟨79, ascii "A"⟩, ⟨80, ascii "1"⟩], [⟨79, ascii "B"⟩]]

theorem opened_allocations : ∀ inst ∈ allocationInstances, Opened (isDelimiter 79) inst := by
  simp [allocationInstances, Opened, isDelimiter]

theorem plain_allocations :
    ∀ fields ∈ allocationInstances, ∀ f ∈ fields, isFraming f.tag = false := by
  decide +kernel

theorem spells_allocations : Spells (ascii "02") allocationInstances.length :=
  ⟨ascii "02", by decide +kernel⟩

/-- Two allocations, of which the first has two fields. -/
def allocations : WrittenGroup where
  groupTag := 78
  delimTag := 79
  countText := ascii "02"
  instances := allocationInstances
  groupTag_plain := rfl
  delimTag_plain := rfl
  spells := spells_allocations
  opened := opened_allocations
  plain := plain_allocations

theorem group_roundTrip_allocations :
    ∃ msg, FixMessage.parse (ascii "8=F|9=34|35=D|78=02|79=A|80=1|79=B|58=note|10=130|") 124 =
        .ok msg ∧
      (msg.getGroup 78 79).instances.map (fun inst => inst.fields.read msg.fields) =
        [[⟨79, ascii "A"⟩, ⟨80, ascii "1"⟩], [⟨79, ascii "B"⟩, ⟨58, ascii "note"⟩]] :=
  @group_roundTrip 124 ⟨8, ascii "F"⟩ [⟨35, ascii "D"⟩] [⟨58, ascii "note"⟩] allocations
    (List.replicate 64 0) _ (by decide) (by decide) (by decide +kernel) (by decide) (by decide)
    (by decide) (by decide) (by decide +kernel)

end Fixure
