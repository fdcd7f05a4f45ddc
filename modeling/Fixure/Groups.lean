import Fixure.Segments
import Fixure.Serializer

/-!
# Repeating groups

`getGroup` scans the fields behind a count field and opens an instance at every
delimiter. An instance is a span over the field array, so the model keeps its
position and size. `getGroup_cuts` compares the scan with the segments of the
fields it can reach; the loop goes through `pendingSpans`, the spans that are
still to come while one of them may be open.
-/

namespace Fixure
open Segments

def maxInstances : ℕ := 64

structure GroupInstance where
  fields : Span
  deriving DecidableEq

def GroupInstance.getField (array : List Field) (inst : GroupInstance) (tag : Int32) :
    Option Bytes :=
  ((inst.fields.read array).find? fun f => f.tag = tag).map Field.value

/-- `instances` is the used part of the array; its length is the source's `count`. -/
structure GroupView where
  instances : List GroupInstance := []
  deriving DecidableEq

def GroupView.push (view : GroupView) (start stop : ℕ) : GroupView :=
  ⟨view.instances ++ [⟨⟨start, stop - start⟩⟩]⟩

structure GroupScan where
  currentIdx : ℕ
  instanceStartIdx : Option ℕ := none
  view : GroupView := {}

def GroupScan.room (s : GroupScan) (numInstances : ℕ) : Bool :=
  s.view.instances.length < numInstances && s.view.instances.length < maxInstances

def GroupScan.close (s : GroupScan) : GroupView :=
  match s.instanceStartIdx with
  | none => s.view
  | some start => s.view.push start s.currentIdx

/-- The list argument holds the fields from `currentIdx` on. -/
def groupLoop (delimTag : Int32) (numInstances : ℕ) : List Field → GroupScan → GroupScan
  | [], s => s
  | f :: rest, s =>
    if s.room numInstances then
      if f.tag = delimTag then
        groupLoop delimTag numInstances rest ⟨s.currentIdx + 1, some s.currentIdx, s.close⟩
      else if f.tag = 10 ∨ f.tag = 8 ∨ f.tag = 9 then s
      else groupLoop delimTag numInstances rest { s with currentIdx := s.currentIdx + 1 }
    else s

/-- The view after the scan has closed the instance that is still open. -/
def GroupScan.finish (s : GroupScan) (numInstances : ℕ) : GroupView :=
  if s.room numInstances then s.close else s.view

def FixMessage.getGroup (msg : FixMessage) (groupTag delimTag : Int32) : GroupView :=
  match msg.fields.findIdx? fun f => f.tag = groupTag with
  | none => {}
  | some groupFieldIdx =>
    match msg.getInt groupTag with
    | none => {}
    | some n =>
      if n ≤ 0 then {}
      else
        let numInstances := sizeOfInt n
        let following := msg.fields.drop (groupFieldIdx + 1)
        (groupLoop delimTag numInstances following ⟨groupFieldIdx + 1, none, {}⟩).finish
          numInstances

/-! ### The scan and the segments -/

def isDelimiter (delimTag : Int32) (f : Field) : Bool := f.tag = delimTag

/-- What the scan can reach of the fields in front of it. -/
def reach (fields : List Field) : List Field := fields.takeWhile fun f => !isFraming f.tag

/-- The open instance, when there is one, as it would be closed at position `i`. -/
def openSpan (start : Option ℕ) (i : ℕ) : List Span :=
  (start.map fun first => ⟨first, i - first⟩).toList

/-- The spans that `fields`, which stands at position `i`, still closes when `start` is the
position of the open instance. -/
def pendingSpans (delimTag : Int32) (i : ℕ) (start : Option ℕ) (fields : List Field) :
    List Span :=
  let cut := segments (isDelimiter delimTag) fields
  openSpan start (i + cut.1.length) ++ spans (i + cut.1.length) cut.2

section Scan
variable {delimTag : Int32} {numInstances : ℕ} {f : Field} {fields : List Field}

theorem reach_cons_of_framing (h : isFraming f.tag = true) : reach (f :: fields) = [] := by
  simp [reach, h]

theorem reach_cons_of_not_framing (h : isFraming f.tag = false) :
    reach (f :: fields) = f :: reach fields := by
  simp [reach, h]

theorem isDelimiter_iff : isDelimiter delimTag f = true ↔ f.tag = delimTag := by
  simp [isDelimiter]

theorem isDelimiter_eq_false_iff : isDelimiter delimTag f = false ↔ f.tag ≠ delimTag := by
  simp [isDelimiter]

theorem pendingSpans_nil (i : ℕ) (start : Option ℕ) :
    pendingSpans delimTag i start [] = openSpan start i := by
  simp [pendingSpans, segments, spans]

theorem pendingSpans_delimiter (i : ℕ) (start : Option ℕ) (h : f.tag = delimTag) :
    pendingSpans delimTag i start (f :: fields) =
      openSpan start i ++ pendingSpans delimTag (i + 1) (some i) fields := by
  have hsize : i + 1 + (segments (isDelimiter delimTag) fields).1.length - i =
      (segments (isDelimiter delimTag) fields).1.length + 1 := by omega
  have hnext : i + 1 + (segments (isDelimiter delimTag) fields).1.length =
      i + ((segments (isDelimiter delimTag) fields).1.length + 1) := by omega
  simp only [pendingSpans, segments_cons_of_pos (isDelimiter_iff.mpr h), spans, List.length_cons,
    List.length_nil, Nat.add_zero]
  rw [openSpan, openSpan, Option.map_some, Option.toList_some, hsize, hnext]
  rfl

theorem pendingSpans_other (i : ℕ) (start : Option ℕ) (h : f.tag ≠ delimTag) :
    pendingSpans delimTag i start (f :: fields) =
      pendingSpans delimTag (i + 1) start fields := by
  have hnext : i + ((segments (isDelimiter delimTag) fields).1.length + 1) =
      i + 1 + (segments (isDelimiter delimTag) fields).1.length := by omega
  simp only [pendingSpans, segments_cons_of_neg (isDelimiter_eq_false_iff.mpr h),
    List.length_cons, hnext]

theorem close_instances (s : GroupScan) :
    s.close.instances.map GroupInstance.fields =
      s.view.instances.map GroupInstance.fields ++ openSpan s.instanceStartIdx s.currentIdx := by
  rw [GroupScan.close, openSpan]
  cases s.instanceStartIdx with
  | none => simp
  | some first => simp [GroupView.push]

theorem openSpan_length_le (start : Option ℕ) (i : ℕ) : (openSpan start i).length ≤ 1 := by
  cases start with
  | none => exact Nat.zero_le 1
  | some first => exact le_rfl

theorem room_iff (s : GroupScan) :
    s.room numInstances = true ↔ s.view.instances.length < min numInstances maxInstances := by
  simp [GroupScan.room]

/-- A scan that has stopped shows what is open, as far as the limits allow. -/
theorem finish_stopped (s : GroupScan) :
    (s.finish numInstances).instances.map GroupInstance.fields =
      s.view.instances.map GroupInstance.fields ++
        (pendingSpans delimTag s.currentIdx s.instanceStartIdx []).take
          (min numInstances maxInstances - s.view.instances.length) := by
  rw [GroupScan.finish, pendingSpans_nil]
  by_cases hroom : s.room numInstances = true
  · have hlt := (room_iff s).mp hroom
    have hlength := openSpan_length_le s.instanceStartIdx s.currentIdx
    rw [if_pos hroom, close_instances, List.take_of_length_le (by omega)]
  · have hle := (room_iff s).not.mp hroom
    rw [if_neg hroom, Nat.sub_eq_zero_of_le (not_lt.mp hle), List.take_zero, List.append_nil]

theorem finish_groupLoop (hdelim : isFraming delimTag = false) (s : GroupScan) :
    ((groupLoop delimTag numInstances fields s).finish numInstances).instances.map
        GroupInstance.fields =
      s.view.instances.map GroupInstance.fields ++
        (pendingSpans delimTag s.currentIdx s.instanceStartIdx (reach fields)).take
          (min numInstances maxInstances - s.view.instances.length) := by
  induction fields generalizing s with
  | nil => exact finish_stopped s
  | cons f fields ih =>
    rw [groupLoop]
    by_cases hroom : s.room numInstances = true
    swap
    · have hle := (room_iff s).not.mp hroom
      rw [if_neg hroom, GroupScan.finish, if_neg hroom, Nat.sub_eq_zero_of_le (not_lt.mp hle),
        List.take_zero, List.append_nil]
    have hlt := (room_iff s).mp hroom
    rw [if_pos hroom]
    by_cases hd : f.tag = delimTag
    · have hframing : isFraming f.tag = false := hd ▸ hdelim
      rw [if_pos hd, ih, reach_cons_of_not_framing hframing, pendingSpans_delimiter _ _ hd,
        close_instances, List.append_assoc]
      have hlength := congrArg List.length (close_instances s)
      have hle := openSpan_length_le s.instanceStartIdx s.currentIdx
      simp only [List.length_map, List.length_append] at hlength
      rw [hlength, List.take_append, List.take_of_length_le (l := openSpan _ _) (by omega),
        Nat.sub_sub]
    · rw [if_neg hd]
      by_cases hframing : f.tag = 10 ∨ f.tag = 8 ∨ f.tag = 9
      · have hf : isFraming f.tag = true := by
          rw [Writer.isFraming_iff]
          tauto
        rw [if_pos hframing, reach_cons_of_framing hf]
        exact finish_stopped s
      · have hf : isFraming f.tag = false := by
          rw [← Bool.not_eq_true, Writer.isFraming_iff]
          tauto
        rw [if_neg hframing, ih, reach_cons_of_not_framing hf, pendingSpans_other _ _ hd]

end Scan

/-! ### The instances of a group -/

theorem findIdx?_first {p : Field → Bool} {pre rest : List Field} {f : Field}
    (hpre : ∀ g ∈ pre, p g = false) (hf : p f = true) :
    (pre ++ f :: rest).findIdx? p = some pre.length := by
  have hnone : pre.findIdx? p = none := List.findIdx?_eq_none_iff.mpr hpre
  rw [List.findIdx?_append, hnone, List.findIdx?_cons, if_pos hf]
  simp

theorem getInt_first {msg : FixMessage} {tag n : Int32} (h : msg.getInt tag = some n) :
    ∃ pre f rest, msg.fields = pre ++ f :: rest ∧ (∀ g ∈ pre, g.tag ≠ tag) ∧ f.tag = tag := by
  obtain ⟨val, hval, _⟩ := getInt_eq_some_iff.mp h
  rw [FixMessage.getField, Option.map_eq_some_iff] at hval
  obtain ⟨f, hf, _⟩ := hval
  obtain ⟨htag, pre, rest, hfields, hpre⟩ := List.find?_eq_some_iff_append.mp hf
  exact ⟨pre, f, rest, hfields, fun g hg => by simpa using hpre g hg, by simpa using htag⟩

theorem sizeOfInt_of_pos {n : Int32} (h : 0 < n) : sizeOfInt n = n.toInt.toNat := by
  have hlt := n.toInt_lt
  rw [Int32.lt_iff_toInt_lt, Int32.toInt_zero] at h
  exact Writer.sizeOfInt_of_toInt (by omega)

theorem getGroup_eq_spans {msg : FixMessage} {groupTag delimTag n : Int32}
    {pre rest : List Field} {group : Field} (hdelim : isFraming delimTag = false)
    (hn : msg.getInt groupTag = some n) (hpos : 0 < n) (hfields : msg.fields = pre ++ group :: rest)
    (hpre : ∀ f ∈ pre, f.tag ≠ groupTag) (hgroup : group.tag = groupTag) :
    (msg.getGroup groupTag delimTag).instances.map GroupInstance.fields =
      (pendingSpans delimTag (pre.length + 1) none (reach rest)).take
        (min n.toInt.toNat maxInstances) := by
  have hidx : msg.fields.findIdx? (fun f => f.tag = groupTag) = some pre.length := by
    rw [hfields]
    exact findIdx?_first (fun g hg => decide_eq_false (hpre g hg)) (decide_eq_true hgroup)
  have hdrop : msg.fields.drop (pre.length + 1) = rest := by
    rw [hfields, List.drop_append, Nat.add_sub_cancel_left, List.drop_eq_nil_of_le (by omega)]
    rfl
  rw [FixMessage.getGroup]
  simp only [hidx, hn, hdrop, if_neg (Int32.not_le.mpr hpos), sizeOfInt_of_pos hpos]
  rw [finish_groupLoop hdelim]
  rfl

theorem getGroup_eq_empty {msg : FixMessage} {groupTag : Int32}
    (h : ∀ n, msg.getInt groupTag = some n → n ≤ 0) (delimTag : Int32) :
    msg.getGroup groupTag delimTag = {} := by
  rw [FixMessage.getGroup]
  cases msg.fields.findIdx? fun f => f.tag = groupTag with
  | none => rfl
  | some groupFieldIdx =>
    cases hn : msg.getInt groupTag with
    | none => rfl
    | some n => exact if_pos (h n hn)

/-- What a view shows of the fields `scope`, which stand at position `start` of the array:
the segments that the delimiter opens, from the first one on, at most `limit` of them. -/
structure GroupCuts (delimTag : Int32) (array scope : List Field) (start limit : ℕ)
    (view : GroupView) (lead : List Field) (chunks : List (List Field)) : Prop where
  scope_eq : scope = lead ++ chunks.flatten
  lead_free : ∀ f ∈ lead, f.tag ≠ delimTag
  opened : ∀ chunk ∈ chunks, ∃ f rest, chunk = f :: rest ∧ f.tag = delimTag ∧
    ∀ g ∈ rest, g.tag ≠ delimTag
  spans_eq : view.instances.map GroupInstance.fields =
    (spans (start + lead.length) chunks).take limit
  reads_eq : view.instances.map (fun inst => inst.fields.read array) = chunks.take limit
  count_eq : view.instances.length = min limit (scope.countP fun f => f.tag = delimTag)

/-- The groups of a message are cut where the delimiter stands, whatever its fields are. -/
theorem getGroup_cuts (msg : FixMessage) (groupTag delimTag : Int32)
    (hdelim : isFraming delimTag = false) :
    ((∀ n, msg.getInt groupTag = some n → n ≤ 0) →
      (msg.getGroup groupTag delimTag).instances = []) ∧
    ∀ n, msg.getInt groupTag = some n → 0 < n →
      ∃ pre group rest lead chunks,
        msg.fields = pre ++ group :: rest ∧ (∀ f ∈ pre, f.tag ≠ groupTag) ∧
        group.tag = groupTag ∧
        GroupCuts delimTag msg.fields (reach rest) (pre.length + 1)
          (min n.toInt.toNat maxInstances) (msg.getGroup groupTag delimTag) lead chunks := by
  constructor
  · intro h
    rw [getGroup_eq_empty h]
  intro n hn hpos
  obtain ⟨pre, group, rest, hfields, hpre, hgroup⟩ := getInt_first hn
  have hspans := getGroup_eq_spans hdelim hn hpos hfields hpre hgroup
  obtain ⟨beyond, hbeyond⟩ : reach rest <+: rest := List.takeWhile_prefix _
  have hscope := lead_append_flatten (isDelimiter delimTag) (reach rest)
  have hlength := segments_length (isDelimiter delimTag) (reach rest)
  set cut := segments (isDelimiter delimTag) (reach rest) with hcut
  have hspans' : (msg.getGroup groupTag delimTag).instances.map GroupInstance.fields =
      (spans (pre.length + 1 + cut.1.length) cut.2).take (min n.toInt.toNat maxInstances) := by
    rw [hspans, pendingSpans, ← hcut]
    rfl
  have harray : msg.fields = (pre ++ [group] ++ cut.1) ++ (cut.2.flatten ++ beyond) := by
    rw [hfields, ← hbeyond, ← hscope]
    simp
  have hstart : pre.length + 1 + cut.1.length = (pre ++ [group] ++ cut.1).length := by
    rw [List.length_append, List.length_append, List.length_singleton]
  refine ⟨pre, group, rest, cut.1, cut.2, hfields, hpre, hgroup, hscope.symm, ?_, ?_, hspans',
    ?_, ?_⟩
  · intro f hf
    exact isDelimiter_eq_false_iff.mp (lead_free hf)
  · intro chunk hchunk
    obtain ⟨f, l, rfl, hf, hl⟩ := opened_of_mem_segments hchunk
    exact ⟨f, l, rfl, isDelimiter_iff.mp hf, fun g hg => isDelimiter_eq_false_iff.mp (hl g hg)⟩
  · have hreads := congrArg (List.map (Span.read msg.fields)) hspans'
    rw [List.map_map, List.map_take, hstart] at hreads
    calc (msg.getGroup groupTag delimTag).instances.map (fun inst => inst.fields.read msg.fields)
        = ((spans (pre ++ [group] ++ cut.1).length cut.2).map (Span.read msg.fields)).take
            (min n.toInt.toNat maxInstances) := hreads
      _ = cut.2.take (min n.toInt.toNat maxInstances) := by
        rw [harray, map_read_spans]
  · have hcount := congrArg List.length hspans'
    rw [List.length_map, List.length_take, spans_length, hlength] at hcount
    exact hcount

/-- Two allocations, as in the test of the source. -/
theorem getGroup_cuts_allocations :
    ∃ pre group rest lead chunks,
      [⟨8, []⟩, ⟨78, ascii "2"⟩, ⟨79, ascii "A"⟩, ⟨80, ascii "1"⟩, ⟨79, ascii "B"⟩, ⟨10, []⟩] =
        pre ++ group :: rest ∧ (∀ f ∈ pre, f.tag ≠ 78) ∧ group.tag = 78 ∧
      GroupCuts 79
        [⟨8, []⟩, ⟨78, ascii "2"⟩, ⟨79, ascii "A"⟩, ⟨80, ascii "1"⟩, ⟨79, ascii "B"⟩, ⟨10, []⟩]
        (reach rest) (pre.length + 1) (min (2 : Int32).toInt.toNat maxInstances)
        (FixMessage.getGroup ⟨[], [⟨8, []⟩, ⟨78, ascii "2"⟩, ⟨79, ascii "A"⟩, ⟨80, ascii "1"⟩,
          ⟨79, ascii "B"⟩, ⟨10, []⟩]⟩ 78 79) lead chunks :=
  (getGroup_cuts ⟨[], [⟨8, []⟩, ⟨78, ascii "2"⟩, ⟨79, ascii "A"⟩, ⟨80, ascii "1"⟩,
    ⟨79, ascii "B"⟩, ⟨10, []⟩]⟩ 78 79 (by decide)).2 2 (by decide) (by decide)

end Fixure
