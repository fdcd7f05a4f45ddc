import Fixure.Serializer
import Fixure.Splitter

/-!
# Cutting messages out of a byte stream

`extractNextMessage` looks for `8=`, then for `10=` anywhere behind it, then for the
separator. It is a lawful splitter, but two of its habits show in the results below.
A `10=` that stands inside a field ends the message there, so the framer returns what the
serializer wrote exactly when no field text contains one. And an attempt without a `8=`
clears the buffer, so a `8` that waits for its `=` is lost.
-/

namespace Fixure
open Search Decimal Splitter

def extractNextMessage (separator : UInt8) (buffer : Bytes) : Option Bytes × Bytes :=
  match find (ascii "8=") buffer with
  | none => (none, [])
  | some start =>
    let buffer := if start > 0 then buffer.drop start else buffer
    match find (ascii "10=") buffer with
    | none => (none, buffer)
    | some idx10 =>
      match findFrom [separator] buffer idx10 with
      | none => (none, buffer)
      | some separatorPos =>
        let msgLen := separatorPos + 1
        (some (buffer.take msgLen), buffer.drop msgLen)

def cutMessage (separator : UInt8) (buffer : Bytes) : Option Bytes × Bytes :=
  match find (ascii "10=") buffer with
  | none => (none, buffer)
  | some idx10 =>
    match findFrom [separator] buffer idx10 with
    | none => (none, buffer)
    | some separatorPos => (some (buffer.take (separatorPos + 1)), buffer.drop (separatorPos + 1))

section Extract
variable {separator : UInt8}

theorem extract_of_find_none {b : Bytes} (h : find (ascii "8=") b = none) :
    extractNextMessage separator b = (none, []) := by
  simp only [extractNextMessage, h]

theorem extract_of_find_some {b : Bytes} {start : ℕ} (h : find (ascii "8=") b = some start) :
    extractNextMessage separator b = cutMessage separator (b.drop start) := by
  have hdrop : (if start > 0 then b.drop start else b) = b.drop start := by
    split_ifs with hpos
    · rfl
    · rw [Nat.eq_zero_of_not_pos hpos, List.drop_zero]
  simp only [extractNextMessage, h, hdrop]
  rfl

theorem cutMessage_append {a b : Bytes} {x : Bytes}
    (ha : find (ascii "10=") (a ++ (b ++ separator :: x)) = some a.length) (hb : separator ∉ b) :
    cutMessage separator (a ++ (b ++ separator :: x)) = (some (a ++ (b ++ [separator])), x) := by
  have hpos : findFrom [separator] (a ++ (b ++ separator :: x)) a.length =
      some (a.length + b.length) := by
    rw [findFrom_length_append, find_singleton_append hb]
    rfl
  have hsplit : a ++ (b ++ separator :: x) = (a ++ (b ++ [separator])) ++ x := by simp
  have hlen : a.length + b.length + 1 = (a ++ (b ++ [separator])).length := by simp; omega
  simp only [cutMessage, ha, hpos]
  rw [hlen, hsplit, List.take_left, List.drop_left]

theorem cutMessage_eq_some {b m r : Bytes} (h : cutMessage separator b = (some m, r)) :
    ∃ a text, b = a ++ (text ++ separator :: r) ∧ m = a ++ (text ++ [separator]) ∧
      separator ∉ text ∧ find (ascii "10=") b = some a.length := by
  simp only [cutMessage] at h
  cases h10 : find (ascii "10=") b with
  | none => simp [h10] at h
  | some idx10 =>
    obtain ⟨a, rest, rfl, rfl, _⟩ := find_eq_some_split (by decide) h10
    simp only [h10] at h
    rw [List.append_assoc, findFrom_length_append] at h
    cases hsep : find [separator] (ascii "10=" ++ rest) with
    | none => simp [hsep] at h
    | some k =>
      obtain ⟨text, tail, hrest, rfl, hfree⟩ := find_singleton_eq_some_split hsep
      simp only [hsep, Option.map_some] at h
      have hlen : a.length + text.length + 1 = (a ++ (text ++ [separator])).length := by
        simp; omega
      have hsplit : a ++ (ascii "10=" ++ rest) = (a ++ (text ++ [separator])) ++ tail := by
        rw [hrest]; simp
      rw [hlen, hsplit, List.take_left, List.drop_left] at h
      obtain ⟨hm, rfl⟩ := Prod.mk.inj h
      refine ⟨a, text, ?_, (Option.some.inj hm).symm, hfree, rfl⟩
      rw [List.append_assoc, hrest]

theorem cutMessage_eq_none {b r : Bytes} (h : cutMessage separator b = (none, r)) : r = b := by
  simp only [cutMessage] at h
  split at h
  · exact (Prod.mk.inj h).2.symm
  · split at h
    · exact (Prod.mk.inj h).2.symm
    · cases h

theorem extract_eq_some {b m r : Bytes} (h : extractNextMessage separator b = (some m, r)) :
    ∃ junk, b = junk ++ (m ++ r) ∧ find (ascii "8=") b = some junk.length ∧
      cutMessage separator (m ++ r) = (some m, r) := by
  cases h8 : find (ascii "8=") b with
  | none =>
    rw [extract_of_find_none h8] at h
    cases h
  | some start =>
    rw [extract_of_find_some h8] at h
    obtain ⟨junk, rest, rfl, rfl, _⟩ := find_eq_some_split (by decide) h8
    rw [List.append_assoc, List.drop_left] at h
    obtain ⟨a, text, hb, rfl, _, _⟩ := cutMessage_eq_some h
    have hmr : ascii "8=" ++ rest = (a ++ (text ++ [separator])) ++ r := by
      rw [hb]; simp
    refine ⟨junk, ?_, rfl, hmr ▸ h⟩
    rw [List.append_assoc, hmr]

/-- The text begins with `8=` and ends at the first separator behind its first `10=`. -/
structure Framed (separator : UInt8) (m : Bytes) : Prop where
  begins : ascii "8=" <+: m
  ends : ∃ covered value, m = covered ++ (ascii "10=" ++ (value ++ [separator])) ∧
    separator ∉ ascii "10=" ++ value ∧ ¬ ascii "10=" <:+: covered ++ ascii "10"

theorem extract_framed {m : Bytes} (h : Framed separator m) (x : Bytes) :
    extractNextMessage separator (m ++ x) = (some m, x) := by
  obtain ⟨t, ht⟩ := h.begins
  have h8 : find (ascii "8=") (m ++ x) = some 0 := by
    rw [← ht, List.append_assoc]
    exact find_prefix _
  rw [extract_of_find_some h8, List.drop_zero]
  obtain ⟨covered, value, rfl, hvalue, hten⟩ := h.ends
  have h10 : find (ascii "10=") (covered ++ ascii "10=" ++ (value ++ separator :: x)) =
      some covered.length := find_append (by decide) hten _
  have hcut := cutMessage_append (by simpa using h10) hvalue (x := x)
  simpa using hcut

theorem extract_suffix (separator : UInt8) (b : Bytes) :
    (extractNextMessage separator b).2 <:+ b := by
  cases hb : extractNextMessage separator b with
  | mk piece r =>
    cases piece with
    | some m =>
      obtain ⟨junk, rfl, _⟩ := extract_eq_some hb
      rw [← List.append_assoc]
      exact List.suffix_append _ _
    | none =>
      cases h8 : find (ascii "8=") b with
      | none =>
        rw [extract_of_find_none h8] at hb
        exact (Prod.mk.inj hb).2 ▸ List.nil_suffix
      | some start =>
        rw [extract_of_find_some h8] at hb
        exact cutMessage_eq_none hb ▸ List.drop_suffix start b

theorem extract_lawful (separator : UInt8) : Lawful (extractNextMessage separator) where
  shorter := by
    intro b m r h
    obtain ⟨junk, rfl, _, hcut⟩ := extract_eq_some h
    obtain ⟨a, text, _, rfl, _, _⟩ := cutMessage_eq_some hcut
    simp
    omega
  stable := by
    intro b m r h x
    obtain ⟨junk, rfl, h8, hcut⟩ := extract_eq_some h
    rw [extract_of_find_some (find_append_right (by decide) h8 x), List.append_assoc,
      List.drop_left]
    obtain ⟨a, text, hb, rfl, hfree, h10⟩ := cutMessage_eq_some hcut
    have hgrown := find_append_right (by decide) h10 x
    rw [hb] at hgrown ⊢
    simp only [List.append_assoc, List.cons_append] at hgrown ⊢
    exact cutMessage_append hgrown hfree

/-- A start, behind it the tag of the checksum, and behind that a separator. -/
def HasFrame (separator : UInt8) (s : Bytes) : Prop :=
  ∃ junk mid tail, s = junk ++ ascii "8=" ++ (mid ++ ascii "10=" ++ tail) ∧ separator ∈ tail

theorem HasFrame.append {a b : Bytes} (h : HasFrame separator b) : HasFrame separator (a ++ b) := by
  obtain ⟨junk, mid, tail, rfl, hmem⟩ := h
  exact ⟨a ++ junk, mid, tail, by simp, hmem⟩

theorem HasFrame.append_right {a b : Bytes} (h : HasFrame separator a) :
    HasFrame separator (a ++ b) := by
  obtain ⟨junk, mid, tail, rfl, hmem⟩ := h
  exact ⟨junk, mid, tail ++ b, by simp, List.mem_append_left b hmem⟩

theorem noStraddle_begin (t : Bytes) : NoStraddle (ascii "10=") (ascii "8=") t := by
  intro p q hp _ hpq hsuf _
  have hmem : p.head hp ∈ ascii "8=" := hsuf.subset (List.head_mem hp)
  have hhead := congrArg List.head? hpq
  rw [List.head?_append_of_ne_nil _ hp, List.head?_eq_some_head hp] at hhead
  rw [← Option.some.inj hhead] at hmem
  exact absurd hmem (by decide)

theorem extract_shape (hsep : separator ∉ ascii "10=") {b m r : Bytes}
    (h : extractNextMessage separator b = (some m, r)) :
    ∃ junk mid text, b = junk ++ (m ++ r) ∧
      m = ascii "8=" ++ (mid ++ (ascii "10=" ++ (text ++ [separator]))) ∧
      separator ∉ text ∧ ¬ ascii "10=" <:+: mid ++ ascii "10" := by
  obtain ⟨junk, rfl, h8, hcut⟩ := extract_eq_some h
  obtain ⟨a, text, hmr, rfl, hfree, h10⟩ := cutMessage_eq_some hcut
  obtain ⟨junk', t, hb, hjunk, _⟩ := find_eq_some_split (by decide) h8
  rw [List.append_assoc junk'] at hb
  obtain ⟨rfl, ht⟩ := List.append_inj hb hjunk.symm
  rw [ht, find_append_left (by decide) (by decide) (noStraddle_begin t)] at h10
  obtain ⟨j, hj, hlen⟩ := Option.map_eq_some_iff.mp h10
  obtain ⟨mid, tail, rfl, rfl, hfirst⟩ := find_eq_some_split (by decide) hj
  have hsplit : (ascii "8=" ++ mid) ++ (ascii "10=" ++ tail) = a ++ (text ++ separator :: r) := by
    rw [← hmr, ht]
    simp
  obtain ⟨rfl, htail⟩ := List.append_inj hsplit (by simp [← hlen])
  -- the separator lies behind the whole `10=`
  rcases List.append_eq_append_iff.mp htail with ⟨x, htext, _⟩ | ⟨x, hten, hx⟩
  · refine ⟨junk, mid, x, rfl, ?_, ?_, hfirst⟩
    · rw [htext]
      simp
    · intro hm
      exact hfree (htext ▸ List.mem_append_right _ hm)
  · cases x with
    | nil =>
      refine ⟨junk, mid, [], rfl, ?_, List.not_mem_nil, hfirst⟩
      rw [List.append_nil] at hten
      rw [← hten]
      simp
    | cons d x =>
      obtain ⟨rfl, _⟩ := List.cons.inj hx
      exact absurd (hten ▸ by simp) hsep

theorem extract_isSome_iff (hsep : separator ∉ ascii "10=") {b : Bytes} :
    (∃ m r, extractNextMessage separator b = (some m, r)) ↔ HasFrame separator b := by
  constructor
  · rintro ⟨m, r, h⟩
    obtain ⟨junk, mid, text, rfl, rfl, _⟩ := extract_shape hsep h
    exact ⟨junk, mid, text ++ separator :: r, by simp, by simp⟩
  · rintro ⟨junk, mid, tail, rfl, hmem⟩
    obtain ⟨start, hstart, h8⟩ := exists_find_le (ascii "8=") junk (mid ++ ascii "10=" ++ tail)
    have hdrop : (junk ++ ascii "8=" ++ (mid ++ ascii "10=" ++ tail)).drop start =
        (junk.drop start ++ ascii "8=" ++ mid) ++ ascii "10=" ++ tail := by
      simp [List.drop_append_of_le_length hstart]
    rw [extract_of_find_some h8, hdrop]
    obtain ⟨idx10, hidx, h10⟩ := exists_find_le (ascii "10=")
      (junk.drop start ++ ascii "8=" ++ mid) tail
    obtain ⟨a, rest, hb, rfl, _⟩ := find_eq_some_split (by decide) h10
    have hrest : separator ∈ ascii "10=" ++ rest := by
      have hdrop' := congrArg (List.drop a.length) hb
      rw [List.append_assoc a, List.drop_left, List.append_assoc,
        List.drop_append_of_le_length hidx] at hdrop'
      rw [← hdrop']
      simp [hmem]
    obtain ⟨k, hk⟩ := Option.isSome_iff_exists.mp
      (find_isSome_iff.mpr ((List.singleton_infix_iff _ _).mpr hrest))
    obtain ⟨text, r, hr, _, hfree⟩ := find_singleton_eq_some_split hk
    rw [hb, List.append_assoc, hr] at h10 ⊢
    exact ⟨_, _, cutMessage_append h10 hfree⟩

/-- A refused attempt keeps the buffer from the first `8=` on, and nothing without one. -/
theorem extract_resumes {u x : Bytes}
    (hsplit : ¬ ascii "8=" <:+: u → NoStraddle (ascii "8=") u x)
    (hu : (extractNextMessage separator u).1 = none) :
    Resumes (extractNextMessage separator) u x := by
  rw [Resumes]
  cases h8 : find (ascii "8=") u with
  | none =>
    have hno := find_eq_none_iff.mp h8
    rw [extract_of_find_none h8]
    have hfind := find_append_left (by decide) hno (hsplit hno)
    cases hx : find (ascii "8=") x with
    | none =>
      rw [hx] at hfind
      rw [extract_of_find_none hfind]
      exact extract_of_find_none hx
    | some start =>
      rw [hx] at hfind
      rw [extract_of_find_some hfind, List.drop_length_add_append]
      exact extract_of_find_some hx
  | some start =>
    have hext : extractNextMessage separator u = _ := extract_of_find_some h8
    obtain ⟨junk, rest, rfl, rfl, _⟩ := find_eq_some_split (by decide) h8
    rw [List.append_assoc, List.drop_left] at hext
    have hleft : (extractNextMessage separator (junk ++ ascii "8=" ++ rest)).2 =
        ascii "8=" ++ rest := by
      rw [List.append_assoc] at hu ⊢
      rw [hext] at hu ⊢
      exact cutMessage_eq_none (Prod.ext hu rfl)
    have hgrown := find_append_right (by decide) h8 x
    have hfront : find (ascii "8=") (ascii "8=" ++ rest ++ x) = some 0 := by
      rw [List.append_assoc]
      exact find_prefix _
    rw [hleft, extract_of_find_some hgrown, extract_of_find_some hfront]
    simp

end Extract

/-! ### Framing what the serializer wrote -/

/-- The text of the field holds no `10=`. -/
def Field.Frameable (f : Field) : Prop :=
  f.tag.toInt.natAbs % 100 ≠ 10 ∧ ¬ ascii "10=" <:+: f.value

instance : DecidablePred Field.Frameable := fun f =>
  inferInstanceAs (Decidable (f.tag.toInt.natAbs % 100 ≠ 10 ∧ ¬ ascii "10=" <:+: f.value))

def copiedFields : List Field → List Field
  | [] => []
  | first :: rest => first :: bodyFields rest

theorem text_eq_concat (separator : UInt8) (f : Field) :
    f.text separator = (intNumeral f.tag.toInt ++ equals :: f.value) ++ [separator] := by
  simp [Field.text]

theorem ten_suffix_intNumeral_iff (n : ℤ) :
    ascii "10" <:+ intNumeral n ↔ n.natAbs % 100 = 10 := by
  have hten : ascii "10" = [UInt8.ofNat (48 + 1), UInt8.ofNat (48 + 0)] := by decide
  have hnumeral : ascii "10" <:+ numeral n.natAbs ↔ n.natAbs % 100 = 10 := by
    rw [hten, twoDigits_suffix_numeral_iff (by decide) (by decide) (by decide)]
  rw [← hnumeral, intNumeral]
  split_ifs
  · rw [List.suffix_cons_iff, or_iff_right]
    intro h
    exact absurd (List.cons.inj h).1 (by decide)
  · rfl

theorem ten_infix_text_iff (f : Field) :
    ascii "10=" <:+: f.text soh ↔ ¬ f.Frameable := by
  have hten : ascii "10=" = ascii "10" ++ [equals] := by decide
  rw [Field.Frameable, not_and_or, not_not, not_not, ← ten_suffix_intNumeral_iff, Field.text]
  conv_lhs => rw [hten]
  rw [infix_snoc_iff (by decide) (equals_notMem_of_spells (spells_intNumeral _)), ← hten,
    infix_concat_iff (by decide) (by decide)]

theorem ten_infix_flatMap_iff (fields : List Field) :
    ascii "10=" <:+: fields.flatMap (Field.text soh) ↔
      ∃ f ∈ fields, ascii "10=" <:+: f.text soh := by
  induction fields with
  | nil => simp [ascii]
  | cons f fields ih =>
    rw [List.exists_mem_cons_iff, ← ih, List.flatMap_cons, text_eq_concat,
      infix_concat_iff (by decide) (by decide), List.append_assoc _ [soh],
      List.singleton_append, infix_append_cons_iff (by decide) (by decide)]

theorem flatMap_text_eq_concat {fields : List Field} (h : fields ≠ []) :
    ∃ text, fields.flatMap (Field.text soh) = text ++ [soh] := by
  obtain ⟨init, last, rfl⟩ := List.eq_nil_or_concat fields |>.resolve_left h
  refine ⟨init.flatMap (Field.text soh) ++ (intNumeral last.tag.toInt ++ equals :: last.value), ?_⟩
  simp [List.flatMap_append, text_eq_concat]

theorem coveredText_begin (first : Field) (rest : List Field) :
    ∃ tail, coveredText soh first rest = ascii "8=" ++ tail := by
  have h8 : intNumeral 8 ++ [equals] = ascii "8=" := by decide
  rw [coveredText, coveredFields, List.flatMap_cons, Field.text, ← h8]
  exact ⟨_, by simp; rfl⟩

theorem wire_eq_checkSum (first : Field) (rest : List Field) :
    wire soh first rest = coveredText soh first rest ++
      ((ascii "10=" ++ (checksumField (coveredText soh first rest)).value) ++ [soh]) := by
  have h10 : intNumeral 10 ++ [equals] = ascii "10=" := by decide
  rw [wire_eq, Field.text, ← h10]
  simp [checksumField]

theorem ten_notInfix_covered {first : Field} {rest : List Field}
    (hno : ¬ ascii "10=" <:+: coveredText soh first rest) :
    ¬ ascii "10=" <:+: coveredText soh first rest ++ ascii "10" := by
  have hne : coveredFields soh first rest ≠ [] := List.cons_ne_nil _ _
  obtain ⟨text, htext⟩ := flatMap_text_eq_concat hne
  rw [coveredText, htext] at hno ⊢
  rw [infix_concat_iff (by decide) (by decide)] at hno
  rw [List.append_assoc, List.singleton_append, infix_append_cons_iff (by decide) (by decide)]
  exact not_or.mpr ⟨hno, by decide⟩

theorem framed_wire {first : Field} {rest : List Field}
    (hno : ¬ ascii "10=" <:+: coveredText soh first rest) : Framed soh (wire soh first rest) := by
  have hsplit : wire soh first rest = coveredText soh first rest ++ (ascii "10=" ++
      ((checksumField (coveredText soh first rest)).value ++ [soh])) := by
    rw [wire_eq_checkSum, List.append_assoc (ascii "10=")]
  refine ⟨?_, _, _, hsplit, ?_, ?_⟩
  · obtain ⟨t, ht⟩ := coveredText_begin first rest
    rw [hsplit, ht, List.append_assoc]
    exact List.prefix_append _ _
  · intro hm
    rcases List.mem_append.mp hm with hm | hm
    · exact absurd hm (by decide)
    · exact absurd (isDigit_of_mem_threeDigits (Nat.mod_lt _ (by decide)) hm) (by decide)
  · exact ten_notInfix_covered hno

/-- A `10=` in front of the checksum ends the extracted message there. -/
theorem extract_wire_short {first : Field} {rest : List Field}
    (hten : ascii "10=" <:+: coveredText soh first rest) (x : Bytes) :
    ∃ m r, extractNextMessage soh (wire soh first rest ++ x) = (some m, r) ∧
      m.length < (wire soh first rest).length := by
  have hne : coveredFields soh first rest ≠ [] := List.cons_ne_nil _ _
  obtain ⟨text, htext⟩ := flatMap_text_eq_concat hne
  have hframe : HasFrame soh (coveredText soh first rest) := by
    obtain ⟨t, ht⟩ := coveredText_begin first rest
    rw [ht, infix_append_of_noStraddle (noStraddle_begin t), or_iff_right (by decide)] at hten
    obtain ⟨mid, tail, rfl⟩ := hten
    refine ⟨[], mid, tail, ht, ?_⟩
    -- the separator that closes the covered text stands behind this `10=`
    have hlast := congrArg List.getLast? (ht.symm.trans htext)
    have hmem : soh ∈ ascii "10=" ++ tail := by
      rw [List.append_assoc, ← List.append_assoc, List.getLast?_append_of_ne_nil _ (by simp [ascii]),
        List.getLast?_concat] at hlast
      exact List.mem_of_getLast? hlast
    exact (List.mem_append.mp hmem).resolve_left (by decide)
  obtain ⟨m, r, h⟩ := (extract_isSome_iff (by decide)).mpr hframe
  obtain ⟨junk, hcovered, _, _⟩ := extract_eq_some h
  rw [wire_eq_checkSum, List.append_assoc]
  refine ⟨m, _, (extract_lawful soh).stable h _, ?_⟩
  simp only [hcovered, List.length_append]
  simp
  omega

theorem ten_infix_coveredText_iff {first : Field} (rest : List Field) (h8 : first.tag = 8) :
    ascii "10=" <:+: coveredText soh first rest ↔
      ¬ ∀ f ∈ copiedFields (first :: rest), f.Frameable := by
  have hlength : Field.Frameable ⟨9, numeral (bodyText soh rest).length⟩ := by
    refine ⟨(by decide : (9 : Int32).toInt.natAbs % 100 ≠ 10), fun h => ?_⟩
    exact absurd (isDigit_of_mem_numeral (h.subset (by decide : equals ∈ ascii "10="))) (by decide)
  have hfirst : (⟨8, first.value⟩ : Field) = first := by rw [← h8]
  rw [coveredText, ten_infix_flatMap_iff, copiedFields, coveredFields, hfirst]
  push Not
  simp only [ten_infix_text_iff, List.exists_mem_cons_iff, hlength, not_true_eq_false, false_or]

structure SentMessage where
  fields : List Field
  buffer : Bytes
  text : Bytes
  buffer_lt : buffer.length < 2 ^ 31
  written : serializeMessage fields buffer soh = .ok text

theorem SentMessage.text_eq (m : SentMessage) :
    ∃ first rest, m.fields = first :: rest ∧ first.tag = 8 ∧ m.text = wire soh first rest := by
  obtain ⟨fields, buffer, text, hbuffer, hwritten⟩ := m
  cases fields with
  | nil => cases hwritten
  | cons first rest =>
    obtain ⟨h8, _, htext⟩ := (serializeMessage_eq_ok_iff first rest hbuffer soh).mp hwritten
    exact ⟨first, rest, rfl, h8, htext⟩

/-- The framer gives back the messages that were sent, and an empty buffer, exactly when
no copied field holds a `10=`. The values may even hold separators. -/
theorem drain_sentMessages_iff (sent : List SentMessage) :
    drain (extractNextMessage soh) (sent.flatMap SentMessage.text) =
        (sent.map SentMessage.text, []) ↔
      ∀ m ∈ sent, ∀ f ∈ copiedFields m.fields, f.Frameable := by
  induction sent with
  | nil => simp [show drain (extractNextMessage soh) [] = ([], []) by decide]
  | cons m sent ih =>
    obtain ⟨first, rest, hfields, h8, htext⟩ := m.text_eq
    rw [List.forall_mem_cons, List.flatMap_cons, List.map_cons, hfields, htext]
    by_cases hten : ascii "10=" <:+: coveredText soh first rest
    · obtain ⟨m', r, hext, hlt⟩ := extract_wire_short hten (sent.flatMap SentMessage.text)
      rw [(extract_lawful soh).drain_of_take hext]
      constructor
      · intro h
        have hm : m' = wire soh first rest := (List.cons.inj (Prod.mk.inj h).1).1
        exact absurd hlt (by rw [hm]; exact lt_irrefl _)
      · rintro ⟨hframeable, _⟩
        exact absurd hframeable ((ten_infix_coveredText_iff rest h8).mp hten)
    · have hframeable := not_not.mp ((ten_infix_coveredText_iff rest h8).not.mp hten)
      rw [(extract_lawful soh).drain_of_take (extract_framed (framed_wire hten) _),
        and_iff_right hframeable, ← ih,
        Prod.ext_iff, Prod.ext_iff, List.cons_inj_right]

def orderWithMinQty : SentMessage where
  fields := [⟨8, ascii "FIX.4.2"⟩, ⟨35, ascii "D"⟩, ⟨110, ascii "5"⟩]
  buffer := List.replicate 64 0
  text := ascii "8=FIX.4.2\x019=11\x0135=D\x01110=5\x0110=231\x01"
  buffer_lt := by decide
  written := by decide

theorem drain_sentMessages_minQty :
    ¬ ∀ sent : List SentMessage, drain (extractNextMessage soh) (sent.flatMap SentMessage.text) =
      (sent.map SentMessage.text, []) := by
  intro h
  exact absurd (h [orderWithMinQty]) (by decide)

/-! ### Chunks -/

def Cuts (cs : List Bytes) (s : Bytes) : Prop := cs.flatten = s ∧ [] ∉ cs

def extractedMessages (cs : List Bytes) : List Bytes := (feedAll (extractNextMessage soh) [] cs).1

/-- Feeding `cs` to the buffer `b` never clears a buffer that ends in `8` in front of
a chunk that starts with `=`. -/
def KeepsStarts : Bytes → List Bytes → Prop
  | _, [] => True
  | b, c :: cs =>
    let left := (drain (extractNextMessage soh) (b ++ c)).2
    ¬ (left = [] ∧ ascii "8" <:+ b ++ c ∧ ascii "=" <+: cs.flatten) ∧ KeepsStarts left cs

theorem noStraddle_of_not_split {u x : Bytes} (h : ¬ (ascii "8" <:+ u ∧ ascii "=" <+: x)) :
    NoStraddle (ascii "8=") u x := by
  intro p q hp hq hpq hsuf hpre
  obtain ⟨rfl, rfl⟩ : p = ascii "8" ∧ q = ascii "=" := by
    rcases p with _ | ⟨b, _ | ⟨c, p⟩⟩
    · exact absurd rfl hp
    · obtain ⟨rfl, rfl⟩ := List.cons.inj hpq
      exact ⟨rfl, rfl⟩
    · have hlen : 2 = (b :: c :: p ++ q).length := congrArg List.length hpq
      have hpos := List.length_pos_iff.mpr hq
      simp only [List.length_append, List.length_cons] at hlen
      omega
  exact h ⟨hsuf, hpre⟩

theorem resumable_of_keepsStarts {b : Bytes} {cs : List Bytes} (h : KeepsStarts b cs) :
    Resumable (extractNextMessage soh) b cs := by
  induction cs generalizing b with
  | nil => trivial
  | cons c cs ih =>
    obtain ⟨hkeep, hrest⟩ := h
    refine ⟨fun ms u hd => ?_, ih hrest⟩
    refine extract_resumes (fun hno => noStraddle_of_not_split ?_) hd.last_refused
    rintro ⟨height, hequals⟩
    have hleft : (drain (extractNextMessage soh) (b ++ c)).2 = [] := by
      rw [(extract_lawful soh).drain_eq hd, extract_of_find_none (find_eq_none_iff.mpr hno)]
    exact hkeep ⟨hleft, height.trans (hd.suffix (extract_suffix soh)), hequals⟩

theorem extractedMessages_eq_of_keepsStarts {cs : List Bytes} (h : KeepsStarts [] cs) :
    extractedMessages cs = (drain (extractNextMessage soh) cs.flatten).1 := by
  have hsettle : ∀ u, (extractNextMessage soh u).1 = none →
      Resumes (extractNextMessage soh) u [] := by
    refine fun u => extract_resumes fun _ => noStraddle_of_not_split ?_
    exact fun h => absurd h.2 (by decide)
  rw [extractedMessages, (extract_lawful soh).feedAll_eq (by decide) hsettle
    (resumable_of_keepsStarts h), List.nil_append]

/-- Chunks of one byte never hold a `8=`, so nothing is extracted from them. -/
theorem extractedMessages_singletons (s : Bytes) : extractedMessages (s.map ([·])) = [] := by
  have hbyte (b : UInt8) : drain (extractNextMessage soh) ([] ++ [b]) = ([], []) := by
    have hnone : extractNextMessage soh [b] = (none, []) := by
      refine extract_of_find_none (find_eq_none_iff.mpr fun h => ?_)
      exact absurd h.length_le (by decide : ¬ 2 ≤ 1)
    rw [List.nil_append, (extract_lawful soh).drain_eq (.refuse (by rw [hnone])), hnone]
  rw [extractedMessages]
  induction s with
  | nil => rfl
  | cons b s ih =>
    rw [List.map_cons, feedAll]
    simp only [hbyte, ih, List.append_nil]

theorem hasFrame_of_feedAll {b : Bytes} {cs : List Bytes}
    (h : (feedAll (extractNextMessage soh) b cs).1 ≠ []) : HasFrame soh (b ++ cs.flatten) := by
  induction cs generalizing b with
  | nil => exact absurd rfl h
  | cons c cs ih =>
    rw [List.flatten_cons, ← List.append_assoc]
    obtain ⟨ms, u, hd⟩ := (extract_lawful soh).exists_drains (b ++ c)
    rw [feedAll, (extract_lawful soh).drain_eq hd] at h
    cases hd with
    | take hb _ => exact ((extract_isSome_iff (by decide)).mp ⟨_, _, hb⟩).append_right
    | refuse _ =>
      obtain ⟨junk, hjunk⟩ := extract_suffix soh (b ++ c)
      have hframe := (ih (by simpa using h)).append (a := junk)
      rwa [← List.append_assoc, hjunk] at hframe

/-- All ways to cut a stream give the same messages exactly when it holds no frame at all;
two ways that lose no start always agree. -/
theorem extractedMessages_independent_iff (s : Bytes) :
    ((∀ cs₁ cs₂, Cuts cs₁ s → Cuts cs₂ s → extractedMessages cs₁ = extractedMessages cs₂) ↔
        ¬ HasFrame soh s) ∧
      ∀ cs₁ cs₂, Cuts cs₁ s → Cuts cs₂ s → KeepsStarts [] cs₁ → KeepsStarts [] cs₂ →
        extractedMessages cs₁ = extractedMessages cs₂ := by
  refine ⟨⟨fun h hframe => ?_, fun h cs₁ cs₂ h₁ h₂ => ?_⟩, fun cs₁ cs₂ h₁ h₂ k₁ k₂ => ?_⟩
  · have hs : s ≠ [] := by
      obtain ⟨junk, mid, tail, rfl, _⟩ := hframe
      simp [ascii]
    have hwhole : Cuts [s] s := ⟨by simp, by simpa using hs.symm⟩
    have hbytes : Cuts (s.map ([·])) s :=
      ⟨by rw [← List.flatMap_def, List.flatMap_singleton'], by simp⟩
    have heq := h _ _ hwhole hbytes
    obtain ⟨m, r, hext⟩ := (extract_isSome_iff (by decide)).mpr hframe
    rw [extractedMessages_singletons, extractedMessages, feedAll, List.nil_append,
      (extract_lawful soh).drain_of_take hext] at heq
    cases heq
  · have hnone (cs : List Bytes) (hcs : Cuts cs s) : extractedMessages cs = [] := by
      by_contra hne
      have hframe := hasFrame_of_feedAll hne
      rw [List.nil_append, hcs.1] at hframe
      exact h hframe
    rw [hnone cs₁ h₁, hnone cs₂ h₂]
  · rw [extractedMessages_eq_of_keepsStarts k₁, extractedMessages_eq_of_keepsStarts k₂, h₁.1, h₂.1]

theorem extractedMessages_split_begin :
    ¬ ∀ (s : Bytes) (cs₁ cs₂ : List Bytes), Cuts cs₁ s → Cuts cs₂ s →
      extractedMessages cs₁ = extractedMessages cs₂ := by
  intro h
  have := h (ascii "8=F\x0110=000\x01") [ascii "8=F\x0110=000\x01"]
    [ascii "8", ascii "=F\x0110=000\x01"] ⟨by decide, by decide⟩ ⟨by decide, by decide⟩
  exact absurd this (by decide)

end Fixure
