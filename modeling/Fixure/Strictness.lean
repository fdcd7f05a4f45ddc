import Fixure.Detection

/-!
# What the parser leaves open

Three habits of the parser reach its callers. The field limit is tested before the filler is
looked at, so a full message stands no filler. A framing tag may come again inside the body,
where lookups find the first occurrence and the checks use the last. A number is read up to
the first character that is not a digit, and only for tags is the rest of the text looked at.
Each is stated on the text, cut into a layout, as the exact condition under which callers
see what was checked.
-/

namespace Fixure
open Decimal

/-! ### The separator `=` -/

theorem filler_of_parseField_equals {raw : Bytes} {c : Cursor}
    (h : parseField raw equals c = .ok none) :
    ∀ b ∈ raw.drop c.pos, b = 13 ∨ b = 10 ∨ b = 32 := by
  rw [parseField] at h
  cases heq : Search.findFrom [equals] raw c.pos with
  | none =>
    simp only [heq] at h
    split_ifs at h with hall
    rw [Search.findFrom_eq_none_iff, List.singleton_infix_iff] at heq
    intro b hb
    have hfiller := List.all_eq_true.mp hall b hb
    have hne : b ≠ equals := fun h => heq (h ▸ hb)
    simpa [isFiller, hne, or_assoc] using hfiller
  | some eq =>
    simp only [heq] at h
    cases hsoh : Search.findFrom [equals] raw eq with
    | none =>
      simp only [hsoh] at h
      cases h
    | some soh =>
      simp only [hsoh] at h
      split at h
      · split_ifs at h
        cases h
      · cases h

theorem findFrom_equals_again {raw : Bytes} {pos eq : ℕ}
    (h : Search.findFrom [equals] raw pos = some eq) :
    Search.findFrom [equals] raw eq = some eq := by
  obtain ⟨i, hi, rfl⟩ := Option.map_eq_some_iff.mp h
  obtain ⟨t, b, hdrop, rfl, _⟩ := Search.find_singleton_eq_some_split hi
  have hdrop' : raw.drop (pos + t.length) = equals :: b := by
    rw [← List.drop_drop, hdrop, List.drop_left]
  have hhere : Search.find [equals] (equals :: b) = some 0 := Search.find_prefix b
  rw [Search.findFrom, hdrop', hhere]
  rfl

theorem value_of_parseField_equals {raw : Bytes} {c c' : Cursor}
    (h : parseField raw equals c = .ok (some c')) :
    (c'.fields.getLastD {}).value <+: raw.drop c'.pos := by
  rw [parseField] at h
  cases heq : Search.findFrom [equals] raw c.pos with
  | none =>
    simp only [heq] at h
    split_ifs at h
    cases h
  | some eq =>
    simp only [heq, findFrom_equals_again heq] at h
    split at h
    next tag _ =>
      split_ifs at h
      obtain rfl := Option.some.inj (Except.ok.inj h)
      simp only [Cursor.push, List.getLastD_concat, substr]
      exact List.take_prefix _ _
    next => cases h

theorem value_eq_nil_of_done {raw : Bytes} {c : Cursor}
    (hc : (c.fields.getLastD {}).value <+: raw.drop c.pos) (hpos : ¬ c.pos < raw.length) :
    (c.fields.getLastD {}).value = [] := by
  rw [List.drop_eq_nil_of_le (not_lt.mp hpos)] at hc
  exact List.prefix_nil.mp hc

theorem parseLoop_equals {raw : Bytes} {slots : ℕ} {c c' : Cursor}
    (h : parseLoop raw equals slots c = .ok c')
    (hc : (c.fields.getLastD {}).value <+: raw.drop c.pos) :
    ∀ b ∈ (c'.fields.getLastD {}).value, b = 13 ∨ b = 10 ∨ b = 32 := by
  induction slots generalizing c with
  | zero =>
    rw [parseLoop] at h
    split_ifs at h with hpos
    obtain rfl := Except.ok.inj h
    rw [value_eq_nil_of_done hc hpos]
    exact fun b hb => absurd hb List.not_mem_nil
  | succ slots ih =>
    rw [parseLoop] at h
    split_ifs at h with hpos
    · cases hf : parseField raw equals c with
      | error e =>
        simp only [hf] at h
        cases h
      | ok next =>
        cases next with
        | none =>
          simp only [hf] at h
          obtain rfl := Except.ok.inj h
          intro b hb
          exact filler_of_parseField_equals hf b (hc.subset hb)
        | some next =>
          simp only [hf] at h
          exact ih h (value_of_parseField_equals hf)
    · obtain rfl := Except.ok.inj h
      rw [value_eq_nil_of_done hc hpos]
      exact fun b hb => absurd hb List.not_mem_nil

theorem verify_checkSum {msg msg' : FixMessage} {c : Cursor} (h : verify msg c = .ok msg') :
    ∃ n, Leads (msg.fields.getLastD {}).value n := by
  rw [verify] at h
  split_ifs at h
  cases hlen : msg.getInt 9 with
  | none =>
    simp only [hlen] at h
    cases h
  | some n =>
    simp only [hlen] at h
    split at h
    · split_ifs at h
      split at h
      · cases h
      · split at h
        next m rest hm => exact ⟨m.toInt, exists_fromChars_iff.mp ⟨rest, hm⟩⟩
        next => cases h
    · cases h

theorem separator_ne_equals {raw : Bytes} {separator : UInt8} {msg : FixMessage}
    (h : FixMessage.parse raw separator = .ok msg) : separator ≠ equals := by
  rintro rfl
  rw [FixMessage.parse] at h
  split_ifs at h
  cases hloop : parseLoop raw equals maxFields {} with
  | error e =>
    simp only [hloop] at h
    cases h
  | ok c =>
    simp only [hloop] at h
    have hfiller := parseLoop_equals hloop List.nil_prefix
    obtain ⟨n, lit, rest, hvalue, hspells, _⟩ := verify_checkSum h
    cases lit with
    | nil => exact hspells.ne_nil rfl
    | cons b lit =>
      have hb := hfiller b (hvalue ▸ List.mem_cons_self)
      rcases hspells.mem List.mem_cons_self with rfl | hdigit
      · exact absurd hb (by decide)
      · rcases hb with rfl | rfl | rfl
        · exact absurd hdigit (by decide)
        · exact absurd hdigit (by decide)
        · exact absurd hdigit (by decide)

/-! ### Filler behind a message -/

/-- The text has as many fields as the field array has places. -/
def FullText (separator : UInt8) (raw : Bytes) : Prop :=
  ∃ l : Layout separator, l.Accepted ∧ l.text = raw ∧ l.tokens.length = maxFields

namespace Layout
variable {separator : UInt8}

def refill (l : Layout separator) (w : Bytes) : Layout separator :=
  { l with filler := l.filler ++ w }

theorem refill_text (l : Layout separator) (w : Bytes) : (l.refill w).text = l.text ++ w := by
  simp [refill, text, covered]

theorem Accepted.refill {l : Layout separator} (hl : l.Accepted) {w : Bytes}
    (hw : ∀ b ∈ w, b = separator ∨ b = 13 ∨ b = 10 ∨ b = 32)
    (hfull : l.tokens.length = maxFields → w = []) : (l.refill w).Accepted := by
  refine ⟨hl.fits, ?_, ?_, hl.beginString_tag, hl.bodyLength_tag, hl.checkSum_tag,
    hl.bodyLength_value, hl.checkSum_value⟩
  · intro b hb
    rcases List.mem_append.mp hb with hb | hb
    · exact hl.filler_mem b hb
    · exact hw b hb
  · intro h
    exact List.append_eq_nil_iff.mpr ⟨hl.filler_nil h, hfull h⟩

theorem Accepted.tokens_unique {l l' : Layout separator} (hl : l.Accepted) (hl' : l'.Accepted)
    (hsep : separator ≠ equals) (h : l.text = l'.text) :
    l.tokens = l'.tokens ∧ l.filler = l'.filler := by
  rw [text_eq_joined, text_eq_joined] at h
  exact joined_append_inj h (hl.free hsep) (hl'.free hsep)

theorem Accepted.append_error {l : Layout separator} (hl : l.Accepted)
    (hfull : l.tokens.length = maxFields) (hsep : separator ≠ equals) {w : Bytes}
    (hw : equals ∉ w) (hne : w ≠ []) :
    ∃ e, FixMessage.parse (l.text ++ w) separator = .error e := by
  apply exists_error _ hsep
  intro l' hl' htext
  have hfree : equals ∉ l.filler ++ w := by
    rw [List.mem_append]
    exact not_or.mpr ⟨hl.free hsep, hw⟩
  rw [text_eq_joined, text_eq_joined, List.append_assoc] at htext
  obtain ⟨htokens, hfiller⟩ := joined_append_inj htext (hl'.free hsep) hfree
  rw [hl'.filler_nil (htokens ▸ hfull)] at hfiller
  exact hne (List.append_eq_nil_iff.mp hfiller.symm).2

end Layout

/-- Filler behind an accepted text changes nothing, unless the text is full. -/
theorem parse_append_filler_iff {raw w : Bytes} {separator : UInt8} {msg : FixMessage}
    (h : FixMessage.parse raw separator = .ok msg)
    (hw : ∀ b ∈ w, b = separator ∨ b = 13 ∨ b = 10 ∨ b = 32) :
    (∃ msg', FixMessage.parse (raw ++ w) separator = .ok msg' ∧ msg'.fields = msg.fields) ↔
      ¬ FullText separator raw ∨ w = [] := by
  have hsep := separator_ne_equals h
  have hfree : equals ∉ w := by
    intro hm
    rcases hw equals hm with h | h | h | h
    · exact hsep h.symm
    · exact absurd h (by decide)
    · exact absurd h (by decide)
    · exact absurd h (by decide)
  obtain ⟨l, hl, rfl, rfl⟩ := (Layout.parse_eq_ok_iff_accepted hsep).mp h
  constructor
  · intro ⟨msg', hmsg', _⟩
    by_contra hcond
    rw [not_or, not_not] at hcond
    obtain ⟨⟨l', hl', htext, hfull⟩, hne⟩ := hcond
    obtain ⟨e, he⟩ := hl'.append_error hfull hsep hfree hne
    rw [htext, hmsg'] at he
    cases he
  · intro hcond
    have hfull : l.tokens.length = maxFields → w = [] :=
      fun hlength => hcond.resolve_left fun hnot => hnot ⟨l, hl, rfl, hlength⟩
    exact ⟨_, (Layout.parse_eq_ok_iff_accepted hsep).mpr
      ⟨l.refill w, hl.refill hw hfull, l.refill_text w, rfl⟩, rfl⟩

theorem parse_append_filler_heartbeat :
    (∃ msg', FixMessage.parse (ascii "8=F|9=5|35=0|10=175|" ++ ascii "\r\n") 124 = .ok msg' ∧
        msg'.fields = [⟨8, ascii "F"⟩, ⟨9, ascii "5"⟩, ⟨35, ascii "0"⟩, ⟨10, ascii "175"⟩]) ↔
      ¬ FullText 124 (ascii "8=F|9=5|35=0|10=175|") ∨ ascii "\r\n" = [] :=
  @parse_append_filler_iff _ _ _ ⟨ascii "8=F|9=5|35=0|10=175|",
    [⟨8, ascii "F"⟩, ⟨9, ascii "5"⟩, ⟨35, ascii "0"⟩, ⟨10, ascii "175"⟩]⟩
    (by decide +kernel) (by decide +kernel)

/-- A message of 256 fields, and one separator behind it. -/
theorem parse_append_filler_full :
    ∃ msg, FixMessage.parse (wire 124 ⟨8, []⟩ (List.replicate 253 ⟨1, []⟩)) 124 = .ok msg ∧
      ¬ ∃ msg', FixMessage.parse (wire 124 ⟨8, []⟩ (List.replicate 253 ⟨1, []⟩) ++ [124]) 124 =
        .ok msg' ∧ msg'.fields = msg.fields := by
  have hcount : (bodyFields (List.replicate 253 ⟨1, []⟩)).length ≤ 253 :=
    (List.length_filter_le _ _).trans_eq List.length_replicate
  have hparse := @parse_wire 124 ⟨8, []⟩ (List.replicate 253 ⟨1, []⟩) (by decide) (by decide)
    (by decide +kernel) hcount (by decide +kernel)
  refine ⟨_, hparse, ?_⟩
  obtain ⟨l, hl, htext, hmsg⟩ := (Layout.parse_eq_ok_iff_accepted (by decide)).mp hparse
  have hfields := congrArg (fun m => m.fields.length) hmsg
  simp only [List.length_map] at hfields
  have hfull : l.tokens.length = maxFields := hfields.symm.trans (by decide +kernel)
  obtain ⟨e, he⟩ := hl.append_error hfull (by decide) (w := [124]) (by decide) (by decide)
  intro ⟨msg', hmsg', _⟩
  rw [← htext, he] at hmsg'
  cases hmsg'

/-! ### Framing tags in the body -/

/-- The framing tags stand in their places and nowhere else, and the lookups of the checksum
and of the length find the fields that were checked. -/
structure FramedOnce (msg : FixMessage) : Prop where
  places : ∃ first second body last, msg.fields = first :: second :: (body ++ [last]) ∧
    first.tag = 8 ∧ second.tag = 9 ∧ last.tag = 10 ∧ ∀ f ∈ body, isFraming f.tag = false
  checkSum : msg.getField 10 = some (msg.fields.getLastD {}).value
  bodyLength : ∃ f ∈ msg.fields[1]?, msg.getField 9 = some f.value

def RepeatsFraming (separator : UInt8) (raw : Bytes) : Prop :=
  ∃ l : Layout separator, l.Accepted ∧ l.text = raw ∧ ∃ t ∈ l.body, isFraming t.tag = true

theorem framedOnce_of_body {msg : FixMessage} {first second last : Field} {body : List Field}
    (hfields : msg.fields = first :: second :: (body ++ [last])) (h8 : first.tag = 8)
    (h9 : second.tag = 9) (h10 : last.tag = 10) (hbody : ∀ f ∈ body, isFraming f.tag = false) :
    FramedOnce msg := by
  have hlast : (msg.fields.getLastD {}) = last := by
    rw [hfields, ← List.cons_append, ← List.cons_append, List.getLastD_concat]
  have hnone : body.find? (fun f => f.tag = 10) = none := by
    rw [List.find?_eq_none]
    intro f hf h
    have := hbody f hf
    rw [of_decide_eq_true h] at this
    exact absurd this (by decide)
  refine ⟨⟨first, second, body, last, hfields, h8, h9, h10, hbody⟩, ?_, second, ?_, ?_⟩
  · rw [hlast, FixMessage.getField, hfields]
    simp [h8, h9, h10, hnone, List.find?_append]
  · simp [hfields]
  · rw [FixMessage.getField, hfields]
    simp [h8, h9]

/-- Callers read what was validated exactly when no framing tag comes again. -/
theorem parse_framedOnce_iff {raw : Bytes} {separator : UInt8} {msg : FixMessage}
    (h : FixMessage.parse raw separator = .ok msg) :
    FramedOnce msg ↔ ¬ RepeatsFraming separator raw := by
  have hsep := separator_ne_equals h
  obtain ⟨l, hl, rfl, rfl⟩ := (Layout.parse_eq_ok_iff_accepted hsep).mp h
  have hfields : l.tokens.map Token.field = l.beginString.field :: l.bodyLength.field ::
      (l.body.map Token.field ++ [l.checkSum.field]) := by
    simp [Layout.tokens]
  constructor
  · intro honce hrepeat
    obtain ⟨first, second, body, last, hsplit, _, _, _, hbody⟩ := honce.1
    obtain ⟨l', hl', htext, t, ht, htag⟩ := hrepeat
    have htokens := (hl.tokens_unique hl' hsep htext.symm).1
    have hfields' : l.tokens.map Token.field = l'.beginString.field :: l'.bodyLength.field ::
        (l'.body.map Token.field ++ [l'.checkSum.field]) := by
      rw [htokens]
      simp [Layout.tokens]
    obtain ⟨_, hrest⟩ := List.cons.inj (hsplit.symm.trans hfields')
    obtain ⟨_, hrest⟩ := List.cons.inj hrest
    obtain ⟨rfl, _⟩ := List.append_inj' hrest rfl
    have hframing := hbody t.field (List.mem_map_of_mem ht)
    rw [show t.field.tag = t.tag from rfl, htag] at hframing
    cases hframing
  · intro hrepeat
    apply framedOnce_of_body hfields hl.beginString_tag hl.bodyLength_tag hl.checkSum_tag
    intro f hf
    obtain ⟨t, ht, rfl⟩ := List.mem_map.mp hf
    by_contra hframing
    exact hrepeat ⟨l, hl, rfl, t, ht, Bool.not_eq_false _ ▸ hframing⟩

theorem parse_framedOnce_heartbeat :
    FramedOnce ⟨ascii "8=F|9=5|35=0|10=175|",
        [⟨8, ascii "F"⟩, ⟨9, ascii "5"⟩, ⟨35, ascii "0"⟩, ⟨10, ascii "175"⟩]⟩ ↔
      ¬ RepeatsFraming 124 (ascii "8=F|9=5|35=0|10=175|") :=
  parse_framedOnce_iff (by decide +kernel)

/-- A second `10=` inside the body: the lookup finds it, the check does not. -/
theorem parse_framedOnce_repeated :
    ∃ msg, FixMessage.parse (ascii "8=F|9=12|35=0|10=abc|10=029|") 124 = .ok msg ∧
      msg.getField 10 = some (ascii "abc") ∧ ¬ FramedOnce msg := by
  refine ⟨⟨ascii "8=F|9=12|35=0|10=abc|10=029|", [⟨8, ascii "F"⟩, ⟨9, ascii "12"⟩,
    ⟨35, ascii "0"⟩, ⟨10, ascii "abc"⟩, ⟨10, ascii "029"⟩]⟩, by decide +kernel, by decide, ?_⟩
  intro h
  exact absurd h.checkSum (by decide)

/-! ### Text behind a number -/

/-- A number with more text behind it. -/
def LooseNumber (text : Bytes) : Prop := ∃ n rest, fromChars text = .parsed n rest ∧ rest ≠ []

/-- Every number that the parser or a lookup reads is the whole value of its field. -/
structure NumbersWhole (msg : FixMessage) : Prop where
  checkSum : ∃ n, Spells (msg.fields.getLastD {}).value n
  bodyLength : ∃ f ∈ msg.fields[1]?, ∃ n, Spells f.value n
  getInt : ∀ tag n, msg.getInt tag = some n →
    ∃ value, msg.getField tag = some value ∧ Spells value n.toInt

/-- A loose number stands in the last field or in a field that is the first with its tag. -/
def HoldsLooseNumber (separator : UInt8) (raw : Bytes) : Prop :=
  ∃ l : Layout separator, l.Accepted ∧ l.text = raw ∧
    (LooseNumber l.checkSum.value ∨ ∃ ts t us, l.tokens = ts ++ t :: us ∧
      (∀ u ∈ ts, u.tag ≠ t.tag) ∧ LooseNumber t.value)

theorem not_spells_of_looseNumber {text : Bytes} (h : LooseNumber text) (n : ℤ) :
    ¬ Spells text n := by
  intro hspells
  obtain ⟨m, rest, hparsed, hrest⟩ := h
  have hread : readInt text = some (n, []) :=
    readInt_eq_some_iff.mpr ⟨text, (List.append_nil text).symm, hspells, by simp [NoDigitAhead]⟩
  rw [fromChars, hread] at hparsed
  simp only at hparsed
  split_ifs at hparsed
  obtain ⟨_, hnil⟩ := FromChars.parsed.inj hparsed
  exact hrest hnil.symm

theorem spells_of_leads {text : Bytes} {n : Int32} (h : Leads text n.toInt)
    (hloose : ¬ LooseNumber text) : Spells text n.toInt := by
  obtain ⟨rest, hparsed⟩ := exists_fromChars_iff.mpr h
  obtain ⟨lit, rfl, hspells, _⟩ := fromChars_eq_parsed_iff.mp hparsed
  have hnil : rest = [] := by_contra fun hne => hloose ⟨n, rest, hparsed, hne⟩
  rwa [hnil, List.append_nil]

theorem getField_tokens_iff {separator : UInt8} {ts : List (Token separator)} {raw : Bytes}
    {tag : Int32} {value : Bytes} :
    FixMessage.getField ⟨raw, ts.map Token.field⟩ tag = some value ↔
      ∃ pre t post, ts = pre ++ t :: post ∧ (∀ u ∈ pre, u.tag ≠ tag) ∧ t.tag = tag ∧
        t.value = value := by
  simp only [FixMessage.getField, List.find?_map, Option.map_map, Option.map_eq_some_iff,
    List.find?_eq_some_iff_append]
  constructor
  · intro hfound
    obtain ⟨t, ⟨htag, pre, post, hts, hpre⟩, hvalue⟩ := hfound
    refine ⟨pre, t, post, hts, ?_, of_decide_eq_true htag, hvalue⟩
    intro u hu
    exact of_decide_eq_false (Bool.not_eq_true' _ ▸ hpre u hu)
  · intro hsplit
    obtain ⟨pre, t, post, hts, hpre, htag, hvalue⟩ := hsplit
    refine ⟨t, ⟨decide_eq_true htag, pre, post, hts, ?_⟩, hvalue⟩
    intro u hu
    exact (Bool.not_eq_true' _).mpr (decide_eq_false (hpre u hu))

/-- Numbers are read whole exactly when the text holds no loose one where they are read. -/
theorem parse_numbersWhole_iff {raw : Bytes} {separator : UInt8} {msg : FixMessage}
    (h : FixMessage.parse raw separator = .ok msg) :
    NumbersWhole msg ↔ ¬ HoldsLooseNumber separator raw := by
  have hsep := separator_ne_equals h
  obtain ⟨l, hl, rfl, rfl⟩ := (Layout.parse_eq_ok_iff_accepted hsep).mp h
  constructor
  · intro ⟨⟨n, hn⟩, _, hints⟩ ⟨l', hl', htext, hloose⟩
    have htokens := (hl.tokens_unique hl' hsep htext.symm).1
    rcases hloose with hloose | ⟨ts, t, us, hsplit, hfirst, hloose⟩
    · rw [htokens, Layout.tokens_fields_getLastD] at hn
      exact not_spells_of_looseNumber hloose n hn
    · have hfield : FixMessage.getField ⟨l.text, l.tokens.map Token.field⟩ t.tag =
          some t.value :=
        getField_tokens_iff.mpr ⟨ts, t, us, htokens.trans hsplit, hfirst, rfl, rfl⟩
      obtain ⟨m, rest, hparsed, _⟩ := id hloose
      have hint := getInt_eq_some_iff.mpr ⟨_, hfield, exists_fromChars_iff.mp ⟨rest, hparsed⟩⟩
      obtain ⟨value, hvalue, hspells⟩ := hints t.tag m hint
      rw [hfield] at hvalue
      obtain rfl := Option.some.inj hvalue
      exact not_spells_of_looseNumber hloose _ hspells
  · intro hwhole
    have hfirst : ∀ {ts t us}, l.tokens = ts ++ t :: us → (∀ u ∈ ts, u.tag ≠ t.tag) →
        ¬ LooseNumber t.value := by
      intro ts t us hsplit hts hloose
      exact hwhole ⟨l, hl, rfl, Or.inr ⟨ts, t, us, hsplit, hts, hloose⟩⟩
    refine ⟨?_, ⟨l.bodyLength.field, by simp [Layout.tokens], ?_⟩, ?_⟩
    · rw [Layout.tokens_fields_getLastD]
      have hlt : (l.covered.map UInt8.toNat).sum % 256 < 256 := Nat.mod_lt _ (by decide)
      obtain ⟨rest, hparsed⟩ := exists_fromChars_of_leads hl.checkSum_value (by omega) (by omega)
      refine ⟨_, spells_of_leads (exists_fromChars_iff.mp ⟨rest, hparsed⟩) ?_⟩
      exact fun hloose => hwhole ⟨l, hl, rfl, Or.inl hloose⟩
    · have hother : ∀ u ∈ [l.beginString], u.tag ≠ l.bodyLength.tag := by
        intro u hu
        rw [List.mem_singleton.mp hu, hl.beginString_tag, hl.bodyLength_tag]
        decide
      exact ⟨_, spells_of_leads hl.bodyLength_value (hfirst rfl hother)⟩
    · intro tag n hn
      obtain ⟨value, hvalue, hleads⟩ := getInt_eq_some_iff.mp hn
      obtain ⟨pre, t, post, hsplit, hpre, rfl, rfl⟩ := getField_tokens_iff.mp hvalue
      exact ⟨t.value, hvalue, spells_of_leads hleads (hfirst hsplit hpre)⟩

theorem parse_numbersWhole_heartbeat :
    NumbersWhole ⟨ascii "8=F|9=5|35=0|10=175|",
        [⟨8, ascii "F"⟩, ⟨9, ascii "5"⟩, ⟨35, ascii "0"⟩, ⟨10, ascii "175"⟩]⟩ ↔
      ¬ HoldsLooseNumber 124 (ascii "8=F|9=5|35=0|10=175|") :=
  parse_numbersWhole_iff (by decide +kernel)

/-- The sequence number `2x` is read as 2. -/
theorem parse_numbersWhole_loose :
    ∃ msg, FixMessage.parse (ascii "8=F|9=6|34=2x|10=041|") 124 = .ok msg ∧
      msg.getInt 34 = some 2 ∧ msg.getField 34 = some (ascii "2x") ∧ ¬ NumbersWhole msg := by
  refine ⟨⟨ascii "8=F|9=6|34=2x|10=041|", [⟨8, ascii "F"⟩, ⟨9, ascii "6"⟩, ⟨34, ascii "2x"⟩,
    ⟨10, ascii "041"⟩]⟩, by decide +kernel, by decide, by decide, ?_⟩
  intro h
  obtain ⟨value, hvalue, hspells⟩ := h.getInt 34 2 (by decide)
  obtain rfl := Option.some.inj hvalue
  exact not_spells_of_looseNumber ⟨2, ascii "x", by decide, by decide⟩ _ hspells

end Fixure
