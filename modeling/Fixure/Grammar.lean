import Fixure.Message

/-!
# The language accepted by the parser

A `Layout` is a text cut into its fields: the three fields with a fixed place, the
body between them and the filler behind. `Layout.Valid` states the conditions on
tags, length and checksum. The parser accepts the texts of the valid layouts and
reports the fields of the layout; the proof follows the parsing loop with `advance`,
the loop variables after a list of fields.
-/

namespace Fixure
open Search Decimal

/-! ### Fields as text -/

/-- One `tag=value` of a text. The tag text spells the tag and the value does not hold the
separator, so a token can be read back from its text. -/
structure Token (separator : UInt8) where
  tagText : Bytes
  tag : Int32
  value : Bytes
  spells : Spells tagText tag.toInt
  free : separator ∉ value

namespace Token
variable {separator : UInt8}

def field (t : Token separator) : Field := ⟨t.tag, t.value⟩

def text (t : Token separator) : Bytes := t.tagText ++ equals :: (t.value ++ [separator])

theorem text_ne_nil (t : Token separator) : t.text ≠ [] := by
  simp [text]

theorem text_length (t : Token separator) :
    t.text.length = t.tagText.length + 1 + t.value.length + 1 := by
  simp [text]
  omega

end Token

section Loop
variable {separator : UInt8} {raw : Bytes}

def joined (ts : List (Token separator)) : Bytes := ts.flatMap Token.text

theorem joined_cons (t : Token separator) (ts : List (Token separator)) :
    joined (t :: ts) = t.text ++ joined ts := rfl

def Cursor.take (c : Cursor) (t : Token separator) : Cursor :=
  c.push t.tag t.value (c.pos + (t.tagText.length + 1 + t.value.length))

def advance (c : Cursor) (ts : List (Token separator)) : Cursor := ts.foldl Cursor.take c

def HeaderOk (k : ℕ) (tag : Int32) : Prop := (k = 0 → tag = 8) ∧ (k = 1 → tag = 9)

def HeadersOk : ℕ → List (Token separator) → Prop
  | _, [] => True
  | k, t :: ts => HeaderOk k t.tag ∧ HeadersOk (k + 1) ts

theorem take_fields (c : Cursor) (t : Token separator) :
    (c.take t).fields = c.fields ++ [t.field] := rfl

theorem take_pos (c : Cursor) (t : Token separator) :
    (c.take t).pos = c.pos + t.text.length := by
  rw [Token.text_length]
  rfl

theorem advance_fields (c : Cursor) (ts : List (Token separator)) :
    (advance c ts).fields = c.fields ++ ts.map Token.field := by
  induction ts generalizing c with
  | nil => simp [advance]
  | cons t ts ih =>
    have h := ih (c.take t)
    rw [take_fields, List.append_assoc] at h
    exact h

theorem advance_pos (c : Cursor) (ts : List (Token separator)) :
    (advance c ts).pos = c.pos + (joined ts).length := by
  induction ts generalizing c with
  | nil => simp [advance, joined]
  | cons t ts ih =>
    have h := ih (c.take t)
    rw [take_pos] at h
    rw [joined_cons, List.length_append, ← Nat.add_assoc]
    exact h

theorem advance_bodyStartPos (c : Cursor) (hc : 2 ≤ c.fields.length)
    (ts : List (Token separator)) : (advance c ts).bodyStartPos = c.bodyStartPos := by
  induction ts generalizing c with
  | nil => rfl
  | cons t ts ih =>
    have hlen : 2 ≤ (c.take t).fields.length := by
      rw [take_fields]
      simp
      omega
    have h : (c.take t).bodyStartPos = c.bodyStartPos := by
      simp only [Cursor.take, Cursor.push]
      rw [if_neg (by omega)]
    exact (ih (c.take t) hlen).trans h

theorem isFiller_equals (hsep : separator ≠ equals) : isFiller separator equals = false := by
  have hne : equals ≠ separator := hsep.symm
  have h13 : equals ≠ (13 : UInt8) := by decide
  have h10 : equals ≠ (10 : UInt8) := by decide
  have h32 : equals ≠ (32 : UInt8) := by decide
  simp [isFiller, hne, h13, h10, h32]

theorem scan_token (hsep : separator ≠ equals) {pos : ℕ} {t v rest : Bytes}
    (ht : equals ∉ t) (hv : separator ∉ v)
    (hdrop : raw.drop pos = t ++ equals :: (v ++ separator :: rest)) :
    findFrom [equals] raw pos = some (pos + t.length) ∧
      findFrom [separator] raw (pos + t.length) = some (pos + (t.length + 1 + v.length)) ∧
      substr raw pos (pos + t.length - pos) = t ∧
      substr raw (pos + t.length + 1)
        (sizeSub (pos + (t.length + 1 + v.length)) (pos + t.length + 1)) = v := by
  have hdrop' : raw.drop (pos + t.length) = equals :: (v ++ separator :: rest) := by
    rw [← List.drop_drop, hdrop, List.drop_left]
  have hdrop'' : raw.drop (pos + t.length + 1) = v ++ separator :: rest := by
    rw [← List.drop_drop, hdrop', List.drop_one, List.tail_cons]
  have hfree : separator ∉ equals :: v := by
    simp [hsep, hv]
  refine ⟨?_, ?_, ?_, ?_⟩
  · rw [findFrom, hdrop, find_singleton_append ht, Option.map_some]
  · rw [findFrom, hdrop', ← List.cons_append, find_singleton_append hfree, Option.map_some,
      List.length_cons]
    congr 1
    omega
  · rw [substr, hdrop, Nat.add_sub_cancel_left, List.take_left]
  · rw [substr, sizeSub, if_pos (by omega), hdrop'',
      show pos + (t.length + 1 + v.length) - (pos + t.length + 1) = v.length by omega,
      List.take_left]

theorem scan_split {pos eq soh : ℕ} (heq : findFrom [equals] raw pos = some eq)
    (hsoh : findFrom [separator] raw eq = some soh) (hsep : separator ≠ equals) :
    ∃ t v rest, raw.drop pos = t ++ equals :: (v ++ separator :: rest) ∧
      equals ∉ t ∧ separator ∉ v ∧ eq = pos + t.length ∧
      soh = pos + (t.length + 1 + v.length) := by
  obtain ⟨i, hi, rfl⟩ := Option.map_eq_some_iff.mp heq
  obtain ⟨t, b, hdrop, rfl, ht⟩ := find_singleton_eq_some_split hi
  obtain ⟨j, hj, rfl⟩ := Option.map_eq_some_iff.mp hsoh
  rw [← List.drop_drop, hdrop, List.drop_left] at hj
  obtain ⟨v, rest, hb, rfl, hv⟩ := find_singleton_eq_some_split hj
  cases v with
  | nil => exact absurd (List.cons.inj hb).1.symm hsep
  | cons d v =>
    obtain ⟨rfl, rfl⟩ := List.cons.inj hb
    refine ⟨t, v, rest, hdrop, ht, fun h => hv (List.mem_cons_of_mem _ h), rfl, ?_⟩
    simp
    omega

theorem parseField_eq_some_iff (hsep : separator ≠ equals) {c c' : Cursor} :
    parseField raw separator c = .ok (some c') ↔
      ∃ (t : Token separator) (rest : Bytes), raw.drop c.pos = t.text ++ rest ∧
        HeaderOk c.fields.length t.tag ∧ c' = c.take t := by
  constructor
  · intro h
    rw [parseField] at h
    cases heq : findFrom [equals] raw c.pos with
    | none =>
      simp only [heq] at h
      split_ifs at h
      cases h
    | some eq =>
      simp only [heq] at h
      cases hsoh : findFrom [separator] raw eq with
      | none => simp [hsoh] at h
      | some soh =>
        obtain ⟨t, v, rest, hdrop, ht, hv, rfl, rfl⟩ := scan_split heq hsoh hsep
        obtain ⟨_, _, htag, hval⟩ := scan_token hsep ht hv hdrop
        simp only [hsoh, htag, hval] at h
        cases hfc : fromChars t with
        | parsed tag rest' =>
          cases rest' with
          | cons d rest' => simp [hfc] at h
          | nil =>
            obtain ⟨lit, hlit, hspell, _⟩ := fromChars_eq_parsed_iff.mp hfc
            rw [List.append_nil] at hlit
            subst hlit
            simp only [hfc] at h
            split_ifs at h with h0 h1
            obtain rfl := Option.some.inj (Except.ok.inj h)
            refine ⟨⟨t, tag, v, hspell, hv⟩, rest, by simp [Token.text, hdrop], ?_, rfl⟩
            exact ⟨fun hk => by_contra fun ht => h0 ⟨hk, ht⟩,
              fun hk => by_contra fun ht => h1 ⟨hk, ht⟩⟩
        | invalidArgument => simp [hfc] at h
        | resultOutOfRange => simp [hfc] at h
  · rintro ⟨t, rest, hdrop, ⟨h8, h9⟩, rfl⟩
    have hdrop : raw.drop c.pos =
        t.tagText ++ equals :: (t.value ++ separator :: rest) := by
      simpa [Token.text] using hdrop
    obtain ⟨heq, hsoh, htag, hval⟩ :=
      scan_token hsep (equals_notMem_of_spells t.spells) t.free hdrop
    have hfc : fromChars t.tagText = .parsed t.tag [] :=
      fromChars_eq_parsed_iff.mpr ⟨t.tagText, by simp, t.spells, by simp [NoDigitAhead]⟩
    rw [parseField]
    simp only [heq, hsoh, htag, hval, hfc]
    rw [if_neg (fun h => h.2 (h8 h.1)), if_neg (fun h => h.2 (h9 h.1))]
    rfl

theorem parseField_eq_none_iff (hsep : separator ≠ equals) {c : Cursor} :
    parseField raw separator c = .ok none ↔
      (raw.drop c.pos).all (isFiller separator) = true := by
  rw [parseField]
  constructor
  · intro h
    cases heq : findFrom [equals] raw c.pos with
    | none =>
      simp only [heq] at h
      split_ifs at h with hall
      exact hall
    | some eq =>
      simp only [heq] at h
      cases hsoh : findFrom [separator] raw eq with
      | none => simp [hsoh] at h
      | some soh =>
        simp only [hsoh] at h
        split at h
        · split_ifs at h
          cases h
        · cases h
  · intro hall
    have heq : findFrom [equals] raw c.pos = none := by
      rw [findFrom_eq_none_iff, List.singleton_infix_iff]
      intro hm
      have := List.all_eq_true.mp hall _ hm
      simp [isFiller_equals hsep] at this
    simp [heq, hall]

/-- The loop splits the rest of the text into fields and a filler; the induction is on the
free places of the field array. -/
theorem parseLoop_eq_ok_iff (hsep : separator ≠ equals) (slots : ℕ) (c c' : Cursor) :
    parseLoop raw separator slots c = .ok c' ↔
      ∃ (ts : List (Token separator)) (filler : Bytes),
        raw.drop c.pos = joined ts ++ filler ∧ ts.length ≤ slots ∧
          filler.all (isFiller separator) = true ∧ (ts.length = slots → filler = []) ∧
          HeadersOk c.fields.length ts ∧ c' = advance c ts := by
  induction slots generalizing c with
  | zero =>
    rw [parseLoop]
    constructor
    · intro h
      split_ifs at h with hpos
      obtain rfl := Except.ok.inj h
      refine ⟨[], [], ?_, le_rfl, rfl, fun _ => rfl, trivial, rfl⟩
      exact List.drop_eq_nil_of_le (not_lt.mp hpos)
    · rintro ⟨ts, filler, hdrop, hlen, _, hfull, _, rfl⟩
      obtain rfl := List.length_eq_zero_iff.mp (Nat.le_zero.mp hlen)
      obtain rfl := hfull rfl
      rw [if_neg (not_lt.mpr (List.drop_eq_nil_iff.mp hdrop))]
      rfl
  | succ slots ih =>
    rw [parseLoop]
    by_cases hpos : c.pos < raw.length
    · rw [if_pos hpos]
      constructor
      · intro h
        cases hf : parseField raw separator c with
        | error e => simp [hf] at h
        | ok r =>
          cases r with
          | none =>
            simp only [hf] at h
            obtain rfl := Except.ok.inj h
            exact ⟨[], _, rfl, Nat.zero_le _, (parseField_eq_none_iff hsep).mp hf,
              fun h0 => absurd h0 (Nat.succ_ne_zero slots).symm, trivial, rfl⟩
          | some next =>
            simp only [hf] at h
            obtain ⟨t, rest, hdrop, hheader, rfl⟩ := (parseField_eq_some_iff hsep).mp hf
            obtain ⟨ts, filler, hdrop', hlen, hall, hfull, hheaders, rfl⟩ := (ih _).mp h
            have hrest : raw.drop (c.take t).pos = rest := by
              rw [take_pos, ← List.drop_drop, hdrop, List.drop_left]
            rw [take_fields, List.length_append] at hheaders
            refine ⟨t :: ts, filler, ?_, Nat.succ_le_succ hlen, hall,
              fun h0 => hfull (Nat.succ.inj h0), ⟨hheader, hheaders⟩, rfl⟩
            rw [hdrop, ← hrest, hdrop', joined_cons, List.append_assoc]
      · rintro ⟨ts, filler, hdrop, hlen, hall, hfull, hheaders, rfl⟩
        cases ts with
        | nil =>
          have hnone : parseField raw separator c = .ok none :=
            (parseField_eq_none_iff hsep).mpr (hdrop ▸ hall)
          simp only [hnone]
          rfl
        | cons t ts =>
          rw [joined_cons, List.append_assoc] at hdrop
          have hsome : parseField raw separator c = .ok (some (c.take t)) :=
            (parseField_eq_some_iff hsep).mpr ⟨t, _, hdrop, hheaders.1, rfl⟩
          simp only [hsome]
          refine (ih _).mpr ⟨ts, filler, ?_, Nat.le_of_succ_le_succ hlen, hall,
            fun h0 => hfull (congrArg Nat.succ h0), ?_, rfl⟩
          · rw [take_pos, ← List.drop_drop, hdrop, List.drop_left]
          · rw [take_fields, List.length_append]
            exact hheaders.2
    · rw [if_neg hpos]
      have hdrop : raw.drop c.pos = [] := List.drop_eq_nil_of_le (not_lt.mp hpos)
      constructor
      · intro h
        obtain rfl := Except.ok.inj h
        exact ⟨[], [], hdrop, Nat.zero_le _, rfl, fun _ => rfl, trivial, rfl⟩
      · rintro ⟨ts, filler, hsplit, _, _, _, _, rfl⟩
        cases ts with
        | nil => rfl
        | cons t ts =>
          rw [hdrop, joined_cons, List.append_assoc] at hsplit
          exact absurd (List.append_eq_nil_iff.mp hsplit.symm).1 t.text_ne_nil

end Loop

/-! ### Layouts -/

/-- A text cut at the places the FIX framing names. -/
structure Layout (separator : UInt8) where
  beginString : Token separator
  bodyLength : Token separator
  body : List (Token separator)
  checkSum : Token separator
  filler : Bytes

namespace Layout
variable {separator : UInt8}

def tokens (l : Layout separator) : List (Token separator) :=
  l.beginString :: l.bodyLength :: (l.body ++ [l.checkSum])

def covered (l : Layout separator) : Bytes :=
  l.beginString.text ++ (l.bodyLength.text ++ joined l.body)

def text (l : Layout separator) : Bytes := l.covered ++ (l.checkSum.text ++ l.filler)

structure Valid (l : Layout separator) : Prop where
  fits : l.tokens.length ≤ maxFields
  filler_mem : ∀ b ∈ l.filler, b = separator ∨ b = 13 ∨ b = 10 ∨ b = 32
  filler_nil : l.tokens.length = maxFields → l.filler = []
  beginString_tag : l.beginString.tag = 8
  bodyLength_tag : l.bodyLength.tag = 9
  checkSum_tag : l.checkSum.tag = 10
  bodyLength_value : Leads l.bodyLength.value (joined l.body).length
  checkSum_value : Leads l.checkSum.value ((l.covered.map UInt8.toNat).sum % 256 : ℕ)

theorem text_eq_joined (l : Layout separator) : l.text = joined l.tokens ++ l.filler := by
  simp [text, covered, tokens, joined, List.append_assoc]

theorem tokens_fields_getLastD (l : Layout separator) :
    (l.tokens.map Token.field).getLastD {} = l.checkSum.field := by
  have hsplit : l.tokens.map Token.field =
      (l.beginString :: l.bodyLength :: l.body).map Token.field ++ [l.checkSum.field] := by
    simp [tokens]
  rw [hsplit, List.getLastD_concat]

theorem advance_tokens (l : Layout separator) (htag : l.checkSum.tag = 10) :
    (advance {} l.tokens).bodyStartPos =
        some (l.beginString.text ++ l.bodyLength.text).length ∧
      (advance {} l.tokens).bodyEndPos = some l.covered.length ∧
      (advance {} l.tokens).checksumStartPos = some l.covered.length := by
  have hsplit : advance {} l.tokens =
      (advance {} (l.beginString :: l.bodyLength :: l.body)).take l.checkSum := by
    simp [advance, tokens]
  have hpos : (advance {} (l.beginString :: l.bodyLength :: l.body)).pos = l.covered.length := by
    rw [advance_pos]
    simp [joined_cons, covered]
  have hstart : (advance {} l.tokens).bodyStartPos =
      ((Cursor.take {} l.beginString).take l.bodyLength).bodyStartPos :=
    advance_bodyStartPos ((Cursor.take {} l.beginString).take l.bodyLength)
      (by simp [take_fields]) (l.body ++ [l.checkSum])
  refine ⟨?_, ?_, ?_⟩
  · rw [hstart, List.length_append, Token.text_length, Token.text_length]
    simp only [Cursor.take, Cursor.push, List.nil_append, List.length_singleton, ↓reduceIte]
    congr 1
    omega
  · rw [hsplit, ← hpos]
    simp [Cursor.take, Cursor.push, htag]
  · rw [hsplit, ← hpos]
    simp [Cursor.take, Cursor.push, htag]

theorem getInt_bodyLength (l : Layout separator) (raw : Bytes) (h8 : l.beginString.tag = 8)
    (h9 : l.bodyLength.tag = 9) (n : Int32) :
    FixMessage.getInt ⟨raw, l.tokens.map Token.field⟩ 9 = some n ↔
      Leads l.bodyLength.value n.toInt := by
  rw [getInt_eq_some_iff]
  have hfield : FixMessage.getField ⟨raw, l.tokens.map Token.field⟩ 9 =
      some l.bodyLength.value := by
    simp [FixMessage.getField, tokens, Token.field, h8, h9]
  simp [hfield]

theorem checksum_eq_iff {covered : Bytes} {n : Int32} :
    (¬ (n < 0 ∨ 255 < n) ∧ byteSum covered % 256 = n.toUInt32) ↔
      n.toInt = ((covered.map UInt8.toNat).sum % 256 : ℕ) := by
  have hlt : (covered.map UInt8.toNat).sum % 256 < 256 := Nat.mod_lt _ (by decide)
  have h0 : n < 0 ↔ n.toInt < 0 := Int32.lt_iff_toInt_lt
  have h255 : 255 < n ↔ 255 < n.toInt := Int32.lt_iff_toInt_lt
  have hcast : 0 ≤ n.toInt → (n.toUInt32.toNat : ℤ) = n.toInt := by
    intro hn
    have h := BitVec.toInt_eq_toNat_cond n.toBitVec
    have hu : n.toUInt32.toNat = n.toBitVec.toNat := rfl
    have hi : n.toInt = n.toBitVec.toInt := rfl
    have hb := n.toBitVec.isLt
    split_ifs at h <;> omega
  rw [← UInt32.toNat_inj, byteSum_mod, h0, h255]
  constructor
  · rintro ⟨hrange, heq⟩
    rw [heq, hcast (by omega)]
  · intro heq
    have := hcast (by omega)
    exact ⟨by omega, by omega⟩

theorem checkSum_check (covered value : Bytes) :
    (∃ n rest, fromChars value = .parsed n rest ∧ ¬ (n < 0 ∨ 255 < n) ∧
        byteSum covered % 256 = n.toUInt32) ↔
      Leads value ((covered.map UInt8.toNat).sum % 256 : ℕ) := by
  have hlt : (covered.map UInt8.toNat).sum % 256 < 256 := Nat.mod_lt _ (by decide)
  constructor
  · rintro ⟨n, rest, hfc, hsum⟩
    rw [← checksum_eq_iff.mp hsum]
    exact exists_fromChars_iff.mp ⟨rest, hfc⟩
  · intro h
    obtain ⟨rest, hfc⟩ := exists_fromChars_of_leads h (by omega) (by omega)
    exact ⟨_, rest, hfc, checksum_eq_iff.mpr (Int32.toInt_ofInt_of_le (by omega) (by omega))⟩

/-- The length is compared as an `int`, so for a text of any size the number in front of
the body is its length only up to the wrap-around of the cast. -/
theorem verify_eq_ok_iff (l : Layout separator) (h8 : l.beginString.tag = 8)
    (h9 : l.bodyLength.tag = 9) {msg : FixMessage} :
    verify ⟨l.text, l.tokens.map Token.field⟩ (advance {} l.tokens) = .ok msg ↔
      l.checkSum.tag = 10 ∧
        Leads l.bodyLength.value (Int32.ofNat (joined l.body).length).toInt ∧
        Leads l.checkSum.value ((l.covered.map UInt8.toNat).sum % 256 : ℕ) ∧
        msg = ⟨l.text, l.tokens.map Token.field⟩ := by
  have hcount : ¬ (l.tokens.map Token.field).length < 3 := by simp [tokens]
  by_cases htag : l.checkSum.tag = 10
  · obtain ⟨hstart, hend, hsum⟩ := l.advance_tokens htag
    have hbody : sizeSub l.covered.length (l.beginString.text ++ l.bodyLength.text).length =
        (joined l.body).length := by
      simp only [sizeSub, covered, List.length_append]
      rw [if_pos (by omega)]
      omega
    have htake : l.text.take l.covered.length = l.covered := by
      rw [text, List.take_left]
    rw [← l.getInt_bodyLength l.text h8 h9, ← checkSum_check]
    simp only [verify, if_neg hcount, tokens_fields_getLastD, Token.field, htag, ne_eq,
      not_true_eq_false, if_false, hstart, hend, hsum, hbody, htake, true_and]
    constructor
    · intro h
      split at h
      · cases h
      · rename_i n hint
        split_ifs at h with hn
        split at h
        · rename_i m rest hfc
          split_ifs at h with hrange heq
          exact ⟨hn ▸ hint, ⟨m, rest, hfc, hrange, heq⟩, (Except.ok.inj h).symm⟩
        · cases h
    · rintro ⟨hint, ⟨m, rest, hfc, hrange, heq⟩, rfl⟩
      simp [hint, hfc, hrange, heq]
  · have hlast : ((l.tokens.map Token.field).getLastD {}).tag ≠ 10 := by
      rw [tokens_fields_getLastD]
      exact htag
    simp only [verify, if_neg hcount, if_pos hlast, htag, false_and, reduceCtorEq]

theorem headersOk_of_two_le {k : ℕ} (hk : 2 ≤ k) (ts : List (Token separator)) :
    HeadersOk k ts := by
  induction ts generalizing k with
  | nil => trivial
  | cons t ts ih => exact ⟨⟨by omega, by omega⟩, ih (by omega)⟩

theorem headersOk_tokens_iff (l : Layout separator) :
    HeadersOk 0 l.tokens ↔ l.beginString.tag = 8 ∧ l.bodyLength.tag = 9 := by
  constructor
  · rintro ⟨⟨h8, _⟩, ⟨_, h9⟩, _⟩
    exact ⟨h8 rfl, h9 rfl⟩
  · rintro ⟨h8, h9⟩
    exact ⟨⟨fun _ => h8, fun h => absurd h (by decide)⟩,
      ⟨fun h => absurd h (by decide), fun _ => h9⟩, headersOk_of_two_le le_rfl _⟩

theorem exists_tokens_eq {ts : List (Token separator)} (h : 3 ≤ ts.length) (filler : Bytes) :
    ∃ l : Layout separator, l.tokens = ts ∧ l.filler = filler := by
  match ts, h with
  | b :: n :: t :: ts, _ =>
    refine ⟨⟨b, n, (t :: ts).dropLast, (t :: ts).getLast (by simp), filler⟩, ?_, rfl⟩
    simp [tokens, List.dropLast_append_getLast]

/-- `Valid` but for the wrap-around of the length. -/
structure Accepted (l : Layout separator) : Prop where
  fits : l.tokens.length ≤ maxFields
  filler_mem : ∀ b ∈ l.filler, b = separator ∨ b = 13 ∨ b = 10 ∨ b = 32
  filler_nil : l.tokens.length = maxFields → l.filler = []
  beginString_tag : l.beginString.tag = 8
  bodyLength_tag : l.bodyLength.tag = 9
  checkSum_tag : l.checkSum.tag = 10
  bodyLength_value : Leads l.bodyLength.value (Int32.ofNat (joined l.body).length).toInt
  checkSum_value : Leads l.checkSum.value ((l.covered.map UInt8.toNat).sum % 256 : ℕ)

theorem parse_eq_ok_iff_accepted {raw : Bytes} (hsep : separator ≠ equals) {msg : FixMessage} :
    FixMessage.parse raw separator = .ok msg ↔
      ∃ l : Layout separator, l.Accepted ∧ l.text = raw ∧
        msg = ⟨raw, l.tokens.map Token.field⟩ := by
  constructor
  · intro h
    rw [FixMessage.parse] at h
    split_ifs at h with hnil
    cases hloop : parseLoop raw separator maxFields {} with
    | error e => simp [hloop] at h
    | ok c =>
      simp only [hloop] at h
      obtain ⟨ts, filler, hraw, hfits, hfiller, hfull, hheaders, rfl⟩ :=
        (parseLoop_eq_ok_iff hsep maxFields {} c).mp hloop
      have hthree : 3 ≤ ts.length := by
        by_contra hlt
        have hcount : ((advance {} ts).fields).length < 3 := by
          simp [advance_fields]
          omega
        simp [verify, hcount] at h
      obtain ⟨l, rfl, rfl⟩ := exists_tokens_eq hthree filler
      have htext : l.text = raw := by rw [text_eq_joined, ← hraw]; rfl
      obtain ⟨h8, h9⟩ := l.headersOk_tokens_iff.mp hheaders
      rw [advance_fields, List.nil_append, ← htext, l.verify_eq_ok_iff h8 h9] at h
      obtain ⟨h10, hbody, hsum, rfl⟩ := h
      refine ⟨l, ⟨hfits, fun b hb => ?_, hfull, h8, h9, h10, hbody, hsum⟩, htext, by rw [htext]⟩
      simpa [isFiller, or_assoc] using List.all_eq_true.mp hfiller b hb
  · rintro ⟨l, hl, rfl, rfl⟩
    have hne : l.text ≠ [] := by
      rw [text_eq_joined, tokens, joined_cons, List.append_assoc]
      exact List.append_ne_nil_of_left_ne_nil l.beginString.text_ne_nil _
    have hfiller : l.filler.all (isFiller separator) = true := by
      refine List.all_eq_true.mpr fun b hb => ?_
      simpa [isFiller, or_assoc] using hl.filler_mem b hb
    have hloop : parseLoop l.text separator maxFields {} = .ok (advance {} l.tokens) :=
      (parseLoop_eq_ok_iff hsep maxFields {} _).mpr
        ⟨l.tokens, l.filler, l.text_eq_joined, hl.fits, hfiller, hl.filler_nil,
          l.headersOk_tokens_iff.mpr ⟨hl.beginString_tag, hl.bodyLength_tag⟩, rfl⟩
    rw [FixMessage.parse, if_neg hne, hloop]
    simp only [advance_fields, List.nil_append]
    exact (l.verify_eq_ok_iff hl.beginString_tag hl.bodyLength_tag).mpr
      ⟨hl.checkSum_tag, hl.bodyLength_value, hl.checkSum_value, rfl⟩

theorem exists_error {raw : Bytes}
    (h : ∀ l : Layout separator, l.Accepted → l.text = raw → False) (hsep : separator ≠ equals) :
    ∃ e, FixMessage.parse raw separator = .error e := by
  cases hp : FixMessage.parse raw separator with
  | error e => exact ⟨e, rfl⟩
  | ok msg =>
    obtain ⟨l, hl, htext, _⟩ := (parse_eq_ok_iff_accepted hsep).mp hp
    exact (h l hl htext).elim

theorem Accepted.last_mem {l : Layout separator} (hl : l.Accepted) {a : Bytes} {b : UInt8}
    (h : l.text = a ++ [b]) : b = separator ∨ b = 13 ∨ b = 10 ∨ b = 32 := by
  have htext : l.text = (l.covered ++ (l.checkSum.tagText ++ equals :: l.checkSum.value)) ++
      separator :: l.filler := by
    simp [text, Token.text]
  have hlast : (separator :: l.filler).getLast? = some b := by
    have hboth := congrArg List.getLast? (htext.symm.trans h)
    rwa [List.getLast?_append_of_ne_nil _ (List.cons_ne_nil _ _), List.getLast?_concat] at hboth
  rcases List.mem_cons.mp (List.mem_of_getLast? hlast) with hb | hb
  · exact Or.inl hb
  · exact hl.filler_mem b hb

theorem accepted_iff_valid (l : Layout separator) (hlen : l.text.length < 2 ^ 31) :
    l.Accepted ↔ l.Valid := by
  have hbody : (joined l.body).length < 2 ^ 31 := by
    refine lt_of_le_of_lt ?_ hlen
    simp [text, covered]
    omega
  have hcast := Int32.toInt_ofNat_of_lt hbody
  constructor
  · intro h
    exact ⟨h.fits, h.filler_mem, h.filler_nil, h.beginString_tag, h.bodyLength_tag,
      h.checkSum_tag, hcast ▸ h.bodyLength_value, h.checkSum_value⟩
  · intro h
    exact ⟨h.fits, h.filler_mem, h.filler_nil, h.beginString_tag, h.bodyLength_tag,
      h.checkSum_tag, hcast.symm ▸ h.bodyLength_value, h.checkSum_value⟩

theorem parse_eq_ok_iff {raw : Bytes} (hlen : raw.length < 2 ^ 31) (hsep : separator ≠ equals)
    {msg : FixMessage} :
    FixMessage.parse raw separator = .ok msg ↔
      ∃ l : Layout separator, l.Valid ∧ l.text = raw ∧ msg = ⟨raw, l.tokens.map Token.field⟩ := by
  rw [parse_eq_ok_iff_accepted hsep]
  apply exists_congr
  intro l
  apply and_congr_left
  intro h
  exact l.accepted_iff_valid (h.1 ▸ hlen)

/-- The grammar of the parser: acceptance of exactly the texts of valid layouts, with the
fields of any such layout as the reported fields. -/
theorem parse_accepts_grammar {raw : Bytes} (hlen : raw.length < 2 ^ 31)
    (hsep : separator ≠ equals) :
    ((∃ msg, FixMessage.parse raw separator = .ok msg) ↔
        ∃ l : Layout separator, l.Valid ∧ l.text = raw) ∧
      ∀ (msg : FixMessage) (l : Layout separator), FixMessage.parse raw separator = .ok msg →
        l.Valid → l.text = raw → msg.fields = l.tokens.map Token.field := by
  refine ⟨⟨?_, ?_⟩, ?_⟩
  · rintro ⟨msg, h⟩
    obtain ⟨l, hl, htext, _⟩ := (parse_eq_ok_iff hlen hsep).mp h
    exact ⟨l, hl, htext⟩
  · rintro ⟨l, hl, htext⟩
    exact ⟨_, (parse_eq_ok_iff hlen hsep).mpr ⟨l, hl, htext, rfl⟩⟩
  · intro msg l h hl htext
    have h' := (parse_eq_ok_iff hlen hsep).mpr ⟨l, hl, htext, rfl⟩
    rw [Except.ok.inj (h.symm.trans h')]

theorem parse_accepts_grammar_emptyBody :
    ∃ l : Layout soh, l.Valid ∧ l.text = ascii "8=F\x019=0\x0110=099\x01" :=
  (parse_accepts_grammar (by decide) (by decide)).1.mp
    ⟨⟨ascii "8=F\x019=0\x0110=099\x01", [⟨8, ascii "F"⟩, ⟨9, ascii "0"⟩, ⟨10, ascii "099"⟩]⟩,
      by decide⟩

end Layout

end Fixure
