import Fixure.RoundTrip

/-!
# What length and checksum detect

Tokens delimit themselves, so a text has one cut into fields only. Two accepted texts
that begin alike therefore share their length field, and with it the place of the
checksum: no accepted text is a proper beginning of another one. A corrupted byte
leaves that place alone and spoils the sum, or it takes away the separator in front of
the checksum field and spoils the length.
-/

namespace Fixure
open Search Decimal

/-! ### Cuts into tokens -/

section Tokens
variable {separator : UInt8}

theorem spells_unique {lit : Bytes} {n m : ℤ} (hn : Spells lit n) (hm : Spells lit m) : n = m := by
  have hend : NoDigitAhead ([] : Bytes) := by simp [NoDigitAhead]
  have hread := readInt_eq_some_iff.mpr ⟨lit, (List.append_nil lit).symm, hn, hend⟩
  rw [readInt_eq_some_iff.mpr ⟨lit, (List.append_nil lit).symm, hm, hend⟩] at hread
  exact (Prod.mk.inj (Option.some.inj hread)).1.symm

theorem leads_unique {text : Bytes} {n m : ℤ} (hn : Leads text n) (hm : Leads text m) : n = m := by
  obtain ⟨lit, rest, htext, hn⟩ := hn
  obtain ⟨lit', rest', htext', hm⟩ := hm
  have hread := readInt_eq_some_iff.mpr ⟨lit, htext, hn⟩
  rw [readInt_eq_some_iff.mpr ⟨lit', htext', hm⟩] at hread
  exact (Prod.mk.inj (Option.some.inj hread)).1.symm

theorem append_cons_inj {c : UInt8} {a b x y : Bytes} (ha : c ∉ a) (hb : c ∉ b)
    (h : a ++ c :: x = b ++ c :: y) : a = b ∧ x = y := by
  have hlen : a.length = b.length := by
    apply Option.some.inj
    rw [← find_singleton_append ha x, h, find_singleton_append hb y]
  obtain ⟨hab, hxy⟩ := List.append_inj h hlen
  exact ⟨hab, (List.cons.inj hxy).2⟩

theorem Token.append_inj {t u : Token separator} {x y : Bytes}
    (h : t.text ++ x = u.text ++ y) : t = u ∧ x = y := by
  cases t with
  | mk tagText tag value spells free =>
    cases u with
    | mk tagText' tag' value' spells' free' =>
      have h : tagText ++ equals :: (value ++ separator :: x) =
          tagText' ++ equals :: (value' ++ separator :: y) := by
        simpa [Token.text] using h
      obtain ⟨rfl, htail⟩ := append_cons_inj (equals_notMem_of_spells spells)
        (equals_notMem_of_spells spells') h
      obtain ⟨rfl, rfl⟩ := append_cons_inj free free' htail
      obtain rfl := Int32.toInt_inj.mp (spells_unique spells spells')
      exact ⟨rfl, rfl⟩

theorem equals_mem_text (t : Token separator) : equals ∈ t.text := by
  simp [Token.text]

theorem prefix_of_joined {ts us : List (Token separator)} {x : Bytes}
    (h : joined us = joined ts ++ x) : ∃ vs, us = ts ++ vs ∧ joined vs = x := by
  induction ts generalizing us with
  | nil => exact ⟨us, rfl, h⟩
  | cons t ts ih =>
    cases us with
    | nil =>
      rw [joined_cons, List.append_assoc] at h
      exact absurd (List.append_eq_nil_iff.mp h.symm).1 t.text_ne_nil
    | cons u us =>
      rw [joined_cons, joined_cons, List.append_assoc] at h
      obtain ⟨rfl, hrest⟩ := Token.append_inj h
      obtain ⟨vs, rfl, hvs⟩ := ih hrest
      exact ⟨vs, rfl, hvs⟩

theorem joined_eq_nil_of_free {vs : List (Token separator)} (h : equals ∉ joined vs) : vs = [] := by
  cases vs with
  | nil => rfl
  | cons v vs =>
    apply absurd _ h
    rw [joined_cons]
    exact List.mem_append_left _ (equals_mem_text v)

/-- Two cuts of a text, with fillers that hold no field, are the same. -/
theorem joined_append_inj {ts us : List (Token separator)} {x y : Bytes}
    (h : joined ts ++ x = joined us ++ y) (hx : equals ∉ x) (hy : equals ∉ y) :
    ts = us ∧ x = y := by
  rcases List.append_eq_append_iff.mp h with ⟨z, hus, hxz⟩ | ⟨z, hts, hyz⟩
  · obtain ⟨vs, rfl, rfl⟩ := prefix_of_joined hus
    have hvs : vs = [] := by
      apply joined_eq_nil_of_free
      intro hm
      exact hx (hxz ▸ List.mem_append_left y hm)
    subst hvs
    exact ⟨(List.append_nil ts).symm, hxz⟩
  · obtain ⟨vs, rfl, rfl⟩ := prefix_of_joined hts
    have hvs : vs = [] := by
      apply joined_eq_nil_of_free
      intro hm
      exact hy (hyz ▸ List.mem_append_left x hm)
    subst hvs
    exact ⟨List.append_nil us, hyz.symm⟩

/-- Where tags cannot hold the separator, every separator in front of a field ends one. -/
theorem joined_split {ts : List (Token separator)} {filler a b : Bytes}
    (htags : ∀ t ∈ ts, separator ∉ t.tagText) (hsep : separator ≠ equals)
    (hfiller : equals ∉ filler) (hb : equals ∈ b)
    (h : joined ts ++ filler = a ++ separator :: b) :
    ∃ us vs, ts = us ++ vs ∧ joined us = a ++ [separator] ∧ joined vs ++ filler = b := by
  induction ts generalizing a with
  | nil =>
    have h : filler = a ++ separator :: b := h
    apply absurd _ hfiller
    rw [h]
    exact List.mem_append_right a (List.mem_cons_of_mem separator hb)
  | cons t ts ih =>
    have hfree : separator ∉ t.tagText ++ equals :: t.value := by
      simp [htags t List.mem_cons_self, hsep, t.free]
    have htext : t.text = (t.tagText ++ equals :: t.value) ++ [separator] := by
      simp [Token.text]
    have h : (t.tagText ++ equals :: t.value) ++ separator :: (joined ts ++ filler) =
        a ++ separator :: b := by
      rw [← h, joined_cons, htext]
      simp
    rcases List.append_eq_append_iff.mp h with ⟨x, ha, hx⟩ | ⟨x, ht, hx⟩
    · cases x with
      | nil =>
        refine ⟨[t], ts, rfl, ?_, (List.cons.inj hx).2⟩
        rw [ha, List.append_nil, ← htext]
        exact List.append_nil t.text
      | cons c x =>
        obtain ⟨rfl, hrest⟩ := List.cons.inj hx
        obtain ⟨us, vs, rfl, hus, hvs⟩ :=
          ih (fun u hu => htags u (List.mem_cons_of_mem t hu)) hrest
        refine ⟨t :: us, vs, rfl, ?_, hvs⟩
        rw [joined_cons, hus, ha, htext]
        simp
    · cases x with
      | nil =>
        refine ⟨[t], ts, rfl, ?_, (List.cons.inj hx).2.symm⟩
        rw [List.append_nil] at ht
        rw [← ht, ← htext]
        exact List.append_nil t.text
      | cons c x =>
        obtain ⟨rfl, _⟩ := List.cons.inj hx
        apply absurd _ hfree
        rw [ht]
        exact List.mem_append_right a List.mem_cons_self

end Tokens

namespace Layout
variable {separator : UInt8}

theorem Accepted.free {l : Layout separator} (hl : l.Accepted) (hsep : separator ≠ equals) :
    equals ∉ l.filler := by
  intro hm
  rcases hl.filler_mem equals hm with h | h | h | h
  · exact hsep h.symm
  · exact absurd h (by decide)
  · exact absurd h (by decide)
  · exact absurd h (by decide)

def fieldsBefore (l : Layout separator) : List (Token separator) :=
  l.beginString :: l.bodyLength :: l.body

theorem tokens_eq (l : Layout separator) : l.tokens = l.fieldsBefore ++ [l.checkSum] := rfl

theorem covered_eq (l : Layout separator) : l.covered = joined l.fieldsBefore := rfl

/-! ### Texts that begin alike -/

/-- Texts with the same length field have bodies of the same length. The parser compares
`int`s, which is enough below `2 ^ 32` bytes. -/
theorem body_length_eq {l l' : Layout separator} (hl : l.Accepted) (hl' : l'.Accepted)
    (hsize : (joined l.body).length < 2 ^ 32) (hsize' : (joined l'.body).length < 2 ^ 32)
    (h : l'.bodyLength = l.bodyLength) : (joined l.body).length = (joined l'.body).length := by
  have hcast := leads_unique hl.bodyLength_value (h ▸ hl'.bodyLength_value)
  rw [Int32.toInt_ofNat', Int32.toInt_ofNat'] at hcast
  have hmod := congrArg (· % (Int32.size : ℤ)) hcast
  simp only [Int.bmod_emod, Int32.size] at hmod
  omega

theorem tokens_eq_of_append {l l' : Layout separator} (hl : l.Accepted) (hl' : l'.Accepted)
    (hsize : (joined l'.body).length < 2 ^ 32) {vs : List (Token separator)}
    (h : l'.tokens = l.tokens ++ vs) : vs = [] := by
  obtain ⟨_, hrest⟩ := List.cons.inj h
  obtain ⟨hlength, hbody⟩ := List.cons.inj hrest
  cases vs using List.reverseRecOn with
  | nil => rfl
  | append_singleton vs v =>
    have hbody : l'.body ++ [l'.checkSum] = (l.body ++ l.checkSum :: vs) ++ [v] := by
      rw [hbody]
      simp
    obtain ⟨hbody, _⟩ := List.append_inj' hbody rfl
    have hjoined : (joined l'.body).length =
        (joined l.body).length + (l.checkSum.text.length + (joined vs).length) := by
      rw [hbody]
      simp [joined]
    have htext := l.checkSum.text_length
    have hsame := body_length_eq hl hl' (by omega) hsize hlength
    omega

theorem eq_nil_of_joined_append {l l' : Layout separator} (hl : l.Accepted) (hl' : l'.Accepted)
    (hsize : (joined l'.tokens).length < 2 ^ 32) {x : Bytes}
    (h : joined l'.tokens = joined l.tokens ++ x) : x = [] := by
  obtain ⟨vs, hvs, rfl⟩ := prefix_of_joined h
  have hbody : (joined l'.body).length ≤ (joined l'.tokens).length := by
    simp [tokens, joined]
    omega
  have hnil := tokens_eq_of_append hl hl' (lt_of_le_of_lt hbody hsize) hvs
  subst hnil
  rfl

/-- The text is accepted and ends with its checksum field. -/
def Complete (separator : UInt8) (raw : Bytes) : Prop :=
  (∃ msg, FixMessage.parse raw separator = .ok msg) ∧
    ∃ l : Layout separator, l.Accepted ∧ l.text = raw ∧ l.filler = []

theorem truncated_error {a t : Bytes} (hsep : separator ≠ equals) (ha : a.length < 2 ^ 31)
    (hA : Complete separator a) (ht : t <+: a) (hne : t ≠ a) :
    ∃ e, FixMessage.parse t separator = .error e := by
  obtain ⟨_, l, hl, rfl, hend⟩ := hA
  obtain ⟨x, hx⟩ := ht
  apply exists_error _ hsep
  intro l' hl' htext
  have hwhole : l.text = joined l.tokens := by
    rw [text_eq_joined, hend, List.append_nil]
  have hsplit : joined l.tokens = joined l'.tokens ++ (l'.filler ++ x) := by
    rw [← hwhole, ← hx, ← htext, text_eq_joined, List.append_assoc]
  have hnil := eq_nil_of_joined_append hl' hl (by rw [← hwhole]; omega) hsplit
  apply hne
  rw [← hx, (List.append_eq_nil_iff.mp hnil).2, List.append_nil]

/-- No accepted text that ends with its checksum field begins another one. Nothing shorter is
accepted, with a filler or without, and neither is one such text behind another. -/
theorem complete_prefixFree {a b : Bytes} (hsep : separator ≠ equals)
    (ha : a.length < 2 ^ 31) (hb : b.length < 2 ^ 31) (hA : Complete separator a)
    (hB : Complete separator b) :
    (a <+: b → a = b) ∧
      (∀ t, t <+: a → t ≠ a → ∃ e, FixMessage.parse t separator = .error e) ∧
      ∃ e, FixMessage.parse (a ++ b) separator = .error e := by
  refine ⟨?_, ?_, ?_⟩
  · intro hpre
    by_contra hne
    obtain ⟨e, he⟩ := truncated_error hsep hb hB hpre hne
    obtain ⟨msg, hmsg⟩ := hA.1
    rw [hmsg] at he
    cases he
  · intro t ht hne
    exact truncated_error hsep ha hA ht hne
  · obtain ⟨_, l, hl, rfl, hend⟩ := hA
    obtain ⟨_, l', hl', rfl, hend'⟩ := hB
    apply exists_error _ hsep
    intro m hm htext
    rw [text_eq_joined, text_eq_joined l, text_eq_joined l', hend, hend', List.append_nil,
      List.append_nil] at htext
    rw [text_eq_joined, hend, List.append_nil] at ha
    rw [text_eq_joined, hend', List.append_nil] at hb
    have hcut : joined m.tokens ++ m.filler = joined (l.tokens ++ l'.tokens) ++ [] := by
      rw [htext]
      simp [joined]
    obtain ⟨htokens, _⟩ := joined_append_inj hcut (hm.free hsep) List.not_mem_nil
    have hsize : (joined m.body).length < 2 ^ 32 := by
      have hlen := congrArg List.length hcut
      have hbody : (joined m.body).length ≤ (joined m.tokens).length := by
        simp [tokens, joined]
        omega
      simp [joined] at hlen ha hb hbody ⊢
      omega
    have hnil := tokens_eq_of_append hl hm hsize htokens
    cases hnil

theorem complete_wire {first : Field} {rest : List Field} (hsep : separator ≠ equals)
    (hdigit : isDigit separator = false) (hfree : ∀ f ∈ first :: rest, separator ∉ f.value)
    (hcount : (bodyFields rest).length ≤ 253)
    (hlen : (wire separator first rest).length < 2 ^ 31) :
    Complete separator (wire separator first rest) := by
  have htext := wireLayout_text hdigit hfree
  have hvalid := wireLayout_valid hdigit hfree hcount
  refine ⟨⟨_, parse_wire hsep hdigit hfree hcount hlen⟩, _, ?_, htext, rfl⟩
  exact (accepted_iff_valid _ (htext.symm ▸ hlen)).mpr hvalid

theorem complete_prefixFree_heartbeats :
    let a := wire soh ⟨8, ascii "F"⟩ [⟨35, ascii "0"⟩]
    let b := wire soh ⟨8, ascii "F"⟩ [⟨35, ascii "0"⟩, ⟨112, ascii "x"⟩]
    (a <+: b → a = b) ∧
      (∀ t, t <+: a → t ≠ a → ∃ e, FixMessage.parse t soh = .error e) ∧
      ∃ e, FixMessage.parse (a ++ b) soh = .error e :=
  complete_prefixFree (by decide) (by decide) (by decide)
    (complete_wire (by decide) (by decide) (by decide) (by decide) (by decide))
    (complete_wire (by decide) (by decide) (by decide) (by decide) (by decide))

/-! ### A corrupted byte -/

theorem sum_mod_ne {x y : Bytes} {b c : UInt8} (h : b ≠ c) :
    ((x ++ b :: y).map UInt8.toNat).sum % 256 ≠ ((x ++ c :: y).map UInt8.toNat).sum % 256 := by
  have hb := b.toNat_lt
  have hc := c.toNat_lt
  have hbc : b.toNat ≠ c.toNat := fun heq => h (UInt8.toNat_inj.mp heq)
  simp only [List.map_append, List.map_cons, List.sum_append, List.sum_cons]
  omega

theorem notMem_tagText (hminus : separator ≠ minus) (hdigit : isDigit separator = false)
    (t : Token separator) : separator ∉ t.tagText := by
  intro hm
  rcases t.spells.mem hm with h | h
  · exact hminus h
  · rw [hdigit] at h
    cases h

section Corrupted
variable {l l' : Layout separator} {b : UInt8}

/-- The place of the checksum stays, and the sum in front of it changes. -/
theorem corrupted_inside (hl : l.Accepted) (hl' : l'.Accepted) (hsep : separator ≠ equals)
    (hminus : separator ≠ minus) (hdigit : isDigit separator = false) {x y : Bytes} {c : UInt8}
    (hcovered : l.covered = (x ++ c :: y) ++ [separator])
    (htext : l'.text = (x ++ b :: y) ++ separator :: (l.checkSum.text ++ l.filler)) : b = c := by
  have htags : ∀ t ∈ l'.tokens, separator ∉ t.tagText := fun t _ => notMem_tagText hminus hdigit t
  have hmem : equals ∈ l.checkSum.text ++ l.filler :=
    List.mem_append_left _ (equals_mem_text l.checkSum)
  rw [text_eq_joined] at htext
  obtain ⟨us, vs, htokens, hus, hvs⟩ := joined_split htags hsep (hl'.free hsep) hmem htext
  have hlast : vs = [l.checkSum] := by
    have hcut : joined vs ++ l'.filler = joined [l.checkSum] ++ l.filler := by
      rw [hvs]
      simp [joined]
    exact (joined_append_inj hcut (hl'.free hsep) (hl.free hsep)).1
  rw [hlast, tokens_eq] at htokens
  obtain ⟨hbefore, hsum⟩ := List.append_inj' htokens rfl
  have hcovered' : l'.covered = (x ++ b :: y) ++ [separator] := by
    rw [covered_eq, hbefore, hus]
  have hvalue := hl'.checkSum_value
  rw [(List.cons.inj hsum).1] at hvalue
  have heq := leads_unique hl.checkSum_value hvalue
  rw [hcovered, hcovered', List.append_assoc, List.append_assoc] at heq
  by_contra hne
  exact sum_mod_ne hne (Int.ofNat_inj.mp heq).symm

/-- Without its separator the field in front of the checksum swallows it, and the body
becomes too short. -/
theorem corrupted_boundary (hl : l.Accepted) (hl' : l'.Accepted) (hsep : separator ≠ equals)
    (hminus : separator ≠ minus) (hdigit : isDigit separator = false)
    (hsize : l.text.length < 2 ^ 32) {a : Bytes} (hcovered : l.covered = a ++ [separator])
    (htext : l'.text = a ++ b :: (l.checkSum.text ++ l.filler)) : b = separator := by
  by_contra hne
  have hmerge (init : List (Token separator)) (t : Token separator)
      (hbefore : l.fieldsBefore = init ++ [t]) : ∃ u, l'.tokens = init ++ [u] := by
    have hfree : separator ∉ t.value ++ b :: (l.checkSum.tagText ++ equals :: l.checkSum.value) := by
      simp [t.free, l.checkSum.free, Ne.symm hne, hsep, notMem_tagText hminus hdigit l.checkSum]
    have ha : a = joined init ++ (t.tagText ++ equals :: t.value) := by
      have hend : a ++ [separator] =
          (joined init ++ (t.tagText ++ equals :: t.value)) ++ [separator] := by
        rw [← hcovered, covered_eq, hbefore]
        simp [joined, Token.text]
      exact List.append_cancel_right hend
    have hcut : joined l'.tokens ++ l'.filler =
        joined (init ++ [⟨t.tagText, t.tag, _, t.spells, hfree⟩]) ++ l.filler := by
      rw [← text_eq_joined, htext, ha]
      simp [joined, Token.text]
    exact ⟨_, (joined_append_inj hcut (hl'.free hsep) (hl.free hsep)).1⟩
  cases hbody : l.body using List.reverseRecOn with
  | nil =>
    obtain ⟨u, hu⟩ := hmerge [l.beginString] l.bodyLength (by rw [fieldsBefore, hbody]; rfl)
    have hlen := congrArg List.length hu
    simp [tokens] at hlen
  | append_singleton body t =>
    obtain ⟨u, hu⟩ := hmerge (l.beginString :: l.bodyLength :: body) t
      (by rw [fieldsBefore, hbody]; rfl)
    obtain ⟨_, hrest⟩ := List.cons.inj hu
    obtain ⟨hlength, hrest⟩ := List.cons.inj hrest
    obtain ⟨hbody', _⟩ := List.append_inj' hrest rfl
    have hjoined : (joined l.body).length = (joined l'.body).length + t.text.length := by
      rw [hbody, hbody']
      simp [joined]
    have htlen := t.text_length
    have hle : (joined l.body).length ≤ l.text.length := by
      simp [text, covered]
      omega
    have hsame := body_length_eq hl hl' (by omega) (by omega) hlength
    omega

end Corrupted

theorem exists_concat_covered (l : Layout separator) : ∃ a, l.covered = a ++ [separator] := by
  have hne : l.fieldsBefore ≠ [] := List.cons_ne_nil _ _
  refine ⟨joined l.fieldsBefore.dropLast ++ ((l.fieldsBefore.getLast hne).tagText ++
    equals :: (l.fieldsBefore.getLast hne).value), ?_⟩
  rw [covered_eq]
  conv_lhs => rw [← List.dropLast_append_getLast hne]
  simp [joined, Token.text]

/-- A byte changed in front of the checksum field of an accepted text is noticed. -/
theorem parse_corrupted {raw : Bytes} {msg : FixMessage} (hsep : separator ≠ equals)
    (hminus : separator ≠ minus) (hdigit : isDigit separator = false) (hlen : raw.length < 2 ^ 31)
    (hparse : FixMessage.parse raw separator = .ok msg) :
    ∃ l : Layout separator, l.Valid ∧ l.text = raw ∧ msg.fields = l.tokens.map Token.field ∧
      ∀ i < l.covered.length, ∀ b, raw[i]? ≠ some b →
        ∃ e, FixMessage.parse (raw.set i b) separator = .error e := by
  obtain ⟨l, hvalid, rfl, rfl⟩ := (parse_eq_ok_iff hlen hsep).mp hparse
  refine ⟨l, hvalid, rfl, rfl, ?_⟩
  intro i hi b hb
  have hl := (l.accepted_iff_valid hlen).mpr hvalid
  apply exists_error _ hsep
  intro l' hl' htext
  obtain ⟨a, ha⟩ := l.exists_concat_covered
  have hwhole : l.text = a ++ separator :: (l.checkSum.text ++ l.filler) := by
    rw [text, ha]
    simp
  rw [ha, List.length_append, List.length_singleton] at hi
  rcases Nat.lt_succ_iff_lt_or_eq.mp hi with hlt | rfl
  · have hsplit : a = a.take i ++ a[i] :: a.drop (i + 1) := by
      rw [List.cons_getElem_drop_succ, List.take_append_drop]
    have hset : a.set i b = a.take i ++ b :: a.drop (i + 1) := by
      rw [List.set_eq_take_append_cons_drop, if_pos hlt]
    rw [hwhole, List.set_append_left _ _ hlt, hset] at htext
    have hcovered : l.covered = (a.take i ++ a[i] :: a.drop (i + 1)) ++ [separator] := by
      rw [← hsplit, ha]
    apply hb
    rw [hwhole, List.getElem?_append_left hlt, List.getElem?_eq_getElem hlt,
      corrupted_inside hl hl' hsep hminus hdigit hcovered htext]
  · have hset : l.text.set a.length b = a ++ b :: (l.checkSum.text ++ l.filler) := by
      rw [hwhole, List.set_append_right _ _ le_rfl, Nat.sub_self, List.set_cons_zero]
    apply hb
    rw [hwhole, List.getElem?_append_right le_rfl, Nat.sub_self, List.getElem?_cons_zero,
      corrupted_boundary hl hl' hsep hminus hdigit (by omega) ha (htext.trans hset)]

def heartbeatText : Bytes := ascii "8=F\x019=5\x0135=0\x0110=062\x01"

theorem parse_corrupted_heartbeat :
    ∃ l : Layout soh, l.Valid ∧ l.text = heartbeatText ∧
      [⟨8, ascii "F"⟩, ⟨9, ascii "5"⟩, ⟨35, ascii "0"⟩, ⟨10, ascii "062"⟩] =
        l.tokens.map Token.field ∧
      ∀ i < l.covered.length, ∀ b, heartbeatText[i]? ≠ some b →
        ∃ e, FixMessage.parse (heartbeatText.set i b) soh = .error e :=
  @parse_corrupted soh heartbeatText
    ⟨heartbeatText, [⟨8, ascii "F"⟩, ⟨9, ascii "5"⟩, ⟨35, ascii "0"⟩, ⟨10, ascii "062"⟩]⟩
    (by decide) (by decide) (by decide) (by decide) (by decide)

end Layout

end Fixure
