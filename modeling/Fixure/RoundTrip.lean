import Fixure.Grammar
import Fixure.Serializer

/-!
# Serializing and parsing are inverse

The text of the serializer has a valid layout whose tokens are the written fields, so
the grammar of the parser gives the fields back. Writing those fields again selects the
same body and therefore produces the same text.
-/

namespace Fixure
open Search Decimal

variable {separator : UInt8}

theorem spells_threeDigits {n : ℕ} (hn : n < 256) : Spells (threeDigits n) n := by
  refine ⟨threeDigits n, List.cons_ne_nil _ _, fun _ => isDigit_of_mem_threeDigits hn,
    Or.inl ⟨rfl, ?_⟩⟩
  simp only [value, threeDigits, List.foldl_cons, List.foldl_nil,
    digit_toNat (show n / 100 < 10 by omega), digit_toNat (show n / 10 % 10 < 10 by omega),
    digit_toNat (show n % 10 < 10 by omega)]
  omega

def Field.token (f : Field) (h : separator ∉ f.value) : Token separator :=
  ⟨intNumeral f.tag.toInt, f.tag, f.value, spells_intNumeral _, h⟩

def tokensOf (fields : List Field) (h : ∀ f ∈ fields, separator ∉ f.value) :
    List (Token separator) := fields.pmap Field.token h

theorem joined_tokensOf (fields : List Field) (h : ∀ f ∈ fields, separator ∉ f.value) :
    joined (tokensOf fields h) = fields.flatMap (Field.text separator) := by
  induction fields with
  | nil => rfl
  | cons f fields ih =>
    rw [List.flatMap_cons, ← ih fun g hg => h g (List.mem_cons_of_mem _ hg)]
    rfl

theorem tokensOf_fields (fields : List Field) (h : ∀ f ∈ fields, separator ∉ f.value) :
    (tokensOf fields h).map Token.field = fields := by
  induction fields with
  | nil => rfl
  | cons f fields ih =>
    have hrest := ih fun g hg => h g (List.mem_cons_of_mem _ hg)
    rw [tokensOf, List.pmap_cons, List.map_cons]
    exact congrArg (f :: ·) hrest

theorem notMem_of_digits {ds : Bytes} (hsep : isDigit separator = false)
    (hds : ∀ d ∈ ds, isDigit d = true) : separator ∉ ds := by
  intro hm
  rw [hds separator hm] at hsep
  cases hsep

section Wire
variable {first : Field} {rest : List Field}

theorem bodyFields_free (hfree : ∀ f ∈ first :: rest, separator ∉ f.value) :
    ∀ f ∈ bodyFields rest, separator ∉ f.value := fun f hf =>
  hfree f (List.mem_cons_of_mem _ (List.mem_filter.mp hf).1)

def wireLayout (first : Field) (rest : List Field) (hsep : isDigit separator = false)
    (hfree : ∀ f ∈ first :: rest, separator ∉ f.value) : Layout separator where
  beginString := Field.token ⟨8, first.value⟩ (hfree first List.mem_cons_self)
  bodyLength := Field.token ⟨9, numeral (bodyText separator rest).length⟩
    (notMem_of_digits hsep fun _ => isDigit_of_mem_numeral)
  body := tokensOf (bodyFields rest) (bodyFields_free hfree)
  checkSum := (checksumField (coveredText separator first rest)).token
    (notMem_of_digits hsep (fun _ => isDigit_of_mem_threeDigits (Nat.mod_lt _ (by decide))))
  filler := []

variable (hsep : isDigit separator = false) (hfree : ∀ f ∈ first :: rest, separator ∉ f.value)

theorem wireLayout_fields :
    (wireLayout first rest hsep hfree).tokens.map Token.field =
      wireFields separator first rest := by
  simp only [Layout.tokens, wireLayout, List.map_cons, List.map_append, tokensOf_fields,
    List.map_nil]
  rfl

theorem wireLayout_covered :
    (wireLayout first rest hsep hfree).covered = coveredText separator first rest := by
  simp only [Layout.covered, wireLayout, joined_tokensOf]
  rfl

theorem wireLayout_text :
    (wireLayout first rest hsep hfree).text = wire separator first rest := by
  rw [Layout.text, wireLayout_covered, wire_eq]
  simp only [wireLayout, List.append_nil]
  rfl

theorem wireLayout_valid (hcount : (bodyFields rest).length ≤ 253) :
    (wireLayout first rest hsep hfree).Valid where
  fits := by
    have := congrArg List.length (wireLayout_fields hsep hfree)
    simp only [List.length_map, wireFields, coveredFields, List.length_append,
      List.length_cons, List.length_nil] at this
    rw [this, maxFields]
    omega
  filler_mem b hb := absurd hb List.not_mem_nil
  filler_nil _ := rfl
  beginString_tag := rfl
  bodyLength_tag := rfl
  checkSum_tag := rfl
  bodyLength_value := by
    simp only [wireLayout, joined_tokensOf]
    exact (spells_numeral _).leads
  checkSum_value := by
    rw [wireLayout_covered]
    exact (spells_threeDigits (Nat.mod_lt _ (by decide))).leads

end Wire

theorem parse_wire {first : Field} {rest : List Field} (heq : separator ≠ equals)
    (hsep : isDigit separator = false) (hfree : ∀ f ∈ first :: rest, separator ∉ f.value)
    (hcount : (bodyFields rest).length ≤ 253)
    (hlen : (wire separator first rest).length < 2 ^ 31) :
    FixMessage.parse (wire separator first rest) separator =
      .ok ⟨wire separator first rest, wireFields separator first rest⟩ := by
  refine (Layout.parse_eq_ok_iff hlen heq).mpr ⟨wireLayout first rest hsep hfree,
    wireLayout_valid hsep hfree hcount, wireLayout_text hsep hfree, ?_⟩
  rw [wireLayout_fields]

theorem bodyFields_wireFields (separator : UInt8) (first : Field) (rest : List Field) :
    bodyFields (wireFields separator first rest).tail = bodyFields rest := by
  simp [wireFields, coveredFields, bodyFields, isFraming, checksumField]

/-- What the serializer writes, the parser reads back field by field, and writing the
parsed fields again gives the same bytes. -/
theorem serializeMessage_roundTrip {first : Field} {rest : List Field} {buffer s : Bytes}
    (heq : separator ≠ equals) (hdigit : isDigit separator = false)
    (hfree : ∀ f ∈ first :: rest, separator ∉ f.value)
    (hcount : (bodyFields rest).length ≤ 253) (hbuffer : buffer.length < 2 ^ 31)
    (hs : serializeMessage (first :: rest) buffer separator = .ok s) :
    ∃ (msg : FixMessage) (covered : Bytes), FixMessage.parse s separator = .ok msg ∧
      msg.fields = ⟨8, first.value⟩ :: ⟨9, numeral (bodyText separator rest).length⟩ ::
        (bodyFields rest ++ [⟨10, threeDigits ((covered.map UInt8.toNat).sum % 256)⟩]) ∧
      s = covered ++ Field.text separator (checksumField covered) ∧
      ∀ buffer' : Bytes, s.length ≤ buffer'.length → buffer'.length < 2 ^ 31 →
        serializeMessage msg.fields buffer' separator = .ok s := by
  obtain ⟨_, hfit, rfl⟩ := (serializeMessage_eq_ok_iff first rest hbuffer separator).mp hs
  have hparse := parse_wire heq hdigit hfree hcount (by omega)
  refine ⟨_, coveredText separator first rest, hparse, rfl, wire_eq separator first rest, ?_⟩
  intro buffer' hfit' hbuffer'
  have hbody := bodyFields_wireFields separator first rest
  have hwire : wire separator ⟨8, first.value⟩ (wireFields separator first rest).tail =
      wire separator first rest := by
    simp only [wire, wireFields, coveredText, coveredFields, bodyText] at hbody ⊢
    rw [hbody]
  refine (serializeMessage_eq_ok_iff ⟨8, first.value⟩ (wireFields separator first rest).tail
    hbuffer' separator).mpr ⟨rfl, ?_, hwire.symm⟩
  rwa [hwire]

theorem serializeMessage_roundTrip_heartbeat :
    ∃ (msg : FixMessage) (covered : Bytes),
      FixMessage.parse (ascii "8=F|9=16|35=0|58=|-1=a=b|10=030|") 124 = .ok msg ∧
      msg.fields = ⟨8, ascii "F"⟩ :: ⟨9, ascii "16"⟩ ::
        ([⟨35, ascii "0"⟩, ⟨58, []⟩, ⟨-1, ascii "a=b"⟩] ++
          [⟨10, threeDigits ((covered.map UInt8.toNat).sum % 256)⟩]) ∧
      ascii "8=F|9=16|35=0|58=|-1=a=b|10=030|" =
        covered ++ Field.text 124 (checksumField covered) ∧
      ∀ buffer' : Bytes, 32 ≤ buffer'.length → buffer'.length < 2 ^ 31 →
        serializeMessage msg.fields buffer' 124 =
          .ok (ascii "8=F|9=16|35=0|58=|-1=a=b|10=030|") :=
  @serializeMessage_roundTrip 124 ⟨8, ascii "F"⟩
    [⟨35, ascii "0"⟩, ⟨10, ascii "000"⟩, ⟨58, []⟩, ⟨-1, ascii "a=b"⟩] (List.replicate 64 0) _
    (by decide) (by decide) (by decide) (by decide) (by decide) (by decide)

end Fixure
