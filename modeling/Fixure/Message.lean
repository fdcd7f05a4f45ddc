import Fixure.Search
import Fixure.Decimal

/-!
# FIX messages and their parser

Texts are byte lists, a position that the source calls `npos` is `none`, and an
`int` is an `Int32`. The loop of `parse` counts down the free places of the
256-entry field array, so it needs no other bound.
-/

namespace Fixure
open Search Decimal

abbrev Bytes := List UInt8

/-- A string literal of the source, byte for byte. -/
def ascii (s : String) : Bytes := s.toList.map Char.toUInt8

def soh : UInt8 := 1
def equals : UInt8 := 61
def maxFields : ℕ := 256

inductive ParseError
  | ok
  | emptyBuffer
  | invalidBeginString
  | missingBodyLength
  | invalidBodyLength
  | bodyLengthMismatch
  | missingChecksum
  | invalidChecksum
  | checksumMismatch
  | invalidFormat
  | tooManyFields
  | tagNotFound
  deriving DecidableEq

def ParseError.toString : ParseError → Bytes
  | .ok => ascii "Ok"
  | .emptyBuffer => ascii "EmptyBuffer"
  | .invalidBeginString => ascii "InvalidBeginString"
  | .missingBodyLength => ascii "MissingBodyLength"
  | .invalidBodyLength => ascii "InvalidBodyLength"
  | .bodyLengthMismatch => ascii "BodyLengthMismatch"
  | .missingChecksum => ascii "MissingChecksum"
  | .invalidChecksum => ascii "InvalidChecksum"
  | .checksumMismatch => ascii "ChecksumMismatch"
  | .invalidFormat => ascii "InvalidFormat"
  | .tooManyFields => ascii "TooManyFields"
  | .tagNotFound => ascii "TagNotFound"

structure Field where
  tag : Int32 := 0
  value : Bytes := []
  deriving DecidableEq

/-- `fields` is the used part of the source's field array. -/
structure FixMessage where
  raw : Bytes
  fields : List Field
  deriving DecidableEq

/-! ### The library calls -/

inductive FromChars
  | parsed (value : Int32) (rest : Bytes)
  | invalidArgument
  | resultOutOfRange
  deriving DecidableEq

def fromChars (text : Bytes) : FromChars :=
  match readInt text with
  | none => .invalidArgument
  | some (n, rest) =>
    if -2 ^ 31 ≤ n ∧ n < 2 ^ 31 then .parsed (Int32.ofInt n) rest else .resultOutOfRange

def substr (text : Bytes) (pos count : ℕ) : Bytes := (text.drop pos).take count

def sizeSub (a b : ℕ) : ℕ := if b ≤ a then a - b else 2 ^ 64 - (b - a)

def byteSum (bytes : Bytes) : UInt32 := bytes.foldl (fun acc b => acc + b.toUInt32) 0

theorem fromChars_eq_parsed_iff {text rest : Bytes} {n : Int32} :
    fromChars text = .parsed n rest ↔
      ∃ lit, text = lit ++ rest ∧ Spells lit n.toInt ∧ NoDigitAhead rest := by
  rw [fromChars, ← readInt_eq_some_iff]
  cases hr : readInt text with
  | none => simp
  | some r =>
    obtain ⟨m, rest'⟩ := r
    simp only [Option.some.injEq, Prod.mk.injEq]
    split_ifs with hrange
    · have hm : (Int32.ofInt m).toInt = m := Int32.toInt_ofInt_of_le hrange.1 hrange.2
      rw [FromChars.parsed.injEq, ← Int32.toInt_inj, hm]
    · constructor
      · intro h
        cases h
      · rintro ⟨rfl, _⟩
        exact absurd ⟨n.le_toInt, n.toInt_lt⟩ hrange

theorem exists_fromChars_iff {text : Bytes} {n : Int32} :
    (∃ rest, fromChars text = .parsed n rest) ↔ Leads text n.toInt := by
  simp only [fromChars_eq_parsed_iff, Leads]
  exact exists_comm

theorem exists_fromChars_of_leads {text : Bytes} {n : ℤ} (h : Leads text n) (hlo : -2 ^ 31 ≤ n)
    (hhi : n < 2 ^ 31) : ∃ rest, fromChars text = .parsed (Int32.ofInt n) rest :=
  exists_fromChars_iff.mpr (by rwa [Int32.toInt_ofInt_of_le hlo hhi])

theorem equals_notMem_of_spells {lit : Bytes} {n : ℤ} (h : Spells lit n) : equals ∉ lit := by
  intro hm
  rcases h.mem hm with h | h
  · exact absurd h (by decide)
  · exact absurd h (by decide)

theorem foldl_add_toNat (bytes : Bytes) (acc : UInt32) :
    (bytes.foldl (fun acc b => acc + b.toUInt32) acc).toNat % 256 =
      (acc.toNat + (bytes.map UInt8.toNat).sum) % 256 := by
  induction bytes generalizing acc with
  | nil => simp
  | cons b bytes ih =>
    rw [List.foldl_cons, ih, List.map_cons, List.sum_cons, UInt32.toNat_add, UInt8.toNat_toUInt32]
    omega

theorem byteSum_mod (bytes : Bytes) :
    (byteSum bytes % 256).toNat = (bytes.map UInt8.toNat).sum % 256 := by
  rw [UInt32.toNat_mod]
  simpa [byteSum] using foldl_add_toNat bytes 0

/-! ### Lookups -/

def FixMessage.getField (msg : FixMessage) (tag : Int32) : Option Bytes :=
  (msg.fields.find? fun f => f.tag = tag).map Field.value

def FixMessage.getInt (msg : FixMessage) (tag : Int32) : Option Int32 :=
  match msg.getField tag with
  | none => none
  | some val =>
    match fromChars val with
    | .parsed res _ => some res
    | _ => none

theorem getField_ne_none_iff {msg : FixMessage} {tag : Int32} :
    msg.getField tag ≠ none ↔ tag ∈ msg.fields.map Field.tag := by
  simp [FixMessage.getField]

theorem getInt_eq_some_iff {msg : FixMessage} {tag n : Int32} :
    msg.getInt tag = some n ↔ ∃ val, msg.getField tag = some val ∧ Leads val n.toInt := by
  rw [FixMessage.getInt]
  cases hf : msg.getField tag with
  | none => simp
  | some val =>
    simp only [Option.some.injEq, exists_eq_left', ← exists_fromChars_iff]
    cases fromChars val <;> simp

/-! ### Parsing -/

/-- The local variables of the parsing loop; `field_idx` is the length of `fields`. -/
structure Cursor where
  pos : ℕ := 0
  fields : List Field := []
  bodyStartPos : Option ℕ := none
  bodyEndPos : Option ℕ := none
  checksumStartPos : Option ℕ := none
  deriving DecidableEq

def isFiller (separator b : UInt8) : Bool :=
  b = separator || b = 13 || b = 10 || b = 32

/-- What one pass of the loop records about the field `tag=value` that ends at `soh`. -/
def Cursor.push (c : Cursor) (tag : Int32) (value : Bytes) (soh : ℕ) : Cursor where
  pos := soh + 1
  fields := c.fields ++ [⟨tag, value⟩]
  bodyStartPos := if c.fields.length = 1 then some (soh + 1) else c.bodyStartPos
  bodyEndPos := if tag = 10 then some c.pos else c.bodyEndPos
  checksumStartPos := if tag = 10 then some c.pos else c.checksumStartPos

/-- One pass of the loop after the field limit was checked; `none` is its `break`. -/
def parseField (raw : Bytes) (separator : UInt8) (c : Cursor) :
    Except ParseError (Option Cursor) :=
  match findFrom [equals] raw c.pos with
  | none =>
    if (raw.drop c.pos).all (isFiller separator) then .ok none else .error .invalidFormat
  | some eq =>
    match findFrom [separator] raw eq with
    | none => .error .invalidFormat
    | some soh =>
      let tagStr := substr raw c.pos (eq - c.pos)
      let valStr := substr raw (eq + 1) (sizeSub soh (eq + 1))
      match fromChars tagStr with
      | .parsed tag [] =>
        if c.fields.length = 0 ∧ tag ≠ 8 then .error .invalidBeginString
        else if c.fields.length = 1 ∧ tag ≠ 9 then .error .missingBodyLength
        else .ok (some (c.push tag valStr soh))
      | _ => .error .invalidFormat

def parseLoop (raw : Bytes) (separator : UInt8) : ℕ → Cursor → Except ParseError Cursor
  | 0, c => if c.pos < raw.length then .error .tooManyFields else .ok c
  | slots + 1, c =>
    if c.pos < raw.length then
      match parseField raw separator c with
      | .error e => .error e
      | .ok none => .ok c
      | .ok (some next) => parseLoop raw separator slots next
    else .ok c

def verify (msg : FixMessage) (c : Cursor) : Except ParseError FixMessage :=
  if msg.fields.length < 3 then .error .invalidFormat
  else if (msg.fields.getLastD {}).tag ≠ 10 then .error .missingChecksum
  else
    match msg.getInt 9 with
    | none => .error .invalidBodyLength
    | some expectedBodyLen =>
      match c.bodyStartPos, c.bodyEndPos with
      | some bodyStart, some bodyEnd =>
        if Int32.ofNat (sizeSub bodyEnd bodyStart) ≠ expectedBodyLen then
          .error .bodyLengthMismatch
        else
          match c.checksumStartPos with
          | none => .error .missingChecksum
          | some checksumStart =>
            let calculated := byteSum (msg.raw.take checksumStart) % 256
            match fromChars (msg.fields.getLastD {}).value with
            | .parsed expected _ =>
              if expected < 0 ∨ 255 < expected then .error .invalidChecksum
              else if calculated ≠ expected.toUInt32 then .error .checksumMismatch
              else .ok msg
            | _ => .error .invalidChecksum
      | _, _ => .error .invalidFormat

def FixMessage.parse (raw : Bytes) (separator : UInt8) : Except ParseError FixMessage :=
  if raw = [] then .error .emptyBuffer
  else
    match parseLoop raw separator maxFields {} with
    | .error e => .error e
    | .ok c => verify ⟨raw, c.fields⟩ c

/-! ### The frame of a parsed message -/

/-- The first two fields are those the parser insists on. -/
structure Headed (fields : List Field) : Prop where
  first : ∀ f ∈ fields[0]?, f.tag = 8
  second : ∀ f ∈ fields[1]?, f.tag = 9

section Frame
variable {raw : Bytes} {separator : UInt8} {c c' : Cursor}

theorem headed_concat {fields : List Field} {f : Field} (h : Headed fields)
    (h8 : fields.length = 0 → f.tag = 8) (h9 : fields.length = 1 → f.tag = 9) :
    Headed (fields ++ [f]) := by
  constructor
  · intro g hg
    cases fields with
    | nil =>
      obtain rfl := Option.some.inj hg
      exact h8 rfl
    | cons a fields => exact h.first g hg
  · intro g hg
    cases fields with
    | nil => cases hg
    | cons a fields =>
      cases fields with
      | nil =>
        obtain rfl := Option.some.inj hg
        exact h9 rfl
      | cons b fields => exact h.second g hg

theorem parseField_headed (h : parseField raw separator c = .ok (some c')) (hc : Headed c.fields) :
    Headed c'.fields ∧ c'.fields.length = c.fields.length + 1 := by
  rw [parseField] at h
  cases heq : findFrom [equals] raw c.pos with
  | none =>
    simp only [heq] at h
    split_ifs at h
    cases h
  | some eq =>
    simp only [heq] at h
    cases hsoh : findFrom [separator] raw eq with
    | none =>
      simp only [hsoh] at h
      cases h
    | some soh =>
      simp only [hsoh] at h
      split at h
      next tag _ =>
        split_ifs at h with h8 h9
        obtain rfl := Option.some.inj (Except.ok.inj h)
        rw [not_and_not_right] at h8 h9
        exact ⟨headed_concat hc h8 h9, by simp [Cursor.push]⟩
      next => cases h

theorem parseLoop_headed {slots : ℕ} (h : parseLoop raw separator slots c = .ok c')
    (hc : Headed c.fields) :
    Headed c'.fields ∧ c'.fields.length ≤ c.fields.length + slots := by
  induction slots generalizing c with
  | zero =>
    rw [parseLoop] at h
    split_ifs at h
    obtain rfl := Except.ok.inj h
    exact ⟨hc, le_rfl⟩
  | succ slots ih =>
    rw [parseLoop] at h
    split_ifs at h
    · cases hf : parseField raw separator c with
      | error e =>
        simp only [hf] at h
        cases h
      | ok next =>
        cases next with
        | none =>
          simp only [hf] at h
          obtain rfl := Except.ok.inj h
          exact ⟨hc, by omega⟩
        | some next =>
          simp only [hf] at h
          obtain ⟨hnext, hlen⟩ := parseField_headed hf hc
          obtain ⟨hc', hle⟩ := ih h hnext
          exact ⟨hc', by omega⟩
    · obtain rfl := Except.ok.inj h
      exact ⟨hc, by omega⟩

theorem verify_frame {msg msg' : FixMessage} (h : verify msg c = .ok msg') :
    msg' = msg ∧ 3 ≤ msg.fields.length ∧ (msg.fields.getLastD {}).tag = 10 := by
  rw [verify] at h
  split_ifs at h with h3 h10
  have hmsg : msg' = msg := by
    cases hlen : msg.getInt 9 with
    | none =>
      simp only [hlen] at h
      cases h
    | some n =>
      simp only [hlen] at h
      split at h
      · split_ifs at h
        split at h
        · cases h
        · split at h
          · split_ifs at h
            exact (Except.ok.inj h).symm
          · cases h
      · cases h
  exact ⟨hmsg, by omega, not_not.mp h10⟩

/-- Every parsed message, whatever the separator, stands between its three framing fields. -/
theorem parse_frame {msg : FixMessage} (h : FixMessage.parse raw separator = .ok msg) :
    ∃ first second body last, msg.fields = first :: second :: (body ++ [last]) ∧
      first.tag = 8 ∧ second.tag = 9 ∧ last.tag = 10 ∧ body.length + 3 ≤ maxFields := by
  rw [FixMessage.parse] at h
  split_ifs at h
  cases hloop : parseLoop raw separator maxFields {} with
  | error e =>
    simp only [hloop] at h
    cases h
  | ok c =>
    simp only [hloop] at h
    obtain ⟨hheaded, hle⟩ := parseLoop_headed hloop ⟨by simp, by simp⟩
    obtain ⟨rfl, h3, h10⟩ := verify_frame h
    match hfields : c.fields with
    | [] => simp [hfields] at h3
    | [_] => simp [hfields] at h3
    | first :: second :: rest =>
      simp only [hfields] at hheaded hle h3 h10
      obtain ⟨body, last, rfl⟩ := (List.eq_nil_or_concat' rest).resolve_left (by
        rintro rfl
        simp at h3)
      refine ⟨first, second, body, last, rfl, hheaded.first first rfl, hheaded.second second rfl,
        ?_, ?_⟩
      · rwa [← List.cons_append, ← List.cons_append, List.getLastD_concat] at h10
      · simp only [List.length_cons, List.length_append, List.length_nil] at hle
        omega

end Frame

end Fixure
