import Fixure.Message

/-!
# Writing a FIX message into a caller's buffer

The serializer writes the body behind a five-digit length, moves it to make the
length fit and then appends the checksum. `wire` is the text that should come out.
`serializeMessage_eq` states which of three endings a buffer below `2 ^ 31` bytes leads to:
the text, no room for it, or the overflow of an `int` sum. The proof follows the writer with
`Holds`, the text in front of its offset, and composes the single writes with `Writes`.
-/

namespace Fixure
open Search Decimal

/-- The error codes of the serializer. `undefinedBehavior` is none of them: it stands for
the overflow of the only `int` sum that can overflow. -/
inductive Errc
  | invalidArgument
  | noBufferSpace
  | valueTooLarge
  | undefinedBehavior
  deriving DecidableEq

def toChars (capacity : ℕ) (n : ℤ) : Option Bytes :=
  if (intNumeral n).length ≤ capacity then some (intNumeral n) else none

def overwrite (buffer : Bytes) (start : ℕ) (s : Bytes) : Bytes :=
  buffer.take start ++ s ++ buffer.drop (start + s.length)

def slice (buffer : Bytes) (first last : ℕ) : Bytes := (buffer.take last).drop first

/-- `std::move` and `std::move_backward` inside one buffer; the direction of the
copy makes overlapping ranges safe. -/
def moveForward (buffer : Bytes) (first last dest : ℕ) : Bytes :=
  overwrite buffer dest (slice buffer first last)

def moveBackward (buffer : Bytes) (first last destEnd : ℕ) : Bytes :=
  overwrite buffer (destEnd - (last - first)) (slice buffer first last)

def sizeOfInt (n : Int32) : ℕ := (n.toInt % 2 ^ 64).toNat

def addInt (a b : Int32) : Option Int32 :=
  if -2 ^ 31 ≤ a.toInt + b.toInt ∧ a.toInt + b.toInt < 2 ^ 31 then some (a + b) else none

/-- The buffer and the offset that the two writing lambdas capture. -/
structure Writer where
  buffer : Bytes
  offset : ℕ

namespace Writer

def writeStr (w : Writer) (s : Bytes) : Option Writer :=
  if w.offset + s.length > w.buffer.length then none
  else some ⟨overwrite w.buffer w.offset s, w.offset + s.length⟩

def put (w : Writer) (b : UInt8) : Option Writer :=
  if w.offset ≥ w.buffer.length then none
  else some ⟨overwrite w.buffer w.offset [b], w.offset + 1⟩

def writeTagVal (separator : UInt8) (tag : Int32) (val : Bytes) (w : Writer) : Option Writer := do
  let tagStr ← toChars 16 tag.toInt
  let w ← w.writeStr tagStr
  let w ← w.put equals
  let w ← w.writeStr val
  w.put separator

def writePlaceholder (separator : UInt8) (w : Writer) : Option Writer := do
  let w ← w.writeStr (ascii "9=00000")
  w.put separator

def writeFields (separator : UInt8) : List Field → Writer → Option Writer
  | [], w => some w
  | f :: fields, w =>
    if f.tag = 8 ∨ f.tag = 9 ∨ f.tag = 10 then writeFields separator fields w
    else do
      let w ← w.writeTagVal separator f.tag f.value
      writeFields separator fields w

def shift (shiftStart : ℕ) (diff : Int32) (w : Writer) : Except Errc Writer :=
  if diff ≠ 0 then
    match addInt (Int32.ofNat w.offset) diff with
    | none => .error .undefinedBehavior
    | some shiftedEnd =>
      if shiftedEnd > Int32.ofNat w.buffer.length then .error .noBufferSpace
      else
        let buffer :=
          if diff > 0 then
            moveBackward w.buffer shiftStart w.offset (w.offset + diff.toInt).toNat
          else moveForward w.buffer shiftStart w.offset (shiftStart + diff.toInt).toNat
        .ok ⟨buffer, sizeOfInt shiftedEnd⟩
  else .ok w

def patchLength (bodyLengthTagPos : ℕ) (bodyLenStr : Bytes) (w : Writer) :
    Except Errc Writer :=
  let diff : Int32 := Int32.ofNat bodyLenStr.length - 5
  match w.shift (bodyLengthTagPos + 2 + 5) diff with
  | .error e => .error e
  | .ok w => .ok ⟨overwrite w.buffer (bodyLengthTagPos + 2) bodyLenStr, w.offset⟩

end Writer

def checksumDigits (checksum : UInt32) : Bytes :=
  [48 + (checksum / 100).toUInt8, 48 + (checksum / 10 % 10).toUInt8, 48 + (checksum % 10).toUInt8]

def serializeMessage (fields : List Field) (buffer : Bytes) (separator : UInt8) :
    Except Errc Bytes :=
  match fields with
  | [] => .error .invalidArgument
  | first :: rest =>
    if first.tag ≠ 8 then .error .invalidArgument
    else
      match Writer.writeTagVal separator 8 first.value ⟨buffer, 0⟩ with
      | none => .error .noBufferSpace
      | some begun =>
        match begun.writePlaceholder separator with
        | none => .error .noBufferSpace
        | some placed =>
          match Writer.writeFields separator rest placed with
          | none => .error .noBufferSpace
          | some written =>
            match toChars 16 (written.offset - placed.offset : ℕ) with
            | none => .error .valueTooLarge
            | some bodyLenStr =>
              match written.patchLength begun.offset bodyLenStr with
              | .error e => .error e
              | .ok patched =>
                let checksum := byteSum (patched.buffer.take patched.offset) % 256
                match patched.writeTagVal separator 10 (checksumDigits checksum) with
                | none => .error .noBufferSpace
                | some done => .ok (done.buffer.take done.offset)

/-! ### The text that should come out -/

def Field.text (separator : UInt8) (f : Field) : Bytes :=
  intNumeral f.tag.toInt ++ equals :: (f.value ++ [separator])

def isFraming (tag : Int32) : Bool := tag = 8 || tag = 9 || tag = 10

def bodyFields (rest : List Field) : List Field := rest.filter fun f => !isFraming f.tag

def bodyText (separator : UInt8) (rest : List Field) : Bytes :=
  (bodyFields rest).flatMap (Field.text separator)

def coveredFields (separator : UInt8) (first : Field) (rest : List Field) : List Field :=
  ⟨8, first.value⟩ :: ⟨9, numeral (bodyText separator rest).length⟩ :: bodyFields rest

def coveredText (separator : UInt8) (first : Field) (rest : List Field) : Bytes :=
  (coveredFields separator first rest).flatMap (Field.text separator)

def threeDigits (n : ℕ) : Bytes :=
  [UInt8.ofNat (48 + n / 100), UInt8.ofNat (48 + n / 10 % 10), UInt8.ofNat (48 + n % 10)]

def checksumField (covered : Bytes) : Field :=
  ⟨10, threeDigits ((covered.map UInt8.toNat).sum % 256)⟩

def wireFields (separator : UInt8) (first : Field) (rest : List Field) : List Field :=
  coveredFields separator first rest ++ [checksumField (coveredText separator first rest)]

def wire (separator : UInt8) (first : Field) (rest : List Field) : Bytes :=
  (wireFields separator first rest).flatMap (Field.text separator)

/-! ### Single writes -/

theorem overwrite_length {buffer s : Bytes} {start : ℕ} (h : start + s.length ≤ buffer.length) :
    (overwrite buffer start s).length = buffer.length := by
  simp [overwrite]
  omega

theorem overwrite_append {a b s c : Bytes} (h : s.length = b.length) :
    overwrite (a ++ (b ++ c)) a.length s = a ++ (s ++ c) := by
  rw [overwrite, List.take_left, h, ← List.append_assoc a b c, ← List.length_append,
    List.drop_left, List.append_assoc]

namespace Writer

/-- `text` stands in front of the offset of a writer over a buffer of `size` bytes. -/
structure Holds (w : Writer) (text : Bytes) (size : ℕ) : Prop where
  split : ∃ tail, w.buffer = text ++ tail
  offset_eq : w.offset = text.length
  size_eq : w.buffer.length = size

theorem Holds.le {w : Writer} {text : Bytes} {size : ℕ} (h : w.Holds text size) :
    text.length ≤ size := by
  obtain ⟨tail, htail⟩ := h.split
  rw [← h.size_eq, htail, List.length_append]
  omega

theorem Holds.take {w : Writer} {text : Bytes} {size : ℕ} (h : w.Holds text size) :
    w.buffer.take w.offset = text := by
  obtain ⟨tail, htail⟩ := h.split
  rw [htail, h.offset_eq, List.take_left]

/-- `f` appends `s`, and fails exactly when there is no room for it. -/
def Writes (f : Writer → Option Writer) (s : Bytes) : Prop :=
  ∀ (w : Writer) (text : Bytes) (size : ℕ), w.Holds text size →
    ((text ++ s).length ≤ size → ∃ w', f w = some w' ∧ w'.Holds (text ++ s) size) ∧
    (size < (text ++ s).length → f w = none)

theorem Writes.nil : Writes some [] := by
  intro w text size h
  refine ⟨fun _ => ⟨w, rfl, by rwa [List.append_nil]⟩, fun hlt => ?_⟩
  rw [List.append_nil] at hlt
  exact absurd h.le (not_le.mpr hlt)

theorem Writes.bind {f g : Writer → Option Writer} {s t : Bytes} (hf : Writes f s)
    (hg : Writes g t) : Writes (fun w => (f w).bind g) (s ++ t) := by
  intro w text size h
  rw [← List.append_assoc]
  constructor
  · intro hle
    obtain ⟨w', hw', h'⟩ := (hf w text size h).1 (by simp at hle ⊢; omega)
    obtain ⟨w'', hw'', h''⟩ := (hg w' (text ++ s) size h').1 hle
    exact ⟨w'', by simp [hw', hw''], h''⟩
  · intro hlt
    by_cases hs : (text ++ s).length ≤ size
    · obtain ⟨w', hw', h'⟩ := (hf w text size h).1 hs
      simp [hw', (hg w' (text ++ s) size h').2 hlt]
    · simp [(hf w text size h).2 (not_le.mp hs)]

theorem Writes.cases {f : Writer → Option Writer} {s : Bytes} (hf : Writes f s) {w : Writer}
    {text : Bytes} {size : ℕ} (h : w.Holds text size) :
    (∃ w', f w = some w' ∧ w'.Holds (text ++ s) size) ∨
      (f w = none ∧ size < (text ++ s).length) := by
  rcases le_or_gt (text ++ s).length size with hle | hlt
  · exact Or.inl ((hf w text size h).1 hle)
  · exact Or.inr ⟨(hf w text size h).2 hlt, hlt⟩

theorem writes_writeStr (s : Bytes) : Writes (fun w => w.writeStr s) s := by
  intro w text size ⟨⟨tail, htail⟩, hoff, hsize⟩
  have hlen : size = text.length + tail.length := by
    rw [← hsize, htail, List.length_append]
  rw [List.length_append]
  constructor
  · intro hle
    refine ⟨_, if_neg (by omega), ⟨⟨tail.drop s.length, ?_⟩, by simp [hoff], ?_⟩⟩
    · simp only [htail, hoff]
      rw [← List.take_append_drop s.length tail, overwrite_append (by simp; omega)]
      simp
    · simp only
      rw [overwrite_length (by omega), hsize]
  · intro hlt
    exact if_pos (by omega)

theorem put_eq_writeStr (w : Writer) (b : UInt8) : w.put b = w.writeStr [b] := by
  simp only [put, writeStr, List.length_singleton, ge_iff_le, gt_iff_lt, Nat.lt_add_one_iff]

theorem writes_put (b : UInt8) : Writes (fun w => w.put b) [b] := by
  simpa only [put_eq_writeStr] using writes_writeStr [b]

theorem toChars_tag (tag : Int32) : toChars 16 tag.toInt = some (intNumeral tag.toInt) := by
  have hlo := tag.le_toInt
  have hhi := tag.toInt_lt
  have hn : (numeral tag.toInt.natAbs).length ≤ 10 :=
    (numeral_length_le_iff (by decide)).mpr (by omega)
  rw [toChars, if_pos]
  rw [intNumeral]
  split_ifs
  · simp
    omega
  · omega

theorem writes_writeTagVal (separator : UInt8) (tag : Int32) (val : Bytes) :
    Writes (writeTagVal separator tag val) (Field.text separator ⟨tag, val⟩) := by
  have h := (writes_writeStr (intNumeral tag.toInt)).bind
    ((writes_put equals).bind ((writes_writeStr val).bind (writes_put separator)))
  intro w text size hw
  simpa [writeTagVal, toChars_tag, Field.text] using h w text size hw

theorem writes_writePlaceholder (separator : UInt8) :
    Writes (writePlaceholder separator) (ascii "9=00000" ++ [separator]) := by
  intro w text size hw
  simpa [writePlaceholder] using
    ((writes_writeStr (ascii "9=00000")).bind (writes_put separator)) w text size hw

theorem isFraming_iff (tag : Int32) : isFraming tag = true ↔ tag = 8 ∨ tag = 9 ∨ tag = 10 := by
  simp [isFraming, or_assoc]

theorem writes_writeFields (separator : UInt8) (rest : List Field) :
    Writes (writeFields separator rest) (bodyText separator rest) := by
  induction rest with
  | nil => exact Writes.nil
  | cons f rest ih =>
    by_cases hf : f.tag = 8 ∨ f.tag = 9 ∨ f.tag = 10
    · have hbody : bodyText separator (f :: rest) = bodyText separator rest := by
        rw [bodyText, bodyFields, List.filter_cons_of_neg (by simp [(isFraming_iff f.tag).mpr hf])]
        rfl
      have hstep : writeFields separator (f :: rest) = writeFields separator rest := by
        funext w
        rw [writeFields, if_pos hf]
      rw [hbody, hstep]
      exact ih
    · have hframing : isFraming f.tag = false := by
        rw [← Bool.not_eq_true, isFraming_iff]
        exact hf
      have hbody : bodyText separator (f :: rest) =
          Field.text separator f ++ bodyText separator rest := by
        rw [bodyText, bodyFields, List.filter_cons_of_pos (by simp [hframing])]
        rfl
      have hstep : writeFields separator (f :: rest) =
          fun w => (writeTagVal separator f.tag f.value w).bind (writeFields separator rest) := by
        funext w
        rw [writeFields, if_neg hf]
        rfl
      rw [hbody, hstep]
      exact (writes_writeTagVal separator f.tag f.value).bind ih

/-! ### Patching the length -/

theorem overwrite_overwrite {pre old post tail new : Bytes} {buffer : Bytes}
    (hb : buffer = pre ++ (old ++ (post ++ tail)))
    (hfit : (pre ++ (new ++ post)).length ≤ buffer.length) :
    ∃ tail', overwrite (overwrite buffer (pre.length + new.length) post) pre.length new =
      pre ++ (new ++ post) ++ tail' := by
  refine ⟨buffer.drop (pre.length + new.length + post.length), ?_⟩
  have htake : buffer.take (pre.length + new.length) =
      pre ++ (buffer.drop pre.length).take new.length := by
    rw [List.take_add, hb, List.take_left]
  have hlen : ((buffer.drop pre.length).take new.length).length = new.length := by
    simp at hfit ⊢
    omega
  have hmoved : overwrite buffer (pre.length + new.length) post =
      pre ++ ((buffer.drop pre.length).take new.length ++
        (post ++ buffer.drop (pre.length + new.length + post.length))) := by
    rw [overwrite, htake]
    simp only [List.append_assoc]
  rw [hmoved, overwrite_append hlen.symm]
  simp only [List.append_assoc]

theorem Holds.slice_eq {w : Writer} {pre post : Bytes} {size : ℕ}
    (h : w.Holds (pre ++ post) size) : slice w.buffer pre.length w.offset = post := by
  rw [slice, h.take, List.drop_left]

theorem diff_toInt {n : ℕ} (hn : n ≤ 16) : (Int32.ofNat n - 5).toInt = (n : ℤ) - 5 := by
  interval_cases n <;> rfl

theorem addInt_eq_some {a b : Int32} {n : ℤ} (hn : a.toInt + b.toInt = n) (hlo : -2 ^ 31 ≤ n)
    (hhi : n < 2 ^ 31) : ∃ c, addInt a b = some c ∧ c.toInt = n := by
  refine ⟨a + b, if_pos (by omega), ?_⟩
  rw [Int32.toInt_add, hn]
  exact Int.bmod_eq_of_le (by omega) (by omega)

theorem sizeOfInt_of_toInt {c : Int32} {n : ℕ} (h : c.toInt = n) : sizeOfInt c = n := by
  have := c.toInt_lt
  rw [sizeOfInt, h]
  omega

theorem patchLength_ok {w : Writer} {pre post new : Bytes} {size : ℕ}
    (h : w.Holds (pre ++ (ascii "00000" ++ post)) size) (hsize : size < 2 ^ 31)
    (hnew : new.length ≤ 16) {bodyLengthTagPos : ℕ} (hpos : bodyLengthTagPos + 2 = pre.length)
    (hfit : (pre ++ (new ++ post)).length ≤ size) :
    ∃ w', w.patchLength bodyLengthTagPos new = .ok w' ∧ w'.Holds (pre ++ (new ++ post)) size := by
  obtain ⟨tail, htail⟩ := h.split
  have hoff := h.offset_eq
  have hsz := h.size_eq
  have hle := h.le
  have hzeros : (ascii "00000").length = 5 := rfl
  have hdiff := diff_toInt hnew
  have hbuffer : w.buffer = pre ++ (ascii "00000" ++ (post ++ tail)) := by
    simpa using htail
  simp only [List.length_append, hzeros] at hoff hle hfit
  by_cases h0 : Int32.ofNat new.length - 5 = 0
  · have hfive : new.length = 5 := by
      rw [h0] at hdiff
      simp at hdiff
      omega
    refine ⟨_, by simp only [patchLength, shift, h0]; rfl, ⟨⟨tail, ?_⟩, ?_, ?_⟩⟩
    · simp only [hpos]
      rw [hbuffer, overwrite_append (by rw [hfive, hzeros])]
      simp
    · simp only [hoff, List.length_append]
      omega
    · simp only
      rw [overwrite_length (by omega), hsz]
  · have hofN : (Int32.ofNat w.offset).toInt = w.offset := Int32.toInt_ofNat_of_lt (by omega)
    have hszN : (Int32.ofNat w.buffer.length).toInt = w.buffer.length :=
      Int32.toInt_ofNat_of_lt (by omega)
    obtain ⟨c, hc, hcn⟩ := addInt_eq_some (a := Int32.ofNat w.offset)
      (b := Int32.ofNat new.length - 5) (n := (pre ++ (new ++ post)).length)
      (by rw [hofN, hdiff, hoff]; simp; omega) (by omega) (by simp; omega)
    have hroom : ¬ c > Int32.ofNat w.buffer.length := by
      rw [gt_iff_lt, Int32.lt_iff_toInt_lt, hcn, hszN]
      simp
      omega
    have hslice : slice w.buffer (pre.length + 5) w.offset = post := by
      have h' : w.Holds ((pre ++ ascii "00000") ++ post) size := by
        rwa [List.append_assoc]
      simpa [hzeros] using h'.slice_eq
    have hmoved : (if Int32.ofNat new.length - 5 > 0 then
          moveBackward w.buffer (pre.length + 5) w.offset
            (w.offset + (Int32.ofNat new.length - 5).toInt).toNat
        else moveForward w.buffer (pre.length + 5) w.offset
          ((pre.length + 5 : ℕ) + (Int32.ofNat new.length - 5).toInt).toNat) =
        overwrite w.buffer (pre.length + new.length) post := by
      rw [hdiff]
      split_ifs
      · rw [moveBackward, hslice]
        congr 1
        omega
      · rw [moveForward, hslice]
        congr 1
        omega
    have hroom' : (pre ++ (new ++ post)).length ≤ w.buffer.length := by
      simp
      omega
    obtain ⟨tail', htail'⟩ := overwrite_overwrite hbuffer hroom'
    refine ⟨_, by simp only [patchLength, shift, ne_eq, h0, not_false_eq_true, if_true, hc,
      if_neg hroom, hpos, hmoved]; rfl, ⟨⟨tail', htail'⟩, sizeOfInt_of_toInt hcn, ?_⟩⟩
    rw [overwrite_length, overwrite_length, hsz]
    · omega
    · rw [overwrite_length] <;> omega

/-- What does not fit is refused, unless the sum with the offset is no `int`. -/
theorem patchLength_error {w : Writer} {pre post new : Bytes} {size : ℕ}
    (h : w.Holds (pre ++ (ascii "00000" ++ post)) size) (hsize : size < 2 ^ 31)
    (hnew : new.length ≤ 16) (bodyLengthTagPos : ℕ)
    (hfit : size < (pre ++ (new ++ post)).length) :
    w.patchLength bodyLengthTagPos new =
      .error (if 2 ^ 31 ≤ (pre ++ (new ++ post)).length then .undefinedBehavior
        else .noBufferSpace) := by
  have hoff := h.offset_eq
  have hsz := h.size_eq
  have hle := h.le
  have hzeros : (ascii "00000").length = 5 := rfl
  have hdiff := diff_toInt hnew
  simp only [List.length_append, hzeros] at hoff hle hfit
  have h0 : Int32.ofNat new.length - 5 ≠ 0 := by
    intro h0
    rw [h0] at hdiff
    simp at hdiff
    omega
  have hofN : (Int32.ofNat w.offset).toInt = w.offset := Int32.toInt_ofNat_of_lt (by omega)
  have hszN : (Int32.ofNat w.buffer.length).toInt = w.buffer.length :=
    Int32.toInt_ofNat_of_lt (by omega)
  simp only [patchLength, shift, ne_eq, h0, not_false_eq_true, if_true, List.length_append]
  by_cases hover : 2 ^ 31 ≤ pre.length + (new.length + post.length)
  · have hnone : addInt (Int32.ofNat w.offset) (Int32.ofNat new.length - 5) = none := by
      apply if_neg
      rw [hofN, hdiff]
      omega
    simp only [hnone, if_pos hover]
  · obtain ⟨c, hc, hcn⟩ := addInt_eq_some (a := Int32.ofNat w.offset)
      (b := Int32.ofNat new.length - 5) (n := w.offset + (new.length - 5))
      (by rw [hofN, hdiff]) (by omega) (by omega)
    have hroom : c > Int32.ofNat w.buffer.length := by
      rw [gt_iff_lt, Int32.lt_iff_toInt_lt, hcn, hszN]
      omega
    simp only [hc, if_pos hroom, if_neg hover]

end Writer

/-! ### The finished message -/

theorem checksumDigits_ofNat : ∀ n < 256, checksumDigits (UInt32.ofNat n) = threeDigits n := by
  decide +kernel

theorem checksumDigits_eq (covered : Bytes) :
    checksumDigits (byteSum covered % 256) = (checksumField covered).value := by
  have hlt : (covered.map UInt8.toNat).sum % 256 < 256 := Nat.mod_lt _ (by decide)
  rw [checksumField, ← checksumDigits_ofNat _ hlt, ← byteSum_mod, UInt32.ofNat_toNat]

theorem isDigit_of_mem_threeDigits {n : ℕ} (hn : n < 256) {d : UInt8} (hd : d ∈ threeDigits n) :
    isDigit d = true := by
  simp only [threeDigits, List.mem_cons, List.not_mem_nil, or_false] at hd
  rcases hd with rfl | rfl | rfl
  · exact isDigit_digit (by omega)
  · exact isDigit_digit (by omega)
  · exact isDigit_digit (by omega)

theorem coveredText_eq (separator : UInt8) (first : Field) (rest : List Field) :
    coveredText separator first rest =
      (Field.text separator ⟨8, first.value⟩ ++ ascii "9=") ++
        (numeral (bodyText separator rest).length ++ (separator :: bodyText separator rest)) := by
  have h9 : intNumeral 9 = ascii "9" := by decide
  have heq : ascii "9=" = ascii "9" ++ [equals] := by decide
  simp [coveredText, coveredFields, Field.text, bodyText, h9, heq]

theorem wire_eq (separator : UInt8) (first : Field) (rest : List Field) :
    wire separator first rest = coveredText separator first rest ++
      Field.text separator (checksumField (coveredText separator first rest)) := by
  simp [wire, wireFields, coveredText]

theorem numeral_length_pos (n : ℕ) : 0 < (numeral n).length :=
  List.length_pos_iff.mpr (numeral_ne_nil n)

theorem toChars_length {n : ℕ} (hn : n < 2 ^ 31) : toChars 16 (n : ℤ) = some (numeral n) := by
  have hlen : (numeral n).length ≤ 10 := (numeral_length_le_iff (by decide)).mpr (by omega)
  have htext : intNumeral n = numeral n := by
    rw [intNumeral, if_neg (by omega), Int.natAbs_natCast]
  rw [toChars, htext, if_pos (by omega)]

/-- The text before the placeholder is exchanged for the length of the body. -/
def draftText (separator : UInt8) (first : Field) (rest : List Field) : Bytes :=
  Field.text separator ⟨8, first.value⟩ ++ (ascii "9=00000" ++ [separator]) ++
    bodyText separator rest

theorem draftText_length_lt (separator : UInt8) (first : Field) (rest : List Field) :
    (draftText separator first rest).length < (wire separator first rest).length := by
  have hpos := numeral_length_pos (bodyText separator rest).length
  have h10 : intNumeral 10 = ascii "10" := by decide
  have hlen : (ascii "9=").length = 2 ∧ (ascii "9=00000").length = 7 ∧ (ascii "10").length = 2 :=
    ⟨rfl, rfl, rfl⟩
  simp [draftText, wire_eq, coveredText_eq, Field.text, checksumField, threeDigits, h10, hlen]
  omega

/-- The draft fits, but its length with the real body length is no `int`. -/
def Overflows (separator : UInt8) (first : Field) (rest : List Field) (size : ℕ) : Prop :=
  (draftText separator first rest).length ≤ size ∧
    2 ^ 31 ≤ (coveredText separator first rest).length

instance (separator : UInt8) (first : Field) (rest : List Field) (size : ℕ) :
    Decidable (Overflows separator first rest size) :=
  inferInstanceAs (Decidable (_ ∧ _))

open Writer in
/-- The three ways in which the serializer ends. -/
theorem serializeMessage_eq {first : Field} (h8 : first.tag = 8) (rest : List Field)
    {buffer : Bytes} (hbuffer : buffer.length < 2 ^ 31) (separator : UInt8) :
    serializeMessage (first :: rest) buffer separator =
      if (wire separator first rest).length ≤ buffer.length then .ok (wire separator first rest)
      else if Overflows separator first rest buffer.length then .error .undefinedBehavior
      else .error .noBufferSpace := by
  rw [serializeMessage]
  simp only [h8, ne_eq, not_true_eq_false, if_false]
  have hstart : Holds ⟨buffer, 0⟩ [] buffer.length := ⟨⟨buffer, rfl⟩, rfl, rfl⟩
  have hlong := draftText_length_lt separator first rest
  have hsmall : buffer.length < (draftText separator first rest).length →
      (if (wire separator first rest).length ≤ buffer.length then
        .ok (wire separator first rest)
      else if Overflows separator first rest buffer.length then .error .undefinedBehavior
      else .error .noBufferSpace : Except Errc Bytes) = .error .noBufferSpace := by
    intro hlt
    rw [if_neg (by omega), if_neg fun h => absurd h.1 (by omega)]
  rcases (writes_writeTagVal separator 8 first.value).cases hstart with
    ⟨begun, hbegun, h₁⟩ | ⟨hfail, hlt⟩
  swap
  · simp only [hfail]
    refine (hsmall ?_).symm
    simp [draftText] at hlt ⊢
    omega
  rcases (writes_writePlaceholder separator).cases h₁ with ⟨placed, hplaced, h₂⟩ | ⟨hfail, hlt⟩
  swap
  · simp only [hbegun, hfail]
    refine (hsmall ?_).symm
    simp [draftText] at hlt ⊢
    omega
  rcases (writes_writeFields separator rest).cases h₂ with ⟨written, hwritten, h₃⟩ | ⟨hfail, hlt⟩
  swap
  · simp only [hbegun, hplaced, hfail]
    refine (hsmall ?_).symm
    simpa only [draftText, List.nil_append] using hlt
  have hdraft : (draftText separator first rest).length ≤ buffer.length := by
    simpa only [draftText, List.nil_append] using h₃.le
  have hbody : written.offset - placed.offset = (bodyText separator rest).length := by
    rw [h₃.offset_eq, h₂.offset_eq, List.length_append, Nat.add_sub_cancel_left]
  have hbody31 : (bodyText separator rest).length < 2 ^ 31 := by
    have := h₃.le
    simp at this
    omega
  have hnumeral : (numeral (bodyText separator rest).length).length ≤ 16 := by
    have : (numeral (bodyText separator rest).length).length ≤ 10 :=
      (numeral_length_le_iff (by decide)).mpr (by omega)
    omega
  have hzeros : ascii "9=00000" = ascii "9=" ++ ascii "00000" := by decide
  have h₃' : written.Holds ((Field.text separator ⟨8, first.value⟩ ++ ascii "9=") ++
      (ascii "00000" ++ (separator :: bodyText separator rest))) buffer.length := by
    simpa [hzeros] using h₃
  have htagPos : begun.offset + 2 = (Field.text separator ⟨8, first.value⟩ ++ ascii "9=").length := by
    rw [h₁.offset_eq, List.nil_append, List.length_append]
    rfl
  simp only [hbegun, hplaced, hwritten, hbody, toChars_length hbody31]
  have hcovered := coveredText_eq separator first rest
  have hwire : coveredText separator first rest ++
      Field.text separator ⟨10, (checksumField (coveredText separator first rest)).value⟩ =
        wire separator first rest := (wire_eq separator first rest).symm
  rcases le_or_gt (coveredText separator first rest).length buffer.length with hfit | hover
  · obtain ⟨patched, hpatched, h₄⟩ :=
      patchLength_ok h₃' hbuffer hnumeral htagPos (by rwa [← hcovered])
    rw [← hcovered] at h₄
    simp only [hpatched, h₄.take, checksumDigits_eq]
    rcases (writes_writeTagVal separator 10 _).cases h₄ with ⟨done, hdone, h₅⟩ | ⟨hfail, hlt⟩
    · rw [hwire] at h₅
      simp only [hdone, h₅.take]
      exact (if_pos h₅.le).symm
    · rw [hwire] at hlt
      simp only [hfail]
      rw [if_neg (not_le.mpr hlt), if_neg fun h => absurd h.2 (by omega)]
  · have hnofit : ¬ (wire separator first rest).length ≤ buffer.length := by
      rw [wire_eq, List.length_append]
      omega
    have herror := patchLength_error h₃' hbuffer hnumeral begun.offset (by rwa [← hcovered])
    rw [← hcovered] at herror
    simp only [herror, if_neg hnofit]
    by_cases h31 : 2 ^ 31 ≤ (coveredText separator first rest).length
    · rw [if_pos h31, if_pos ⟨hdraft, h31⟩]
    · rw [if_neg h31, if_neg fun h => h31 h.2]

/-- The serializer succeeds exactly when the finished message fits. -/
theorem serializeMessage_eq_ok_iff (first : Field) (rest : List Field) {buffer : Bytes}
    (hbuffer : buffer.length < 2 ^ 31) (separator : UInt8) {s : Bytes} :
    serializeMessage (first :: rest) buffer separator = .ok s ↔
      first.tag = 8 ∧ (wire separator first rest).length ≤ buffer.length ∧
        s = wire separator first rest := by
  by_cases h8 : first.tag = 8
  swap
  · simp [serializeMessage, h8]
  rw [serializeMessage_eq h8 rest hbuffer]
  by_cases hfit : (wire separator first rest).length ≤ buffer.length
  · rw [if_pos hfit, Except.ok.injEq, eq_comm]
    exact ⟨fun h => ⟨h8, hfit, h⟩, fun h => h.2.2⟩
  · rw [if_neg hfit]
    constructor
    · intro h
      split_ifs at h
    · intro h
      exact absurd h.2.1 hfit

/-! ### The space it takes -/

/-- The length of the finished message, piece by piece. -/
def finishedLength (separator : UInt8) (first : Field) (rest : List Field) : ℕ :=
  (Field.text separator ⟨8, first.value⟩).length + 2 +
    (numeral (bodyText separator rest).length).length + 1 + (bodyText separator rest).length + 7

theorem wire_length (separator : UInt8) (first : Field) (rest : List Field) :
    (wire separator first rest).length = finishedLength separator first rest := by
  have h10 : intNumeral 10 = ascii "10" := by decide
  have hlen : (ascii "9=").length = 2 ∧ (ascii "10").length = 2 := ⟨rfl, rfl⟩
  simp [finishedLength, wire_eq, coveredText_eq, Field.text, checksumField, threeDigits, h10, hlen]
  omega

/-- Space is refused exactly when the finished message does not fit, and what is written does
not depend on the buffer. -/
def SpaceExact (separator : UInt8) (first : Field) (rest : List Field) (buffer : Bytes) : Prop :=
  serializeMessage (first :: rest) buffer separator =
    if finishedLength separator first rest ≤ buffer.length then .ok (wire separator first rest)
    else .error .noBufferSpace

theorem serializeMessage_of_overflows {separator : UInt8} {first : Field} {rest : List Field}
    {buffer : Bytes} (h8 : first.tag = 8) (hbuffer : buffer.length < 2 ^ 31)
    (h : Overflows separator first rest buffer.length) :
    serializeMessage (first :: rest) buffer separator = .error .undefinedBehavior := by
  have hnofit : ¬ (wire separator first rest).length ≤ buffer.length := by
    have hlong := h.2
    rw [wire_eq, List.length_append]
    omega
  rw [serializeMessage_eq h8 rest hbuffer, if_neg hnofit, if_pos h]

theorem not_spaceExact_of_overflows {separator : UInt8} {first : Field} {rest : List Field}
    {buffer : Bytes} (h8 : first.tag = 8) (hbuffer : buffer.length < 2 ^ 31)
    (h : Overflows separator first rest buffer.length) :
    ¬ SpaceExact separator first rest buffer := by
  rw [SpaceExact, serializeMessage_of_overflows h8 hbuffer h]
  intro hexact
  split_ifs at hexact
  cases hexact

theorem overflows_of_length {value : Bytes} (h : value.length = 2 ^ 31 - 15) :
    Overflows 124 ⟨8, []⟩ [⟨1, value⟩] (2 ^ 31 - 1) := by
  have hbody : bodyText 124 [⟨1, value⟩] = Field.text 124 ⟨1, value⟩ := by
    simp [bodyText, bodyFields, isFraming]
  have htag : intNumeral 8 = ascii "8" ∧ intNumeral 1 = ascii "1" := by decide
  have hlen : (ascii "8").length = 1 ∧ (ascii "1").length = 1 ∧ (ascii "9=").length = 2 ∧
    (ascii "9=00000").length = 7 := ⟨rfl, rfl, rfl, rfl⟩
  have hdigits : ¬ (numeral (bodyText 124 [⟨1, value⟩]).length).length ≤ 9 := by
    rw [numeral_length_le_iff (by decide), hbody]
    simp [Field.text, htag, hlen, h]
  constructor
  · simp [draftText, hbody, Field.text, htag, hlen, h]
  · rw [coveredText_eq, List.length_append, List.length_append, List.length_append,
      List.length_cons]
    simp [hbody, Field.text, htag, hlen, h] at hdigits ⊢
    omega

/-- The serializer is exact about space but for the overflow of its `int` sum. -/
theorem spaceExact_iff {first : Field} (h8 : first.tag = 8) (rest : List Field) {buffer : Bytes}
    (hbuffer : buffer.length < 2 ^ 31) (separator : UInt8) :
    SpaceExact separator first rest buffer ↔
      ¬ Overflows separator first rest buffer.length := by
  constructor
  · intro h hover
    exact not_spaceExact_of_overflows h8 hbuffer hover h
  · intro h
    rw [SpaceExact, serializeMessage_eq h8 rest hbuffer, wire_length, if_neg h]

theorem spaceExact_iff_small :
    SpaceExact 124 ⟨8, ascii "F"⟩ [⟨35, ascii "0"⟩] (List.replicate 23 0) ↔
      ¬ Overflows 124 ⟨8, ascii "F"⟩ [⟨35, ascii "0"⟩] (List.replicate 23 (0 : UInt8)).length :=
  spaceExact_iff rfl [⟨35, ascii "0"⟩] (by decide) 124

/-- A body of ten digits behind the five of the placeholder, in the largest buffer. -/
theorem largestBuffer_not_spaceExact :
    ¬ SpaceExact 124 ⟨8, []⟩ [⟨1, List.replicate (2 ^ 31 - 15) 0⟩]
      (List.replicate (2 ^ 31 - 1) 0) := by
  have hlength : (List.replicate (2 ^ 31 - 1) (0 : UInt8)).length = 2 ^ 31 - 1 :=
    List.length_replicate
  apply not_spaceExact_of_overflows rfl
  · rw [hlength]
    decide
  · rw [hlength]
    exact overflows_of_length List.length_replicate

end Fixure
