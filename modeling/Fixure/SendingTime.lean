import Fixure.Calendar
import Fixure.Session

/-!
# The sending time

The session writes the sending time in columns of fixed width, and the replayer reads the
columns. What is read is the time that was written, to the millisecond, and the stamps are
ordered like the times.
-/

namespace Fixure
open Decimal Calendar

/-! ### The calls of the C library -/

def gmtime (time : ℤ) : Tm :=
  let day := time / 86400
  let second := time % 86400
  { year := yearOf day - 1900
    mon := monthOf day
    mday := mday day
    hour := second / 3600
    min := second % 3600 / 60
    sec := second % 60 }

/-- A month outside of the year is a month of another year. -/
def timegm (tm : Tm) : ℤ :=
  let year := tm.year + 1900 + tm.mon / 12
  let day := yearStart year + monthStart year (tm.mon % 12) + (tm.mday - 1)
  86400 * day + (3600 * tm.hour + (60 * tm.min + tm.sec))

/-! ### Reading -/

/-- The number that stands in the columns from `start` up to `stop`; it is 0 if none does. -/
def column (timeStr : Bytes) (start stop : ℕ) : ℤ :=
  match fromChars (substr timeStr start (stop - start)) with
  | .parsed n _ => n.toInt
  | _ => 0

/-- The nanoseconds of the system clock since the epoch. -/
def parseSendingTime (timeStr : Bytes) : ℤ :=
  if timeStr.length < 21 then 0
  else
    let year := column timeStr 0 4
    let month := column timeStr 4 6
    let day := column timeStr 6 8
    let hour := column timeStr 9 11
    let min := column timeStr 12 14
    let sec := column timeStr 15 17
    let ms := column timeStr 18 21
    let time := timegm ⟨year - 1900, month - 1, day, hour, min, sec⟩
    time * 1000000000 + ms * 1000000

/-! ### Stamps -/

/-- The numbers of a stamp, each of which fits its columns. -/
structure Stamp where
  year : ℕ
  month : ℕ
  day : ℕ
  hour : ℕ
  min : ℕ
  sec : ℕ
  ms : ℕ
  year_lt : year < 10 ^ 4
  month_lt : month < 10 ^ 2
  day_lt : day < 10 ^ 2
  hour_lt : hour < 10 ^ 2
  min_lt : min < 10 ^ 2
  sec_lt : sec < 10 ^ 2
  ms_lt : ms < 10 ^ 3

/-- `n` in as many digits as the columns have. -/
def digits (width n : ℕ) : Bytes := List.replicate (width - (numeral n).length) 48 ++ numeral n

def Stamp.text (s : Stamp) : Bytes :=
  digits 4 s.year ++ (digits 2 s.month ++ (digits 2 s.day ++ (ascii "-" ++
    (digits 2 s.hour ++ (ascii ":" ++ (digits 2 s.min ++ (ascii ":" ++ (digits 2 s.sec ++
      (ascii "." ++ digits 3 s.ms)))))))))

theorem zeroPadded_natCast (width n : ℕ) : zeroPadded width n = digits width n := by
  have hpos : ¬ (n : ℤ) < 0 := by omega
  simp [zeroPadded, hpos, digits]

section Digits
variable {width n m : ℕ}

theorem isDigit_of_mem_digits : ∀ d ∈ digits width n, isDigit d = true := by
  intro d hd
  rcases List.mem_append.mp hd with hd | hd
  · rw [List.eq_of_mem_replicate hd]
    decide
  · exact isDigit_of_mem_numeral hd

theorem value_digits : value (digits width n) = n := by
  rw [digits, value_replicate_append, value_numeral]

theorem length_digits (hw : 0 < width) (h : n < 10 ^ width) : (digits width n).length = width := by
  have hlen := (numeral_length_le_iff hw).mpr h
  rw [digits, List.length_append, List.length_replicate]
  omega

theorem spells_digits : Spells (digits width n) n := by
  refine ⟨digits width n, ?_, isDigit_of_mem_digits, .inl ⟨rfl, by rw [value_digits]⟩⟩
  intro hnil
  exact numeral_ne_nil n (List.append_eq_nil_iff.mp hnil).2

theorem digits_lt_iff (hw : 0 < width) (hn : n < 10 ^ width) (hm : m < 10 ^ width) :
    digits width n < digits width m ↔ n < m := by
  have hlen := (length_digits hw hn).trans (length_digits hw hm).symm
  rw [lt_iff_value_lt hlen isDigit_of_mem_digits isDigit_of_mem_digits, value_digits, value_digits]

theorem digits_inj (h : digits width n = digits width m) : n = m := by
  have hvalue := congrArg value h
  rwa [value_digits, value_digits] at hvalue

end Digits

namespace Stamp

theorem length_text (s : Stamp) : s.text.length = 21 := by
  have hmarks : (ascii "-").length = 1 ∧ (ascii ":").length = 1 ∧ (ascii ".").length = 1 := by decide
  simp only [text, List.length_append, length_digits (by decide) s.year_lt,
    length_digits (by decide) s.month_lt, length_digits (by decide) s.day_lt,
    length_digits (by decide) s.hour_lt, length_digits (by decide) s.min_lt,
    length_digits (by decide) s.sec_lt, length_digits (by decide) s.ms_lt, hmarks]

end Stamp

/-! ### Reading the columns -/

theorem column_digits {text : Bytes} {width n start stop : ℕ} (before after : Bytes)
    (hw : 0 < width) (hn : n < 10 ^ width) (hsmall : 10 ^ width ≤ 2 ^ 31)
    (hstart : before.length = start) (hstop : start + width = stop)
    (htext : text = before ++ (digits width n ++ after)) : column text start stop = n := by
  have hcut : substr text start (stop - start) = digits width n := by
    rw [substr, htext, ← hstart, List.drop_left]
    apply List.take_left'
    rw [length_digits hw hn]
    omega
  have hrange : n < 2 ^ 31 := lt_of_lt_of_le hn hsmall
  have hvalue : (Int32.ofInt n).toInt = n :=
    Int32.toInt_ofInt_of_le (by omega) (by exact_mod_cast hrange)
  have hread : fromChars (digits width n) = .parsed (Int32.ofInt n) [] := by
    rw [fromChars_eq_parsed_iff, hvalue]
    exact ⟨digits width n, (List.append_nil _).symm, spells_digits, by simp [NoDigitAhead]⟩
  rw [column, hcut, hread]
  exact hvalue

theorem parseSendingTime_text (s : Stamp) :
    parseSendingTime s.text =
      timegm ⟨s.year - 1900, s.month - 1, s.day, s.hour, s.min, s.sec⟩ * 1000000000 +
        s.ms * 1000000 := by
  have hy := length_digits (by decide) s.year_lt
  have hmo := length_digits (by decide) s.month_lt
  have hd := length_digits (by decide) s.day_lt
  have hh := length_digits (by decide) s.hour_lt
  have hmi := length_digits (by decide) s.min_lt
  have hs := length_digits (by decide) s.sec_lt
  have hdash : (ascii "-").length = 1 := rfl
  have hcolon : (ascii ":").length = 1 := rfl
  have hdot : (ascii ".").length = 1 := rfl
  have hyear : column s.text 0 4 = s.year :=
    column_digits [] _ (by decide) s.year_lt (by decide) rfl rfl rfl
  have hmonth : column s.text 4 6 = s.month :=
    column_digits (digits 4 s.year) _ (by decide) s.month_lt (by decide) hy rfl rfl
  have hday : column s.text 6 8 = s.day :=
    column_digits (digits 4 s.year ++ digits 2 s.month) _ (by decide) s.day_lt (by decide)
      (by simp [hy, hmo]) rfl (by simp only [Stamp.text, List.append_assoc]; rfl)
  have hhour : column s.text 9 11 = s.hour :=
    column_digits (digits 4 s.year ++ digits 2 s.month ++ digits 2 s.day ++ ascii "-") _ (by decide)
      s.hour_lt (by decide) (by simp [hy, hmo, hd, hdash]) rfl
      (by simp only [Stamp.text, List.append_assoc]; rfl)
  have hmin : column s.text 12 14 = s.min :=
    column_digits (digits 4 s.year ++ digits 2 s.month ++ digits 2 s.day ++ ascii "-" ++
      digits 2 s.hour ++ ascii ":") _ (by decide) s.min_lt (by decide)
      (by simp [hy, hmo, hd, hh, hdash, hcolon]) rfl (by simp only [Stamp.text, List.append_assoc]; rfl)
  have hsec : column s.text 15 17 = s.sec :=
    column_digits (digits 4 s.year ++ digits 2 s.month ++ digits 2 s.day ++ ascii "-" ++
      digits 2 s.hour ++ ascii ":" ++ digits 2 s.min ++ ascii ":") _ (by decide) s.sec_lt (by decide)
      (by simp [hy, hmo, hd, hh, hmi, hdash, hcolon]) rfl
      (by simp only [Stamp.text, List.append_assoc]; rfl)
  have hms : column s.text 18 21 = s.ms :=
    column_digits (digits 4 s.year ++ digits 2 s.month ++ digits 2 s.day ++ ascii "-" ++
      digits 2 s.hour ++ ascii ":" ++ digits 2 s.min ++ ascii ":" ++ digits 2 s.sec ++ ascii ".") []
      (by decide) s.ms_lt (by decide) (by simp [hy, hmo, hd, hh, hmi, hs, hdash, hcolon, hdot]) rfl
      (by simp only [Stamp.text, List.append_assoc, List.append_nil])
  have hlong : ¬ s.text.length < 21 := by
    rw [s.length_text]
    decide
  rw [parseSendingTime, if_neg hlong]
  simp only [hyear, hmonth, hday, hhour, hmin, hsec, hms]

/-! ### The order of the stamps -/

namespace Stamp

/-- The numbers are compared from the year down to the milliseconds. -/
def Before (s s' : Stamp) : Prop :=
  s.year < s'.year ∨ s.year = s'.year ∧ (s.month < s'.month ∨ s.month = s'.month ∧
    (s.day < s'.day ∨ s.day = s'.day ∧ (s.hour < s'.hour ∨ s.hour = s'.hour ∧
      (s.min < s'.min ∨ s.min = s'.min ∧ (s.sec < s'.sec ∨ s.sec = s'.sec ∧ s.ms < s'.ms)))))

end Stamp

theorem digits_append_lt_iff {width n m : ℕ} (hw : 0 < width) (hn : n < 10 ^ width)
    (hm : m < 10 ^ width) (rest rest' : Bytes) :
    digits width n ++ rest < digits width m ++ rest' ↔ n < m ∨ n = m ∧ rest < rest' := by
  have hlen := (length_digits hw hn).trans (length_digits hw hm).symm
  have heq : digits width n = digits width m ↔ n = m := ⟨digits_inj, fun h => h ▸ rfl⟩
  rw [append_lt_append_iff hlen, digits_lt_iff hw hn hm, heq]

theorem append_lt_append_left_iff (mark rest rest' : Bytes) :
    mark ++ rest < mark ++ rest' ↔ rest < rest' := by
  rw [append_lt_append_iff rfl]
  simp

theorem text_lt_iff (s s' : Stamp) : s.text < s'.text ↔ s.Before s' := by
  simp only [Stamp.text, Stamp.Before, append_lt_append_left_iff,
    digits_append_lt_iff (by decide) s.year_lt s'.year_lt,
    digits_append_lt_iff (by decide) s.month_lt s'.month_lt,
    digits_append_lt_iff (by decide) s.day_lt s'.day_lt,
    digits_append_lt_iff (by decide) s.hour_lt s'.hour_lt,
    digits_append_lt_iff (by decide) s.min_lt s'.min_lt,
    digits_append_lt_iff (by decide) s.sec_lt s'.sec_lt,
    digits_lt_iff (by decide) s.ms_lt s'.ms_lt]

/-! ### The calendar -/

theorem gmtime_bounds (time : ℤ) :
    (0 ≤ (gmtime time).mon ∧ (gmtime time).mon ≤ 11) ∧
      (1 ≤ (gmtime time).mday ∧ (gmtime time).mday ≤ 31) ∧
      (0 ≤ (gmtime time).hour ∧ (gmtime time).hour ≤ 23) ∧
      (0 ≤ (gmtime time).min ∧ (gmtime time).min ≤ 59) ∧
      0 ≤ (gmtime time).sec ∧ (gmtime time).sec ≤ 59 := by
  refine ⟨monthOf_bounds _, mday_bounds _, ?_⟩
  simp only [gmtime]
  omega

theorem timegm_gmtime (time : ℤ) : timegm (gmtime time) = time := by
  have hmon := monthOf_bounds (time / 86400)
  have hdiv : monthOf (time / 86400) / 12 = 0 := by omega
  have hmod : monthOf (time / 86400) % 12 = monthOf (time / 86400) := by omega
  simp only [timegm, gmtime, hdiv, hmod, sub_add_cancel, add_zero, eq_of_date]
  omega

theorem gmtime_lt_or_iff (time time' : ℤ) (p : Prop) :
    (time < time' ∨ time = time' ∧ p) ↔
      (gmtime time).year < (gmtime time').year ∨ (gmtime time).year = (gmtime time').year ∧
        ((gmtime time).mon < (gmtime time').mon ∨ (gmtime time).mon = (gmtime time').mon ∧
          ((gmtime time).mday < (gmtime time').mday ∨ (gmtime time).mday = (gmtime time').mday ∧
            ((gmtime time).hour < (gmtime time').hour ∨ (gmtime time).hour = (gmtime time').hour ∧
              ((gmtime time).min < (gmtime time').min ∨ (gmtime time).min = (gmtime time').min ∧
                ((gmtime time).sec < (gmtime time').sec ∨
                  (gmtime time).sec = (gmtime time').sec ∧ p))))) := by
  rw [InBlock.lt_or_iff (monotone_mul (by decide)) (inBlock_mul (k := 86400) (by decide) time)
      (inBlock_mul (by decide) time'), second_lt_or_iff (time % 86400),
    day_lt_or_iff (time / 86400)]
  simp only [gmtime, sub_lt_sub_iff_right, sub_left_inj]

/-! ### Instants -/

/-- The calendar year of an instant, in nanoseconds since the epoch. -/
def yearAt (now : ℤ) : ℤ := (gmtime (now / 1000000000)).year + 1900

def Instant (now : ℤ) : Prop := 1970 ≤ yearAt now ∧ yearAt now ≤ 9999

instance : DecidablePred Instant := fun _ => inferInstanceAs (Decidable (_ ∧ _))

/-- The last whole millisecond before the instant. -/
def truncated (now : ℤ) : ℤ := now - now % 1000000

/-- The stamp holds the numbers of the instant. -/
structure Stamp.Of (s : Stamp) (now : ℤ) : Prop where
  year : (s.year : ℤ) = (gmtime (now / 1000000000)).year + 1900
  month : (s.month : ℤ) = (gmtime (now / 1000000000)).mon + 1
  day : (s.day : ℤ) = (gmtime (now / 1000000000)).mday
  hour : (s.hour : ℤ) = (gmtime (now / 1000000000)).hour
  min : (s.min : ℤ) = (gmtime (now / 1000000000)).min
  sec : (s.sec : ℤ) = (gmtime (now / 1000000000)).sec
  ms : (s.ms : ℤ) = now / 1000000 % 1000

section Instant
variable {now : ℤ} (h : Instant now)
include h

theorem Instant.nonneg : 0 ≤ now := by
  have hyear : 1970 ≤ yearOf (now / 1000000000 / 86400) := by
    have hlow := h.1
    simp only [yearAt, gmtime] at hlow
    omega
  have hstart := yearStart_mono hyear
  have hblock := inBlock_year (now / 1000000000 / 86400)
  have heq := hblock.eq
  have hyday := hblock.nonneg
  have hepoch : yearStart 1970 = 0 := by decide
  omega

theorem exists_stamp : ∃ s : Stamp, s.Of now := by
  obtain ⟨hmon, hmday, hhour, hmin, hsec⟩ := gmtime_bounds (now / 1000000000)
  obtain ⟨hlow, hhigh⟩ := h
  rw [yearAt] at hlow hhigh
  refine ⟨⟨((gmtime (now / 1000000000)).year + 1900).toNat,
    ((gmtime (now / 1000000000)).mon + 1).toNat, (gmtime (now / 1000000000)).mday.toNat,
    (gmtime (now / 1000000000)).hour.toNat, (gmtime (now / 1000000000)).min.toNat,
    (gmtime (now / 1000000000)).sec.toNat, (now / 1000000 % 1000).toNat,
    by omega, by omega, by omega, by omega, by omega, by omega, by omega⟩, ?_⟩
  constructor <;> simp only <;> omega

end Instant

theorem getSendingTime_text {now : ℤ} (h : 0 ≤ now) {s : Stamp} (hs : s.Of now) :
    getSendingTime gmtime now = s.text := by
  have htime : now.tdiv 1000000000 = now / 1000000000 := Int.tdiv_eq_ediv_of_nonneg h
  have hms : (now.tdiv 1000000).tmod 1000 = now / 1000000 % 1000 := by
    rw [Int.tdiv_eq_ediv_of_nonneg h, Int.tmod_eq_emod_of_nonneg (by omega)]
  simp only [getSendingTime, htime, hms, ← hs.year, ← hs.month, ← hs.day, ← hs.hour, ← hs.min,
    ← hs.sec, ← hs.ms, zeroPadded_natCast, List.append_assoc]
  apply List.take_of_length_le
  exact le_trans s.length_text.le (by decide)

theorem parseSendingTime_stamp {now : ℤ} {s : Stamp} (hs : s.Of now) :
    parseSendingTime s.text = truncated now := by
  have htm : (⟨s.year - 1900, s.month - 1, s.day, s.hour, s.min, s.sec⟩ : Tm) =
      gmtime (now / 1000000000) := by
    rw [hs.year, hs.month, hs.day, hs.hour, hs.min, hs.sec, add_sub_cancel_right,
      add_sub_cancel_right]
  rw [parseSendingTime_text, htm, timegm_gmtime, hs.ms, truncated]
  omega

theorem before_iff {now now' : ℤ} {s s' : Stamp} (hs : s.Of now) (hs' : s'.Of now') :
    s.Before s' ↔ truncated now < truncated now' := by
  have hdiv (n : ℤ) : n / 1000000 / 1000 = n / 1000000000 := by omega
  have hlt : truncated now < truncated now' ↔ now / 1000000 < now' / 1000000 := by
    rw [truncated, truncated]
    omega
  have hms := InBlock.lt_iff (monotone_mul (by decide))
    (inBlock_mul (k := 1000) (by decide) (now / 1000000)) (inBlock_mul (by decide) (now' / 1000000))
  rw [hlt, hms, hdiv, hdiv, gmtime_lt_or_iff, ← hs.day, ← hs'.day, ← hs.hour, ← hs'.hour, ← hs.min,
    ← hs'.min, ← hs.sec, ← hs'.sec, ← hs.ms, ← hs'.ms]
  have hyear := hs.year
  have hyear' := hs'.year
  have hmonth := hs.month
  have hmonth' := hs'.month
  have hyears : s.year < s'.year ↔
      (gmtime (now / 1000000000)).year < (gmtime (now' / 1000000000)).year := by omega
  have hyears' : s.year = s'.year ↔
      (gmtime (now / 1000000000)).year = (gmtime (now' / 1000000000)).year := by omega
  have hmonths : s.month < s'.month ↔
      (gmtime (now / 1000000000)).mon < (gmtime (now' / 1000000000)).mon := by omega
  have hmonths' : s.month = s'.month ↔
      (gmtime (now / 1000000000)).mon = (gmtime (now' / 1000000000)).mon := by omega
  simp only [Stamp.Before, hyears, hyears', hmonths, hmonths', Nat.cast_lt, Nat.cast_inj]

example : getSendingTime gmtime 1709251199999999999 = ascii "20240229-23:59:59.999" := by
  decide +kernel

end Fixure
