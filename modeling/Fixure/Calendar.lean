import Mathlib

/-!
# Days, months and years

Numbers are cut into blocks, one after the other, and are compared by their block first and
by their place in it next. Days are cut into years in this way, and the days of a year into
months.
-/

namespace Fixure.Calendar

/-! ### Blocks -/

/-- `x` stands at the place `r` of block `i`, where block `i` begins at `start i`. -/
structure InBlock (start : ℤ → ℤ) (i r x : ℤ) : Prop where
  eq : x = start i + r
  nonneg : 0 ≤ r
  lt : x < start (i + 1)

section Blocks
variable {start : ℤ → ℤ} (hmono : Monotone start) {i i' r r' x x' : ℤ}
include hmono

theorem InBlock.lt_iff (h : InBlock start i r x) (h' : InBlock start i' r' x') :
    x < x' ↔ i < i' ∨ i = i' ∧ r < r' := by
  have heq := h.eq
  have heq' := h'.eq
  have hnonneg := h.nonneg
  have hnonneg' := h'.nonneg
  rcases lt_trichotomy i i' with hlt | rfl | hgt
  · have hnext := hmono (show i + 1 ≤ i' from hlt)
    have hend := h.lt
    exact iff_of_true (by omega) (.inl hlt)
  · constructor
    · intro hx
      exact .inr ⟨rfl, by omega⟩
    · intro hr
      have hr' := hr.resolve_left (lt_irrefl i)
      omega
  · have hnext := hmono (show i' + 1 ≤ i from hgt)
    have hend := h'.lt
    exact iff_of_false (by omega) (by omega)

theorem InBlock.eq_iff (h : InBlock start i r x) (h' : InBlock start i' r' x') :
    x = x' ↔ i = i' ∧ r = r' := by
  constructor
  · intro hx
    have hlt := (h.lt_iff hmono h').not.mp (by omega)
    have hgt := (h'.lt_iff hmono h).not.mp (by omega)
    omega
  · intro hplace
    rw [h.eq, h'.eq, hplace.1, hplace.2]

/-- Blocks refine an order in which `x` is compared first. -/
theorem InBlock.lt_or_iff (h : InBlock start i r x) (h' : InBlock start i' r' x') (p : Prop) :
    (x < x' ∨ x = x' ∧ p) ↔ i < i' ∨ i = i' ∧ (r < r' ∨ r = r' ∧ p) := by
  rw [h.lt_iff hmono h', h.eq_iff hmono h']
  tauto

end Blocks

theorem inBlock_mul {k : ℤ} (hk : 0 < k) (x : ℤ) : InBlock (k * ·) (x / k) (x % k) x where
  eq := (Int.mul_ediv_add_emod x k).symm
  nonneg := Int.emod_nonneg x hk.ne'
  lt := by
    have hlt := Int.emod_lt_of_pos x hk
    have heq := Int.mul_ediv_add_emod x k
    rw [mul_add, mul_one]
    omega

theorem monotone_mul {k : ℤ} (hk : 0 < k) : Monotone (k * ·) := fun _ _ h =>
  Int.mul_le_mul_of_nonneg_left h hk.le

/-- The block that `x` stands in, sought from block `i` on. -/
def locate (start : ℤ → ℤ) : ℕ → ℤ → ℤ → ℤ
  | 0, i, _ => i
  | n + 1, i, x => if x < start (i + 1) then i else locate start n (i + 1) x

section Locate
variable {start : ℤ → ℤ} {n : ℕ} {i x : ℤ}

theorem locate_bounds : i ≤ locate start n i x ∧ locate start n i x ≤ i + n := by
  induction n generalizing i with
  | zero => simp [locate]
  | succ n ih =>
    rw [locate]
    split_ifs
    · omega
    · have hnext := ih (i := i + 1)
      omega

theorem inBlock_locate (h : start i ≤ x) (h' : x < start (i + n + 1)) :
    InBlock start (locate start n i x) (x - start (locate start n i x)) x := by
  induction n generalizing i with
  | zero =>
    rw [Nat.cast_zero, add_zero] at h'
    exact ⟨by omega, sub_nonneg.mpr h, h'⟩
  | succ n ih =>
    rw [locate]
    split_ifs with hlt
    · exact ⟨by omega, by omega, hlt⟩
    · apply ih (not_lt.mp hlt)
      rwa [add_right_comm i 1 (n : ℤ), add_assoc i (n : ℤ) 1, ← Nat.cast_succ]

end Locate

/-! ### Years -/

def IsLeap (year : ℤ) : Prop := year % 4 = 0 ∧ (year % 100 ≠ 0 ∨ year % 400 = 0)

instance : DecidablePred IsLeap := fun _ => inferInstanceAs (Decidable (_ ∧ _))

def yearDays (year : ℤ) : ℤ := if IsLeap year then 366 else 365

/-- The days from the first of January 1970 to that of `year`. -/
def yearStart (year : ℤ) : ℤ :=
  365 * (year - 1970) + (year - 1969) / 4 - (year - 1901) / 100 + (year - 1601) / 400

theorem yearStart_succ (year : ℤ) : yearStart (year + 1) = yearStart year + yearDays year := by
  simp only [yearStart, yearDays, IsLeap]
  split_ifs <;> omega

theorem yearStart_mono : Monotone yearStart := by
  apply monotone_int_of_le_succ
  intro year
  rw [yearStart_succ, yearDays]
  split_ifs <;> omega

theorem yearStart_cycle (k : ℤ) : yearStart (1970 + 400 * k) = 146097 * k := by
  rw [yearStart]
  omega

def yearOf (day : ℤ) : ℤ := locate yearStart 399 (1970 + 400 * (day / 146097)) day

/-- The days of the year before this one. -/
def yday (day : ℤ) : ℤ := day - yearStart (yearOf day)

theorem inBlock_year (day : ℤ) : InBlock yearStart (yearOf day) (yday day) day := by
  apply inBlock_locate
  · rw [yearStart_cycle]
    omega
  · have hnext : 1970 + 400 * (day / 146097) + (399 : ℕ) + 1 = 1970 + 400 * (day / 146097 + 1) := by
      push_cast
      omega
    rw [hnext, yearStart_cycle]
    omega

/-! ### Months -/

/-- The days of the year before its month `mon`, January being the month 0. -/
def monthStart (year mon : ℤ) : ℤ :=
  [0, 31, 59, 90, 120, 151, 181, 212, 243, 273, 304, 334].getD mon.toNat 365 +
    if 2 ≤ mon ∧ IsLeap year then 1 else 0

theorem monthStart_succ (year mon : ℤ) :
    monthStart year mon ≤ monthStart year (mon + 1) ∧
      monthStart year (mon + 1) ≤ monthStart year mon + 31 := by
  rcases lt_or_ge mon 0 with hneg | hpos
  · have hmon : mon.toNat = 0 := by omega
    have hmon' : (mon + 1).toNat = 0 := by omega
    rw [monthStart, monthStart, hmon, hmon', if_neg (by omega), if_neg (by omega)]
    decide
  · rcases lt_or_ge mon 12 with hlt | hge
    · simp only [monthStart]
      by_cases hleap : IsLeap year
      · simp only [hleap, and_true]
        interval_cases mon <;> decide
      · simp only [hleap, and_false, if_false]
        interval_cases mon <;> decide
    · have hlater (m : ℤ) (hm : 12 ≤ m) :
          monthStart year m = 365 + if IsLeap year then 1 else 0 := by
        have hnone : [(0 : ℤ), 31, 59, 90, 120, 151, 181, 212, 243, 273, 304, 334][m.toNat]? =
            none := List.getElem?_eq_none (by simp; omega)
        have htwo : 2 ≤ m := by omega
        simp only [monthStart, List.getD_eq_getElem?_getD, hnone, Option.getD_none, htwo, true_and]
      rw [hlater mon hge, hlater (mon + 1) (by omega)]
      omega

theorem monthStart_mono (year : ℤ) : Monotone (monthStart year) :=
  monotone_int_of_le_succ fun mon => (monthStart_succ year mon).1

theorem monthStart_zero (year : ℤ) : monthStart year 0 = 0 := by
  simp [monthStart]

theorem monthStart_twelve (year : ℤ) : monthStart year 12 = yearDays year := by
  by_cases hleap : IsLeap year
  · simp [monthStart, yearDays, hleap]
  · simp [monthStart, yearDays, hleap]

/-! ### Days -/

section Days
variable (day : ℤ)

def monthOf : ℤ := locate (monthStart (yearOf day)) 11 0 (yday day)

def mday : ℤ := yday day - monthStart (yearOf day) (monthOf day) + 1

theorem inBlock_month :
    InBlock (monthStart (yearOf day)) (monthOf day) (mday day - 1) (yday day) := by
  have hyear := inBlock_year day
  have hend := hyear.lt
  have heq := hyear.eq
  rw [yearStart_succ] at hend
  rw [mday, add_sub_cancel_right]
  apply inBlock_locate
  · rw [monthStart_zero]
    exact hyear.nonneg
  · have htwelve : (0 : ℤ) + (11 : ℕ) + 1 = 12 := rfl
    rw [htwelve, monthStart_twelve]
    omega

theorem monthOf_bounds : 0 ≤ monthOf day ∧ monthOf day ≤ 11 := locate_bounds

theorem mday_bounds : 1 ≤ mday day ∧ mday day ≤ 31 := by
  have hmonth := inBlock_month day
  have hbegin := hmonth.nonneg
  have heq := hmonth.eq
  have hend := lt_of_lt_of_le hmonth.lt (monthStart_succ _ _).2
  omega

theorem eq_of_date : yearStart (yearOf day) + monthStart (yearOf day) (monthOf day) +
    (mday day - 1) = day := by
  rw [mday, yday]
  omega

end Days

theorem day_lt_or_iff (day day' : ℤ) (p : Prop) :
    (day < day' ∨ day = day' ∧ p) ↔
      yearOf day < yearOf day' ∨ yearOf day = yearOf day' ∧
        (monthOf day < monthOf day' ∨ monthOf day = monthOf day' ∧
          (mday day < mday day' ∨ mday day = mday day' ∧ p)) := by
  have hmonth := inBlock_month day
  have hmonth' := inBlock_month day'
  rw [InBlock.lt_or_iff yearStart_mono (inBlock_year day) (inBlock_year day')]
  apply or_congr_right
  apply and_congr_right
  intro hyear
  rw [← hyear] at hmonth'
  rw [InBlock.lt_or_iff (monthStart_mono _) hmonth hmonth', sub_lt_sub_iff_right, sub_left_inj]

theorem second_lt_or_iff (second second' : ℤ) (p : Prop) :
    (second < second' ∨ second = second' ∧ p) ↔
      second / 3600 < second' / 3600 ∨ second / 3600 = second' / 3600 ∧
        (second % 3600 / 60 < second' % 3600 / 60 ∨ second % 3600 / 60 = second' % 3600 / 60 ∧
          (second % 60 < second' % 60 ∨ second % 60 = second' % 60 ∧ p)) := by
  have hmod (n : ℤ) : n % 3600 % 60 = n % 60 := Int.emod_emod_of_dvd n (by decide)
  rw [InBlock.lt_or_iff (monotone_mul (by decide)) (inBlock_mul (k := 3600) (by decide) second)
      (inBlock_mul (by decide) second'),
    InBlock.lt_or_iff (monotone_mul (by decide)) (inBlock_mul (k := 60) (by decide) (second % 3600))
      (inBlock_mul (by decide) (second' % 3600)), hmod, hmod]

end Fixure.Calendar
