import Mathlib.Data.List.Induction
import Mathlib.Tactic.IntervalCases
import Mathlib.Tactic.Ring

/-!
# Decimal numerals as byte strings

`numeral` and `intNumeral` write numbers in decimal, `readInt` reads the longest
integer literal at the front of a text and returns what follows it. `Spells`
says what an integer literal is without running the reader.
-/

namespace Fixure.Decimal

def minus : UInt8 := 45

def isDigit (b : UInt8) : Bool := decide (48 ≤ b.toNat ∧ b.toNat ≤ 57)

def value (ds : List UInt8) : ℕ := ds.foldl (fun n d => 10 * n + (d.toNat - 48)) 0

def numeral (n : ℕ) : List UInt8 := (Nat.toDigits 10 n).map Char.toUInt8

def intNumeral (n : ℤ) : List UInt8 :=
  if n < 0 then minus :: numeral n.natAbs else numeral n.natAbs

theorem isDigit_minus : isDigit minus = false := by decide

theorem value_concat (ds : List UInt8) (d : UInt8) :
    value (ds ++ [d]) = 10 * value ds + (d.toNat - 48) := by
  simp [value, List.foldl_append]

theorem numeral_of_lt {n : ℕ} (h : n < 10) : numeral n = [UInt8.ofNat (48 + n)] := by
  rw [numeral, Nat.toDigits_of_lt_base h]
  interval_cases n <;> decide

theorem numeral_of_le {n : ℕ} (h : 10 ≤ n) :
    numeral n = numeral (n / 10) ++ [UInt8.ofNat (48 + n % 10)] := by
  have hlast := numeral_of_lt (Nat.mod_lt n (by decide : 0 < 10))
  rw [numeral, Nat.toDigits_of_lt_base (Nat.mod_lt n (by decide))] at hlast
  rw [numeral, Nat.toDigits_of_base_le (by decide) h, List.map_append, ← hlast]
  rfl

theorem numeral_ne_nil (n : ℕ) : numeral n ≠ [] := by
  simp [numeral]

theorem digit_toNat {d : ℕ} (h : d < 10) : (UInt8.ofNat (48 + d)).toNat = 48 + d := by
  interval_cases d <;> decide

theorem isDigit_digit {d : ℕ} (h : d < 10) : isDigit (UInt8.ofNat (48 + d)) = true := by
  rw [isDigit, digit_toNat h]
  simp
  omega

theorem isDigit_of_mem_numeral {n : ℕ} {b : UInt8} (hb : b ∈ numeral n) : isDigit b = true := by
  induction n using Nat.strong_induction_on with
  | _ n ih =>
    by_cases h : n < 10
    · rw [numeral_of_lt h, List.mem_singleton] at hb
      exact hb ▸ isDigit_digit h
    · rw [numeral_of_le (by omega), List.mem_append, List.mem_singleton] at hb
      rcases hb with hb | rfl
      · exact ih (n / 10) (by omega) hb
      · exact isDigit_digit (Nat.mod_lt n (by decide))

theorem value_numeral (n : ℕ) : value (numeral n) = n := by
  induction n using Nat.strong_induction_on with
  | _ n ih =>
    by_cases h : n < 10
    · rw [numeral_of_lt h]
      simp only [value, List.foldl_cons, List.foldl_nil, digit_toNat h]
      omega
    · rw [numeral_of_le (by omega), value_concat, ih (n / 10) (by omega),
        digit_toNat (Nat.mod_lt n (by decide))]
      omega

theorem numeral_length_le_iff {n k : ℕ} (hk : 0 < k) : (numeral n).length ≤ k ↔ n < 10 ^ k := by
  rw [numeral, List.length_map]
  exact Nat.length_toDigits_le_iff (by decide) hk

theorem digit_inj {d e : ℕ} (hd : d < 10) (he : e < 10) :
    UInt8.ofNat (48 + d) = UInt8.ofNat (48 + e) ↔ d = e := by
  rw [← UInt8.toNat_inj, digit_toNat hd, digit_toNat he]
  omega

theorem digit_suffix_numeral_iff {n d : ℕ} (hd : d < 10) :
    [UInt8.ofNat (48 + d)] <:+ numeral n ↔ n % 10 = d := by
  have hlast : ∃ pre, numeral n = pre ++ [UInt8.ofNat (48 + n % 10)] := by
    by_cases h : n < 10
    · exact ⟨[], by rw [numeral_of_lt h, Nat.mod_eq_of_lt h]; rfl⟩
    · exact ⟨_, numeral_of_le (not_lt.mp h)⟩
  obtain ⟨pre, hpre⟩ := hlast
  rw [hpre, List.singleton_suffix_append_singleton_iff,
    digit_inj hd (Nat.mod_lt n (by decide)), eq_comm]

theorem twoDigits_suffix_numeral_iff {n d e : ℕ} (hpos : 0 < d) (hd : d < 10) (he : e < 10) :
    [UInt8.ofNat (48 + d), UInt8.ofNat (48 + e)] <:+ numeral n ↔ n % 100 = 10 * d + e := by
  by_cases h : n < 10
  · rw [numeral_of_lt h]
    constructor
    · intro hs
      have := hs.length_le
      simp at this
    · intro hn
      omega
  · rw [numeral_of_le (not_lt.mp h)]
    have happend : [UInt8.ofNat (48 + d)] ++ [UInt8.ofNat (48 + e)] <:+
          numeral (n / 10) ++ [UInt8.ofNat (48 + n % 10)] ↔
        [UInt8.ofNat (48 + d)] <:+ numeral (n / 10) ∧
          [UInt8.ofNat (48 + e)] = [UInt8.ofNat (48 + n % 10)] :=
      List.suffix_append_inj_of_length_eq rfl
    rw [List.singleton_append] at happend
    rw [happend, digit_suffix_numeral_iff hd, List.singleton_inj,
      digit_inj he (Nat.mod_lt n (by decide))]
    omega

/-! ### Digit strings of one length -/

theorem value_append (ds es : List UInt8) : value (ds ++ es) = value ds * 10 ^ es.length + value es := by
  induction es using List.reverseRecOn with
  | nil => simp [value]
  | append_singleton es e ih =>
    rw [← List.append_assoc, value_concat, value_concat, ih, List.length_append, List.length_singleton,
      pow_succ]
    ring

theorem value_cons (d : UInt8) (ds : List UInt8) :
    value (d :: ds) = (d.toNat - 48) * 10 ^ ds.length + value ds := by
  have hone : value [d] = d.toNat - 48 := by simp [value]
  rw [← hone]
  exact value_append [d] ds

theorem value_replicate_append (k : ℕ) (ds : List UInt8) :
    value (List.replicate k 48 ++ ds) = value ds := by
  induction k with
  | zero => rfl
  | succ k ih =>
    have hzero : (48 : UInt8).toNat - 48 = 0 := by decide
    rw [List.replicate_succ, List.cons_append, value_cons, hzero, Nat.zero_mul, Nat.zero_add, ih]

theorem toNat_of_isDigit {d : UInt8} (h : isDigit d = true) : 48 ≤ d.toNat ∧ d.toNat ≤ 57 :=
  of_decide_eq_true h

theorem value_lt_pow {ds : List UInt8} (h : ∀ d ∈ ds, isDigit d = true) :
    value ds < 10 ^ ds.length := by
  induction ds with
  | nil => decide
  | cons d ds ih =>
    rw [List.forall_mem_cons] at h
    have hd := toNat_of_isDigit h.1
    have hds := ih h.2
    have hmul : (d.toNat - 48) * 10 ^ ds.length ≤ 9 * 10 ^ ds.length :=
      Nat.mul_le_mul_right _ (by omega)
    rw [value_cons, List.length_cons, pow_succ]
    omega

theorem lt_iff_value_lt {ds es : List UInt8} (hlen : ds.length = es.length)
    (hds : ∀ d ∈ ds, isDigit d = true) (hes : ∀ e ∈ es, isDigit e = true) :
    ds < es ↔ value ds < value es := by
  induction ds generalizing es with
  | nil =>
    obtain rfl := List.length_eq_zero_iff.mp hlen.symm
    simp
  | cons d ds ih =>
    cases es with
    | nil => cases hlen
    | cons e es =>
      rw [List.forall_mem_cons] at hds hes
      have hlen' : ds.length = es.length := Nat.succ.inj hlen
      have hd := toNat_of_isDigit hds.1
      have he := toNat_of_isDigit hes.1
      have hvalue := value_lt_pow hds.2
      have hvalue' := value_lt_pow hes.2
      rw [List.cons_lt_cons_iff, ih hlen' hds.2 hes.2, value_cons, value_cons, hlen']
      rw [hlen'] at hvalue
      rcases lt_trichotomy d.toNat e.toNat with hlt | heq | hgt
      · have hmul : (d.toNat - 48 + 1) * 10 ^ es.length ≤ (e.toNat - 48) * 10 ^ es.length :=
          Nat.mul_le_mul_right _ (by omega)
        rw [Nat.add_mul, Nat.one_mul] at hmul
        exact iff_of_true (.inl hlt) (by omega)
      · obtain rfl := UInt8.toNat_inj.mp heq
        simp
      · have hmul : (e.toNat - 48 + 1) * 10 ^ es.length ≤ (d.toNat - 48) * 10 ^ es.length :=
          Nat.mul_le_mul_right _ (by omega)
        rw [Nat.add_mul, Nat.one_mul] at hmul
        apply iff_of_false
        · intro h
          rcases h with hlt | ⟨rfl, _⟩
          · exact absurd (UInt8.lt_iff_toNat_lt.mp hlt) (by omega)
          · exact lt_irrefl _ hgt
        · omega

theorem append_lt_append_iff {α : Type*} [LT α] {xs xs' ys ys' : List α}
    (hlen : xs.length = xs'.length) :
    xs ++ ys < xs' ++ ys' ↔ xs < xs' ∨ xs = xs' ∧ ys < ys' := by
  induction xs generalizing xs' with
  | nil =>
    obtain rfl := List.length_eq_zero_iff.mp hlen.symm
    simp
  | cons x xs ih =>
    cases xs' with
    | nil => cases hlen
    | cons x' xs' =>
      rw [List.cons_append, List.cons_append, List.cons_lt_cons_iff, List.cons_lt_cons_iff,
        ih (Nat.succ.inj hlen), List.cons.injEq]
      tauto

/-! ### Integer literals -/

/-- `lit` is an integer literal for `n`: an optional minus sign and one or more digits. -/
def Spells (lit : List UInt8) (n : ℤ) : Prop :=
  ∃ ds, ds ≠ [] ∧ (∀ d ∈ ds, isDigit d = true) ∧
    ((lit = ds ∧ n = value ds) ∨ (lit = minus :: ds ∧ n = -(value ds : ℤ)))

def NoDigitAhead (text : List UInt8) : Prop := ∀ d ∈ text.head?, isDigit d = false

theorem spells_numeral (n : ℕ) : Spells (numeral n) n :=
  ⟨numeral n, numeral_ne_nil n, fun _ => isDigit_of_mem_numeral,
    Or.inl ⟨rfl, by rw [value_numeral]⟩⟩

theorem spells_intNumeral (n : ℤ) : Spells (intNumeral n) n := by
  rw [intNumeral]
  split_ifs with h
  · refine ⟨numeral n.natAbs, numeral_ne_nil _, fun _ => isDigit_of_mem_numeral, Or.inr ⟨rfl, ?_⟩⟩
    rw [value_numeral]
    omega
  · have hs := spells_numeral n.natAbs
    rwa [Int.natAbs_of_nonneg (not_lt.mp h)] at hs

theorem Spells.mem {lit : List UInt8} {n : ℤ} (h : Spells lit n) {b : UInt8} (hb : b ∈ lit) :
    b = minus ∨ isDigit b = true := by
  obtain ⟨ds, _, hds, ⟨rfl, _⟩ | ⟨rfl, _⟩⟩ := h
  · exact Or.inr (hds b hb)
  · exact (List.mem_cons.mp hb).imp_right (hds b)

theorem Spells.ne_nil {lit : List UInt8} {n : ℤ} (h : Spells lit n) : lit ≠ [] := by
  obtain ⟨ds, hne, _, ⟨rfl, _⟩ | ⟨rfl, _⟩⟩ := h
  · exact hne
  · exact List.cons_ne_nil _ _

def readNat (text : List UInt8) : Option (ℕ × List UInt8) :=
  let ds := text.takeWhile isDigit
  if ds = [] then none else some (value ds, text.dropWhile isDigit)

def readInt : List UInt8 → Option (ℤ × List UInt8)
  | [] => none
  | b :: text =>
    if b = minus then (readNat text).map fun r => (-(r.1 : ℤ), r.2)
    else (readNat (b :: text)).map fun r => ((r.1 : ℤ), r.2)

theorem takeWhile_dropWhile_append {ds rest : List UInt8} (hds : ∀ d ∈ ds, isDigit d = true)
    (hrest : NoDigitAhead rest) :
    (ds ++ rest).takeWhile isDigit = ds ∧ (ds ++ rest).dropWhile isDigit = rest := by
  rw [List.takeWhile_append_of_pos hds, List.dropWhile_append_of_pos hds]
  cases rest with
  | nil => simp
  | cons d rest =>
    have hd : isDigit d = false := hrest d rfl
    simp [hd]

theorem readNat_eq_some_iff {text rest : List UInt8} {n : ℕ} :
    readNat text = some (n, rest) ↔
      ∃ ds, ds ≠ [] ∧ (∀ d ∈ ds, isDigit d = true) ∧ text = ds ++ rest ∧ n = value ds ∧
        NoDigitAhead rest := by
  simp only [readNat]
  constructor
  · intro h
    split_ifs at h with hne
    obtain ⟨rfl, rfl⟩ := Prod.mk.inj (Option.some.inj h)
    refine ⟨text.takeWhile isDigit, hne, fun d hd => ?_, List.takeWhile_append_dropWhile.symm,
      rfl, fun d hd => ?_⟩
    · exact List.all_eq_true.mp List.all_takeWhile d hd
    · have := List.head?_dropWhile_not isDigit text
      rw [Option.mem_def.mp hd] at this
      simpa using this
  · rintro ⟨ds, hne, hds, rfl, rfl, hrest⟩
    obtain ⟨ht, hd⟩ := takeWhile_dropWhile_append hds hrest
    rw [ht, hd, if_neg hne]

theorem readInt_eq_some_iff {text rest : List UInt8} {n : ℤ} :
    readInt text = some (n, rest) ↔
      ∃ lit, text = lit ++ rest ∧ Spells lit n ∧ NoDigitAhead rest := by
  cases text with
  | nil =>
    constructor
    · intro h
      cases h
    · rintro ⟨lit, h, hs, _⟩
      exact absurd (List.append_eq_nil_iff.mp h.symm).1 hs.ne_nil
  | cons b text =>
    by_cases hb : b = minus
    · subst hb
      simp only [readInt, ↓reduceIte, Option.map_eq_some_iff, Prod.exists, Prod.mk.injEq]
      constructor
      · rintro ⟨m, _, h, rfl, rfl⟩
        obtain ⟨ds, hne, hds, rfl, rfl, hrest⟩ := readNat_eq_some_iff.mp h
        exact ⟨minus :: ds, rfl, ⟨ds, hne, hds, Or.inr ⟨rfl, rfl⟩⟩, hrest⟩
      · rintro ⟨lit, h, ⟨ds, hne, hds, ⟨rfl, rfl⟩ | ⟨rfl, rfl⟩⟩, hrest⟩
        · cases lit with
          | nil => exact absurd rfl hne
          | cons d ds =>
            obtain ⟨rfl, _⟩ := List.cons.inj h
            exact absurd (hds _ List.mem_cons_self) (by simp [isDigit_minus])
        · obtain ⟨_, rfl⟩ := List.cons.inj h
          exact ⟨value ds, rest, readNat_eq_some_iff.mpr ⟨ds, hne, hds, rfl, rfl, hrest⟩, rfl, rfl⟩
    · simp only [readInt, if_neg hb, Option.map_eq_some_iff, Prod.exists, Prod.mk.injEq]
      constructor
      · rintro ⟨m, _, h, rfl, rfl⟩
        obtain ⟨ds, hne, hds, htext, rfl, hrest⟩ := readNat_eq_some_iff.mp h
        exact ⟨ds, htext, ⟨ds, hne, hds, Or.inl ⟨rfl, rfl⟩⟩, hrest⟩
      · rintro ⟨lit, h, ⟨ds, hne, hds, ⟨rfl, rfl⟩ | ⟨rfl, rfl⟩⟩, hrest⟩
        · exact ⟨value lit, rest, readNat_eq_some_iff.mpr ⟨lit, hne, hds, h, rfl, hrest⟩, rfl, rfl⟩
        · exact absurd (List.cons.inj h).1 hb

/-- The text starts with an integer literal for `n`, and the literal is as long as possible. -/
def Leads (text : List UInt8) (n : ℤ) : Prop :=
  ∃ lit rest, text = lit ++ rest ∧ Spells lit n ∧ NoDigitAhead rest

theorem Spells.leads {text : List UInt8} {n : ℤ} (h : Spells text n) : Leads text n :=
  ⟨text, [], (List.append_nil text).symm, h, by simp [NoDigitAhead]⟩

end Fixure.Decimal
