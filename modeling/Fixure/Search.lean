import Mathlib.Data.List.Infix
import Mathlib.Data.Nat.Find

/-!
# First occurrence of a pattern in a list

`find pat xs` is the position of the first occurrence of `pat` in `xs`, and
`findFrom pat xs pos` the first one at or after `pos`. A position is always
described by the split of the list that it stands for, so that users argue
about lists and not about indices.
-/

namespace Fixure.Search

variable {α : Type*} [DecidableEq α]

def find (pat xs : List α) : Option ℕ := (xs.dropInfix? pat).map fun r => r.1.length

def findFrom (pat xs : List α) (pos : ℕ) : Option ℕ :=
  (find pat (xs.drop pos)).map (pos + ·)

theorem find_eq_some_iff {pat xs : List α} {i : ℕ} :
    find pat xs = some i ↔
      (∃ a b, xs = a ++ pat ++ b ∧ a.length = i) ∧
        ∀ a b, xs = a ++ pat ++ b → i ≤ a.length := by
  constructor
  · intro h
    obtain ⟨⟨a, b⟩, hd, rfl⟩ := Option.map_eq_some_iff.mp h
    obtain ⟨⟨pat', hx, hp⟩, hmin⟩ := List.dropInfix?_eq_some_iff.mp hd
    obtain rfl := eq_of_beq hp
    exact ⟨⟨a, b, hx, rfl⟩, fun a' b' h' => hmin a' _ b' h' (beq_self_eq_true _)⟩
  · rintro ⟨⟨a, b, rfl, rfl⟩, hmin⟩
    refine Option.map_eq_some_iff.mpr ⟨(a, b), ?_, rfl⟩
    refine List.dropInfix?_eq_some_iff.mpr ⟨⟨pat, rfl, beq_self_eq_true _⟩, ?_⟩
    intro a' pat' b' h' hp
    obtain rfl := eq_of_beq hp
    exact hmin a' b' h'

theorem find_isSome_iff {pat xs : List α} : (find pat xs).isSome ↔ pat <:+: xs := by
  constructor
  · intro h
    obtain ⟨i, hi⟩ := Option.isSome_iff_exists.mp h
    obtain ⟨⟨a, b, rfl, _⟩, _⟩ := find_eq_some_iff.mp hi
    exact ⟨a, b, rfl⟩
  · rintro ⟨a, b, h⟩
    -- the shortest part that can stand before an occurrence gives the first one
    classical
    have hex : ∃ n a b, xs = a ++ pat ++ b ∧ a.length = n := ⟨_, a, b, h.symm, rfl⟩
    have hfind : find pat xs = some (Nat.find hex) := by
      refine find_eq_some_iff.mpr ⟨Nat.find_spec hex, fun a' b' h' => ?_⟩
      exact Nat.find_min' hex ⟨a', b', h', rfl⟩
    simp [hfind]

theorem find_eq_none_iff {pat xs : List α} : find pat xs = none ↔ ¬ pat <:+: xs := by
  rw [← find_isSome_iff, Bool.not_eq_true, Option.isSome_eq_false_iff, Option.isNone_iff_eq_none]

theorem find_prefix {pat : List α} (b : List α) : find pat (pat ++ b) = some 0 :=
  find_eq_some_iff.mpr ⟨⟨[], b, rfl, rfl⟩, fun _ _ _ => Nat.zero_le _⟩

/-- An occurrence is the first one when the pattern is not already complete one place
before its own end. -/
theorem find_append_iff {pat : List α} (hpat : pat ≠ []) (a b : List α) :
    find pat (a ++ pat ++ b) = some a.length ↔ ¬ pat <:+: a ++ pat.dropLast := by
  have hpos : 0 < pat.length := List.length_pos_iff.mpr hpat
  rw [find_eq_some_iff]
  constructor
  · rintro ⟨_, hmin⟩ ⟨a', b', h⟩
    have hlen := congrArg List.length h
    have hlast : pat ++ b = pat.dropLast ++ pat.getLast hpat :: b := by
      rw [List.append_cons, List.dropLast_append_getLast hpat]
    have hsplit : a ++ pat ++ b = a' ++ pat ++ (b' ++ pat.getLast hpat :: b) := by
      rw [← List.append_assoc (a' ++ pat), h, List.append_assoc a, List.append_assoc a, hlast]
    have := hmin a' _ hsplit
    simp only [List.length_append, List.length_dropLast] at hlen
    omega
  · intro h
    refine ⟨⟨a, b, rfl, rfl⟩, fun a' b' hsplit => ?_⟩
    by_contra hlt
    apply h
    -- the earlier occurrence lies inside the first `a.length + pat.length - 1` places
    have htake : (a ++ pat ++ b).take (a.length + (pat.length - 1)) = a ++ pat.dropLast := by
      rw [List.append_assoc, List.take_length_add_append,
        List.take_append_of_le_length (by omega), List.dropLast_eq_take]
    rw [← htake, hsplit]
    refine ⟨a', b'.take (a.length + (pat.length - 1) - (a' ++ pat).length), ?_⟩
    rw [List.take_append, List.take_of_length_le (l := a' ++ pat) (by simp; omega)]

theorem find_append {pat a : List α} (hpat : pat ≠ []) (h : ¬ pat <:+: a ++ pat.dropLast)
    (b : List α) : find pat (a ++ pat ++ b) = some a.length :=
  (find_append_iff hpat a b).mpr h

theorem find_eq_some_split {pat xs : List α} (hpat : pat ≠ []) {i : ℕ}
    (h : find pat xs = some i) :
    ∃ a b, xs = a ++ pat ++ b ∧ a.length = i ∧ ¬ pat <:+: a ++ pat.dropLast := by
  obtain ⟨⟨a, b, rfl, rfl⟩, _⟩ := find_eq_some_iff.mp h
  exact ⟨a, b, rfl, rfl, (find_append_iff hpat a b).mp h⟩

theorem exists_find_le (pat a b : List α) : ∃ i ≤ a.length, find pat (a ++ pat ++ b) = some i := by
  obtain ⟨i, hi⟩ := Option.isSome_iff_exists.mp (find_isSome_iff.mpr ⟨a, b, rfl⟩)
  exact ⟨i, (find_eq_some_iff.mp hi).2 a b rfl, hi⟩

theorem find_append_right {pat xs : List α} (hpat : pat ≠ []) {i : ℕ}
    (h : find pat xs = some i) (ys : List α) : find pat (xs ++ ys) = some i := by
  obtain ⟨a, b, rfl, rfl, hfirst⟩ := find_eq_some_split hpat h
  rw [List.append_assoc]
  exact find_append hpat hfirst (b ++ ys)

/-- No occurrence uses the end of `xs` together with the beginning of `ys`. -/
def NoStraddle (pat xs ys : List α) : Prop :=
  ∀ p q, p ≠ [] → q ≠ [] → pat = p ++ q → p <:+ xs → ¬ q <+: ys

omit [DecidableEq α] in
theorem infix_append_of_noStraddle {pat xs ys : List α} (h : NoStraddle pat xs ys) :
    pat <:+: xs ++ ys ↔ pat <:+: xs ∨ pat <:+: ys := by
  rw [List.infix_append_iff_ne_nil]
  constructor
  · rintro (hx | hy | ⟨p, q, hp, hq, hpq, hsuf, hpre⟩)
    · exact Or.inl hx
    · exact Or.inr hy
    · exact absurd hpre (h p q hp hq hpq hsuf)
  · rintro (hx | hy)
    · exact Or.inl hx
    · exact Or.inr (Or.inl hy)

/-- A part without the pattern can be dropped from the front, its length being added
to the position. -/
theorem find_append_left {pat xs ys : List α} (hpat : pat ≠ []) (hx : ¬ pat <:+: xs)
    (hs : NoStraddle pat xs ys) :
    find pat (xs ++ ys) = (find pat ys).map (xs.length + ·) := by
  cases hy : find pat ys with
  | none =>
    rw [Option.map_none, find_eq_none_iff, infix_append_of_noStraddle hs]
    exact not_or.mpr ⟨hx, find_eq_none_iff.mp hy⟩
  | some i =>
    obtain ⟨a, b, rfl, rfl, hfirst⟩ := find_eq_some_split hpat hy
    rw [Option.map_some, show xs.length + a.length = (xs ++ a).length by simp,
      ← List.append_assoc, ← List.append_assoc]
    refine find_append hpat ?_ b
    rw [List.append_assoc, infix_append_of_noStraddle]
    · exact not_or.mpr ⟨hx, hfirst⟩
    · intro p q hp hq hpq hsuf hpre
      refine hs p q hp hq hpq hsuf (hpre.trans ?_)
      rw [List.append_assoc]
      exact (List.prefix_append_right_inj a).mpr ((List.dropLast_prefix pat).trans
        (List.prefix_append pat b))

section Separator
variable {c : α}

theorem find_singleton_append {a : List α} (h : c ∉ a) (b : List α) :
    find [c] (a ++ c :: b) = some a.length := by
  have hfirst : ¬ [c] <:+: a ++ [c].dropLast := by
    simpa [List.singleton_infix_iff]
  simpa using find_append (List.cons_ne_nil c []) hfirst b

theorem find_singleton_eq_some_split {xs : List α} {i : ℕ} (h : find [c] xs = some i) :
    ∃ a b, xs = a ++ c :: b ∧ a.length = i ∧ c ∉ a := by
  obtain ⟨a, b, hx, ha, hfirst⟩ := find_eq_some_split (by simp) h
  exact ⟨a, b, by simpa using hx, ha, by simpa [List.singleton_infix_iff] using hfirst⟩

omit [DecidableEq α] in
theorem infix_append_cons_iff {pat xs ys : List α} (hpat : pat ≠ []) (hc : c ∉ pat) :
    pat <:+: xs ++ c :: ys ↔ pat <:+: xs ∨ pat <:+: ys := by
  rw [infix_append_of_noStraddle]
  · refine or_congr_right ⟨fun h => ?_, fun h => h.trans (List.suffix_cons c ys).isInfix⟩
    rcases List.infix_cons_iff.mp h with h | h
    · cases pat with
      | nil => exact absurd rfl hpat
      | cons d pat =>
        rw [List.cons_prefix_cons] at h
        exact absurd (List.mem_cons.mpr (Or.inl h.1.symm)) hc
    · exact h
  · intro p q _ hq hpq _ hpre
    cases q with
    | nil => exact hq rfl
    | cons d q =>
      rw [List.cons_prefix_cons] at hpre
      exact hc (by simp [hpq, hpre.1])

omit [DecidableEq α] in
theorem infix_concat_iff {pat xs : List α} (hpat : pat ≠ []) (hc : c ∉ pat) :
    pat <:+: xs ++ [c] ↔ pat <:+: xs := by
  rw [infix_append_cons_iff hpat hc, List.infix_nil, or_iff_left hpat]

omit [DecidableEq α] in
/-- A pattern closed by its only `c` occurs around the first `c` of a list only as
what stands before it. -/
theorem infix_snoc_iff {pat xs ys : List α} (hc : c ∉ pat) (hx : c ∉ xs) :
    pat ++ [c] <:+: xs ++ c :: ys ↔ pat <:+ xs ∨ pat ++ [c] <:+: ys := by
  constructor
  · rintro ⟨a, b, h⟩
    have h : (a ++ pat) ++ c :: b = xs ++ c :: ys := by simpa using h
    rcases List.append_eq_append_iff.mp h with ⟨as, hxs, htail⟩ | ⟨bs, hap, htail⟩
    · cases as with
      | nil => exact Or.inl ⟨a, by simpa using hxs.symm⟩
      | cons d as =>
        obtain ⟨rfl, _⟩ := List.cons.inj htail
        exact absurd (by simp [hxs]) hx
    · cases bs with
      | nil => exact Or.inl ⟨a, by simpa using hap⟩
      | cons d bs =>
        obtain ⟨rfl, rfl⟩ := List.cons.inj htail
        right
        -- `pat` has no `c`, so it ends `bs` and does not reach back over the `c`
        rcases List.append_eq_append_iff.mp hap with ⟨cs, _, hpat⟩ | ⟨cs, _, hbs⟩
        · exact absurd (by simp [hpat]) hc
        · cases cs with
          | nil =>
            obtain rfl : c :: bs = pat := hbs
            exact absurd List.mem_cons_self hc
          | cons e cs =>
            obtain ⟨_, rfl⟩ := List.cons.inj hbs
            exact ⟨cs, b, by simp⟩
  · rintro (⟨a, rfl⟩ | h)
    · exact ⟨a, ys, by simp⟩
    · exact (h.trans (List.suffix_cons c ys).isInfix).trans (List.suffix_append xs _).isInfix

theorem find_snoc_here {k a : List α} (hk : c ∉ k) (ha : c ∉ a) (ys : List α) :
    find (k ++ [c]) ((a ++ k) ++ c :: ys) = some a.length := by
  have hsplit : (a ++ k) ++ c :: ys = a ++ (k ++ [c]) ++ ys := by simp
  have hfree : ¬ k ++ [c] <:+: a ++ (k ++ [c]).dropLast := by
    intro h
    have hc : c ∈ a ++ (k ++ [c]).dropLast := h.subset (by simp)
    rw [List.dropLast_concat] at hc
    rcases List.mem_append.mp hc with hc | hc
    · exact ha hc
    · exact hk hc
  rw [hsplit, find_append (by simp) hfree]

theorem find_snoc_skip {k xs : List α} (hk : c ∉ k) (hx : c ∉ xs) (h : ¬ k <:+ xs) (ys : List α) :
    find (k ++ [c]) (xs ++ c :: ys) = (find (k ++ [c]) ys).map (xs.length + 1 + ·) := by
  have hsplit : xs ++ c :: ys = (xs ++ [c]) ++ ys := by simp
  have hlen : xs.length + 1 = (xs ++ [c]).length := by simp
  rw [hsplit, hlen]
  apply find_append_left (by simp)
  · rw [infix_snoc_iff hk hx, not_or]
    refine ⟨h, ?_⟩
    rw [List.infix_nil]
    simp
  · -- the only `c` of the pattern is its last element
    intro p q hp hq hpq hsuf _
    obtain ⟨q, b, rfl⟩ := List.eq_nil_or_concat' q |>.resolve_left hq
    rw [← List.append_assoc] at hpq
    obtain ⟨rfl, _⟩ := List.append_inj' hpq rfl
    obtain ⟨p, d, rfl⟩ := List.eq_nil_or_concat' p |>.resolve_left hp
    obtain ⟨a, ha⟩ := hsuf
    rw [← List.append_assoc] at ha
    obtain ⟨_, hd⟩ := List.append_inj' ha rfl
    obtain rfl := (List.cons.inj hd).1
    exact hk (by simp)

end Separator

theorem findFrom_eq_none_iff {pat xs : List α} {pos : ℕ} :
    findFrom pat xs pos = none ↔ ¬ pat <:+: xs.drop pos := by
  rw [findFrom, Option.map_eq_none_iff, find_eq_none_iff]

theorem findFrom_length_append (pat a b : List α) :
    findFrom pat (a ++ b) a.length = (find pat b).map (a.length + ·) := by
  rw [findFrom, List.drop_left]

theorem findFrom_append_add (pat x ys : List α) (j : ℕ) :
    findFrom pat (x ++ ys) (x.length + j) = (findFrom pat ys j).map (x.length + ·) := by
  rw [findFrom, findFrom, ← List.drop_drop, List.drop_left, Option.map_map]
  congr 1
  funext i
  simp only [Function.comp_apply]
  omega

end Fixure.Search
