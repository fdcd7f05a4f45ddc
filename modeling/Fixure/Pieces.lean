import Mathlib.Data.List.Basic
import Mathlib.Data.List.DropRight

/-!
# Reading a list piece by piece

`trim` removes what satisfies a predicate from both ends of a list. `split` cuts a list at
the places that a predicate marks; the predicate may look at what follows the place. `scan`
is a loop that cuts one piece off after the other and reads it; wherever the loop cuts at
the marked places, it reads the pieces of `split` in order and stops at the first refusal
(`scan_eq`).
-/

namespace Fixure.Pieces

variable {α β ε : Type*}

/-! ### Trimming -/

section Trim
variable {p : α → Bool}

def trim (p : α → Bool) (xs : List α) : List α := (xs.dropWhile p).rdropWhile p

theorem rdropWhile_append_of_pos {xs ys : List α} (h : ∀ y ∈ ys, p y = true) :
    (xs ++ ys).rdropWhile p = xs.rdropWhile p := by
  rw [List.rdropWhile, List.rdropWhile, List.reverse_append, List.dropWhile_append_of_pos]
  intro y hy
  exact h y (List.mem_reverse.mp hy)

theorem rdropWhile_append_of_last {y : α} (hy : p y = false) (xs zs : List α) :
    (xs ++ y :: zs).rdropWhile p = xs ++ y :: zs.rdropWhile p := by
  induction zs using List.reverseRecOn with
  | nil => exact List.rdropWhile_concat_neg p xs y (by simp [hy])
  | append_singleton zs z ih =>
    have hsplit : xs ++ y :: (zs ++ [z]) = (xs ++ y :: zs) ++ [z] := by simp
    rw [hsplit]
    cases hz : p z with
    | true => rw [List.rdropWhile_concat_pos p _ z hz, ih, List.rdropWhile_concat_pos p _ z hz]
    | false =>
      rw [List.rdropWhile_concat_neg p _ z (by simp [hz]),
        List.rdropWhile_concat_neg p _ z (by simp [hz]), ← hsplit]

theorem exists_trim (p : α → Bool) (xs : List α) :
    ∃ a b, xs = a ++ (trim p xs ++ b) ∧ (∀ x ∈ a, p x = true) ∧ ∀ x ∈ b, p x = true := by
  have hright : (xs.dropWhile p).rdropWhile p ++ (xs.dropWhile p).rtakeWhile p =
      xs.dropWhile p := List.rdropWhile_append_rtakeWhile
  refine ⟨xs.takeWhile p, (xs.dropWhile p).rtakeWhile p, ?_, ?_, ?_⟩
  · rw [trim, hright, List.takeWhile_append_dropWhile]
  · exact fun x hx => List.all_eq_true.mp List.all_takeWhile x hx
  · exact fun x hx => List.mem_rtakeWhile_imp hx

theorem trim_append {a b : List α} (ha : ∀ x ∈ a, p x = true) (hb : ∀ x ∈ b, p x = true)
    (xs : List α) : trim p (a ++ (xs ++ b)) = trim p xs := by
  rw [trim, trim, List.dropWhile_append_of_pos ha]
  by_cases hx : ∀ x ∈ xs, p x = true
  · have hall : ∀ x ∈ xs ++ b, p x = true := by
      intro x hxb
      exact (List.mem_append.mp hxb).elim (hx x) (hb x)
    rw [List.dropWhile_eq_nil_iff.mpr hx, List.dropWhile_eq_nil_iff.mpr hall]
  · have hne : xs.dropWhile p ≠ [] := fun h => hx (List.dropWhile_eq_nil_iff.mp h)
    rw [List.dropWhile_append, if_neg (by simpa using hne), rdropWhile_append_of_pos hb]

theorem trim_eq_self {xs : List α} (hhead : ∀ x ∈ xs.head?, p x = false)
    (hlast : ∀ x ∈ xs.getLast?, p x = false) : trim p xs = xs := by
  cases xs with
  | nil => rfl
  | cons x xs =>
    have hx : p x = false := hhead x rfl
    rw [trim, List.dropWhile_cons_of_neg (by simp [hx]), List.rdropWhile_eq_self_iff]
    intro hl hp
    have h := hlast _ (List.getLast_mem_getLast? hl)
    rw [hp] at h
    cases h

theorem trim_eq_nil_iff {xs : List α} : trim p xs = [] ↔ ∀ x ∈ xs, p x = true := by
  constructor
  · intro h
    obtain ⟨a, b, hxs, ha, hb⟩ := exists_trim p xs
    rw [h, List.nil_append] at hxs
    intro x hx
    rw [hxs] at hx
    exact (List.mem_append.mp hx).elim (ha x) (hb x)
  · intro h
    rw [trim, List.dropWhile_eq_nil_iff.mpr h]
    rfl

theorem mem_of_mem_trim {xs : List α} {x : α} (h : x ∈ trim p xs) : x ∈ xs := by
  obtain ⟨a, b, hxs, _⟩ := exists_trim p xs
  rw [hxs]
  simp [h]

theorem mem_trim_of_mem {xs : List α} {x : α} (h : x ∈ xs) (hx : p x = false) :
    x ∈ trim p xs := by
  obtain ⟨a, b, hxs, ha, hb⟩ := exists_trim p xs
  rw [hxs, List.mem_append, List.mem_append] at h
  rcases h with h | h | h
  · exact absurd (ha x h) (by simp [hx])
  · exact h
  · exact absurd (hb x h) (by simp [hx])

/-- Around an element that stays, either side is trimmed at its outer end. -/
theorem trim_append_cons {x : α} (hx : p x = false) (a b : List α) :
    trim p (a ++ x :: b) = a.dropWhile p ++ x :: b.rdropWhile p := by
  rw [trim, List.dropWhile_append]
  split_ifs with ha
  · rw [List.isEmpty_iff.mp ha, List.dropWhile_cons_of_neg (by simp [hx])]
    exact rdropWhile_append_of_last hx [] b
  · exact rdropWhile_append_of_last hx _ b

theorem trim_append_cons_ne {x : α} (hx : p x = false) (a b : List α) :
    trim p (a ++ x :: b) ≠ trim p a := by
  intro h
  have hshort : (trim p a).length ≤ (a.dropWhile p).length :=
    (List.rdropWhile_prefix p _).length_le
  have hlen := congrArg List.length h
  rw [trim_append_cons hx, List.length_append, List.length_cons] at hlen
  omega

theorem trim_dropWhile (xs : List α) : trim p (xs.dropWhile p) = trim p xs := by
  rw [trim, List.dropWhile_idempotent, trim]

theorem trim_rdropWhile (xs : List α) : trim p (xs.rdropWhile p) = trim p xs := by
  have hnil : ∀ x ∈ ([] : List α), p x = true := fun x hx => absurd hx List.not_mem_nil
  have hright : ∀ x ∈ xs.rtakeWhile p, p x = true := fun x hx => List.mem_rtakeWhile_imp hx
  have hsplit : xs.rdropWhile p ++ xs.rtakeWhile p = xs := List.rdropWhile_append_rtakeWhile
  have htrim := trim_append hnil hright (xs.rdropWhile p)
  rw [List.nil_append, hsplit] at htrim
  exact htrim.symm

end Trim

/-! ### Splitting -/

section Split
variable {p : α → List α → Bool}

def split (p : α → List α → Bool) : List α → List (List α)
  | [] => [[]]
  | x :: xs => if p x xs then [] :: split p xs else (split p xs).modifyHead (x :: ·)

/-- Which places of the list are marked. -/
def marks (p : α → List α → Bool) : List α → List Bool
  | [] => []
  | x :: xs => p x xs :: marks p xs

theorem exists_split_eq (p : α → List α → Bool) (xs : List α) :
    ∃ piece pieces, split p xs = piece :: pieces := by
  induction xs with
  | nil => exact ⟨[], [], rfl⟩
  | cons x xs ih =>
    rw [split]
    split_ifs
    · exact ⟨[], split p xs, rfl⟩
    · obtain ⟨piece, pieces, h⟩ := ih
      exact ⟨x :: piece, pieces, by rw [h, List.modifyHead_cons]⟩

theorem split_const [DecidableEq α] (c : α) (xs : List α) :
    split (fun x _ => x == c) xs = xs.splitOn c := by
  induction xs with
  | nil => rfl
  | cons x xs ih => rw [split, ih, List.splitOn_cons_eq_if_modifyHead]

theorem modifyHead_nil_append (pieces : List (List α)) : pieces.modifyHead ([] ++ ·) = pieces := by
  cases pieces <;> rfl

theorem mem_of_mem_split {xs piece : List α} {y : α} (h : piece ∈ split p xs) (hy : y ∈ piece) :
    y ∈ xs := by
  induction xs generalizing piece with
  | nil =>
    rw [split, List.mem_singleton] at h
    rwa [h] at hy
  | cons x xs ih =>
    rw [split] at h
    split_ifs at h
    · rcases List.mem_cons.mp h with rfl | h
      · exact absurd hy List.not_mem_nil
      · exact List.mem_cons_of_mem x (ih h hy)
    · obtain ⟨q, qs, hsplit⟩ := exists_split_eq p xs
      rw [hsplit, List.modifyHead_cons] at h
      rcases List.mem_cons.mp h with rfl | h
      · rcases List.mem_cons.mp hy with rfl | hy
        · exact List.mem_cons_self
        · exact List.mem_cons_of_mem x (ih (hsplit ▸ List.mem_cons_self) hy)
      · exact List.mem_cons_of_mem x (ih (hsplit ▸ List.mem_cons_of_mem q h) hy)

/-- Nothing in `a` is marked when `b` follows it. -/
def Unmarked (p : α → List α → Bool) (a b : List α) : Prop :=
  ∀ u y v, a = u ++ y :: v → p y (v ++ b) = false

theorem Unmarked.tail {x : α} {a b : List α} (h : Unmarked p (x :: a) b) : Unmarked p a b := by
  intro u y v ha
  exact h (x :: u) y v (by rw [ha]; rfl)

theorem split_append {a b : List α} (h : Unmarked p a b) :
    split p (a ++ b) = (split p b).modifyHead (a ++ ·) := by
  induction a with
  | nil =>
    obtain ⟨piece, pieces, hb⟩ := exists_split_eq p b
    simp [hb]
  | cons x a ih =>
    have hx : p x (a ++ b) = false := h [] x a rfl
    rw [List.cons_append, split, hx, ih h.tail, if_neg (by simp)]
    rw [List.modifyHead_modifyHead]
    rfl

theorem split_append_cons {a b : List α} {x : α} (h : Unmarked p a (x :: b)) (hx : p x b = true) :
    split p (a ++ x :: b) = a :: split p b := by
  rw [split_append h, split, if_pos hx, List.modifyHead_cons, List.append_nil]

theorem split_eq_singleton {a : List α} (h : Unmarked p a []) : split p a = [a] := by
  have hsplit := split_append h
  rw [List.append_nil] at hsplit
  rw [hsplit]
  simp [split]

theorem split_append_right {b : List α} (hb : Unmarked p b [])
    (hahead : ∀ x xs, p x (xs ++ b) = p x xs) (xs : List α) :
    List.Forall₂ (fun q r => q = r ∨ q = r ++ b) (split p (xs ++ b)) (split p xs) := by
  induction xs with
  | nil =>
    rw [List.nil_append, split_eq_singleton hb, split]
    exact .cons (Or.inr rfl) .nil
  | cons x xs ih =>
    rw [List.cons_append, split, split, hahead]
    split_ifs
    · exact .cons (Or.inl rfl) ih
    · generalize split p (xs ++ b) = qs at ih
      generalize split p xs = rs at ih
      cases ih with
      | nil => exact .nil
      | cons hq htail =>
        refine .cons ?_ htail
        apply hq.imp
        · intro h
          rw [h]
        · intro h
          rw [h]
          rfl

theorem head_split {xs piece : List α} {pieces : List (List α)} (h : split p xs = piece :: pieces) :
    ∃ post, xs = piece ++ post ∧ Unmarked p piece post := by
  have hnil (post : List α) : Unmarked p [] post := by
    intro u y v h
    exact absurd h (by simp)
  induction xs generalizing piece pieces with
  | nil =>
    rw [split] at h
    obtain ⟨rfl, _⟩ := List.cons.inj h
    exact ⟨[], rfl, hnil []⟩
  | cons x xs ih =>
    rw [split] at h
    split_ifs at h with hx
    · obtain ⟨rfl, _⟩ := List.cons.inj h
      exact ⟨x :: xs, rfl, hnil _⟩
    · obtain ⟨q, qs, hsplit⟩ := exists_split_eq p xs
      rw [hsplit, List.modifyHead_cons] at h
      obtain ⟨rfl, _⟩ := List.cons.inj h
      obtain ⟨post, rfl, hfree⟩ := ih hsplit
      refine ⟨post, rfl, ?_⟩
      intro u y v hq
      cases u with
      | nil =>
        obtain ⟨rfl, rfl⟩ := List.cons.inj hq
        simpa using hx
      | cons z u =>
        obtain ⟨_, hq⟩ := List.cons.inj hq
        exact hfree u y v hq

theorem exists_of_mem_split {xs piece : List α} (h : piece ∈ split p xs) :
    ∃ pre post, xs = pre ++ (piece ++ post) ∧ Unmarked p piece post := by
  induction xs with
  | nil =>
    rw [split, List.mem_singleton] at h
    have hnil : split p [] = [[]] := rfl
    obtain ⟨post, hpost, hfree⟩ := head_split hnil
    exact ⟨[], post, by rw [h]; exact hpost, h ▸ hfree⟩
  | cons x xs ih =>
    obtain ⟨q, qs, hsplit⟩ := exists_split_eq p (x :: xs)
    rw [hsplit] at h
    rcases List.mem_cons.mp h with rfl | hmem
    · obtain ⟨post, hpost, hfree⟩ := head_split hsplit
      exact ⟨[], post, hpost, hfree⟩
    · have hlater : piece ∈ split p xs := by
        rw [split] at hsplit
        split_ifs at hsplit
        · exact (List.cons.inj hsplit).2 ▸ hmem
        · obtain ⟨r, rs, hrest⟩ := exists_split_eq p xs
          rw [hrest, List.modifyHead_cons] at hsplit
          obtain ⟨_, rfl⟩ := List.cons.inj hsplit
          exact hrest ▸ List.mem_cons_of_mem r hmem
      obtain ⟨pre, post, rfl, hfree⟩ := ih hlater
      exact ⟨x :: pre, post, rfl, hfree⟩

theorem mem_split_append_cons {a b piece : List α} {x : α} (hx : p x b = true)
    (h : piece ∈ split p b) : piece ∈ (split p (a ++ x :: b)).tail := by
  induction a with
  | nil =>
    rw [List.nil_append, split, if_pos hx]
    exact h
  | cons y a ih =>
    rw [List.cons_append, split]
    split_ifs
    · exact List.mem_of_mem_tail ih
    · rwa [List.tail_modifyHead]

theorem marks_append {a : List α} (h : ∀ x ∈ a, ∀ rest, p x rest = false) (b : List α) :
    marks p (a ++ b) = a.map (fun _ => false) ++ marks p b := by
  induction a with
  | nil => rfl
  | cons x a ih =>
    rw [List.forall_mem_cons] at h
    rw [List.cons_append, marks, h.1, ih h.2]
    rfl

/-- Two texts that are marked alike, and differ at marks only, have the same pieces. -/
theorem split_eq_of_marks {R : α → α → Prop} {xs ys : List α} (h : List.Forall₂ R xs ys)
    (hmarks : marks p xs = marks p ys)
    (hdiffer : ∀ x y rest, R x y → p x rest = false → y = x) : split p xs = split p ys := by
  induction h with
  | nil => rfl
  | @cons x y xs ys hxy _ ih =>
    obtain ⟨hhead, htail⟩ := List.cons.inj hmarks
    rw [split, split, ih htail, ← hhead]
    split_ifs with hx
    · rfl
    · rw [hdiffer x y xs hxy (by simpa using hx)]

end Split

/-! ### The loop -/

abbrev Cut (α : Type*) := List α → List α × List α

/-- The loop on a text: cut a piece off, hand it with its number to `read`, and keep what it
returns. The first `n` pieces are done. -/
def scan (cut : Cut α) (read : ℕ → List α → Except ε (Option β)) :
    ℕ → ℕ → List β → List α → Except ε (List β)
  | 0, _, done, _ => .ok done
  | rounds + 1, n, done, text =>
    if text.isEmpty then .ok done
    else
      match read (n + 1) (cut text).1 with
      | .error e => .error e
      | .ok item => scan cut read rounds (n + 1) (done ++ item.toList) (cut text).2

/-- Read the pieces in order, the first one as number `n`. -/
def collect (read : ℕ → List α → Except ε (Option β)) : ℕ → List (List α) → Except ε (List β)
  | _, [] => .ok []
  | n, piece :: pieces =>
    match read n piece with
    | .error e => .error e
    | .ok item => (collect read (n + 1) pieces).map (item.toList ++ ·)

/-- A cut of a text that is not empty ends at the first marked place, or takes everything. -/
def CutsAt (p : α → List α → Bool) (cut : Cut α) : Prop :=
  ∀ text, text ≠ [] →
    (Unmarked p text [] ∧ cut text = (text, [])) ∨
      ∃ a x b, text = a ++ x :: b ∧ Unmarked p a (x :: b) ∧ p x b = true ∧ cut text = (a, b)

section Scan
variable {p : α → List α → Bool} {cut : Cut α} {read : ℕ → List α → Except ε (Option β)}

theorem collect_nil_piece (hnil : ∀ n, read n [] = .ok none) (n : ℕ) :
    collect read n [[]] = .ok [] := by
  simp only [collect, hnil]
  rfl

theorem scan_eq (hcut : CutsAt p cut) (hnil : ∀ n, read n [] = .ok none) {rounds n : ℕ}
    {done : List β} {text : List α} (hrounds : text.length ≤ rounds) :
    scan cut read rounds n done text =
      (collect read (n + 1) (split p text)).map (done ++ ·) := by
  have hend (n : ℕ) (done : List β) :
      Except.ok done = (collect read (n + 1) (split p [])).map (done ++ ·) := by
    rw [split, collect_nil_piece hnil]
    simp [Except.map]
  induction rounds generalizing n done text with
  | zero =>
    obtain rfl := List.eq_nil_of_length_eq_zero (Nat.le_zero.mp hrounds)
    exact hend n done
  | succ rounds ih =>
    rw [scan]
    by_cases hempty : text = []
    · subst hempty
      exact hend n done
    · rw [if_neg (by simpa using hempty)]
      rcases hcut text hempty with ⟨hfree, hall⟩ | ⟨a, x, b, rfl, hfree, hx, hall⟩
      · rw [hall, split_eq_singleton hfree, collect]
        cases read (n + 1) text with
        | error e => rfl
        | ok item =>
          have hrest : scan cut read rounds (n + 1) (done ++ item.toList) [] =
              (collect read (n + 1 + 1) (split p [])).map ((done ++ item.toList) ++ ·) :=
            ih (Nat.zero_le rounds)
          simp only [hrest, ← hend]
          simp [Except.map, collect]
      · rw [hall, split_append_cons hfree hx, collect]
        cases read (n + 1) a with
        | error e => rfl
        | ok item =>
          have hb : b.length ≤ rounds := by
            rw [List.length_append, List.length_cons] at hrounds
            omega
          simp only [ih hb]
          cases collect read (n + 1 + 1) (split p b) with
          | error e => rfl
          | ok items => simp [Except.map]

end Scan

/-! ### The first element of a kind -/

section First
variable {P : α → Prop}

theorem exists_first {xs : List α} (h : ∃ x ∈ xs, P x) :
    ∃ pre x post, xs = pre ++ x :: post ∧ (∀ q ∈ pre, ¬ P q) ∧ P x := by
  classical
  obtain ⟨x, hx, hp⟩ := h
  cases hfind : xs.find? fun x => P x with
  | none => exact absurd hp (by simpa using List.find?_eq_none.mp hfind x hx)
  | some y =>
    obtain ⟨hy, pre, post, hsplit, hpre⟩ := List.find?_eq_some_iff_append.mp hfind
    exact ⟨pre, y, post, hsplit, by simpa using hpre, by simpa using hy⟩

theorem first_unique {pre pre' post post' : List α} {x x' : α}
    (h : pre ++ x :: post = pre' ++ x' :: post') (hpre : ∀ q ∈ pre, ¬ P q) (hx : P x)
    (hpre' : ∀ q ∈ pre', ¬ P q) (hx' : P x') : pre = pre' ∧ x = x' := by
  rcases List.append_eq_append_iff.mp h with ⟨as, hp, htail⟩ | ⟨bs, hp, htail⟩
  · cases as with
    | nil => exact ⟨by simpa using hp.symm, (List.cons.inj htail).1⟩
    | cons a as =>
      obtain ⟨rfl, _⟩ := List.cons.inj htail
      exact absurd hx (hpre' x (by simp [hp]))
  · cases bs with
    | nil => exact ⟨by simpa using hp, (List.cons.inj htail).1.symm⟩
    | cons b bs =>
      obtain ⟨rfl, _⟩ := List.cons.inj htail
      exact absurd hx' (hpre x' (by simp [hp]))

end First

/-! ### What is read -/

section Collect
variable {read : ℕ → List α → Except ε (Option β)}

theorem collect_map {ι : Type*} {f : ι → List α} {g : ι → Option β} {is : List ι}
    (h : ∀ i ∈ is, ∀ n, read n (f i) = .ok (g i)) (n : ℕ) :
    collect read n (is.map f) = .ok (is.filterMap g) := by
  induction is generalizing n with
  | nil => rfl
  | cons i is ih =>
    rw [List.forall_mem_cons] at h
    rw [List.map_cons, collect, h.1 n]
    simp only [ih h.2]
    cases hg : g i with
    | none => simp [Except.map, hg]
    | some item => simp [Except.map, hg]

/-- Whether a piece is refused does not depend on its number. -/
def Refuses (read : ℕ → List α → Except ε (Option β)) (Bad : List α → Prop) : Prop :=
  ∀ n piece, (∃ e, read n piece = .error e) ↔ Bad piece

variable {Bad : List α → Prop}

/-- The result is the complaint about the first piece that is refused. -/
theorem collect_eq_error_iff (hbad : Refuses read Bad) {pieces : List (List α)} {n : ℕ} {e : ε} :
    collect read n pieces = .error e ↔
      ∃ pre piece post, pieces = pre ++ piece :: post ∧ (∀ q ∈ pre, ¬ Bad q) ∧
        read (n + pre.length) piece = .error e := by
  induction pieces generalizing n with
  | nil => simp [collect]
  | cons q pieces ih =>
    rw [collect]
    cases hq : read n q with
    | error e' =>
      simp only [Except.error.injEq]
      constructor
      · intro he
        subst he
        exact ⟨[], q, pieces, rfl, fun q hq => absurd hq List.not_mem_nil, hq⟩
      · intro ⟨pre, piece, post, hsplit, hpre, hread⟩
        cases pre with
        | nil =>
          obtain ⟨rfl, _⟩ := List.cons.inj hsplit
          rw [List.length_nil, Nat.add_zero, hq] at hread
          exact Except.error.inj hread
        | cons q' pre =>
          obtain ⟨rfl, _⟩ := List.cons.inj hsplit
          exact absurd ((hbad n q).mp ⟨e', hq⟩) (hpre q List.mem_cons_self)
    | ok item =>
      have hgood : ¬ Bad q := by
        intro hb
        obtain ⟨e', he⟩ := (hbad n q).mpr hb
        rw [hq] at he
        cases he
      have htail : (collect read (n + 1) pieces).map (item.toList ++ ·) = .error e ↔
          collect read (n + 1) pieces = .error e := by
        cases collect read (n + 1) pieces with
        | error e' => simp [Except.map]
        | ok items => simp [Except.map]
      simp only [htail, ih]
      constructor
      · intro ⟨pre, piece, post, hsplit, hpre, hread⟩
        refine ⟨q :: pre, piece, post, by rw [hsplit]; rfl, ?_, ?_⟩
        · exact List.forall_mem_cons.mpr ⟨hgood, hpre⟩
        · rwa [List.length_cons, Nat.add_comm pre.length 1, ← Nat.add_assoc]
      · intro ⟨pre, piece, post, hsplit, hpre, hread⟩
        cases pre with
        | nil =>
          obtain ⟨rfl, _⟩ := List.cons.inj hsplit
          rw [List.length_nil, Nat.add_zero, hq] at hread
          cases hread
        | cons q' pre =>
          obtain ⟨_, hsplit⟩ := List.cons.inj hsplit
          rw [List.forall_mem_cons] at hpre
          rw [List.length_cons, Nat.add_comm pre.length 1, ← Nat.add_assoc] at hread
          exact ⟨pre, piece, post, hsplit, hpre.2, hread⟩

theorem collect_cons_eq_ok_iff {piece : List α} {pieces : List (List α)} {n : ℕ} {items : List β} :
    collect read n (piece :: pieces) = .ok items ↔
      ∃ item rest, read n piece = .ok item ∧ collect read (n + 1) pieces = .ok rest ∧
        items = item.toList ++ rest := by
  rw [collect]
  cases read n piece with
  | error e => simp
  | ok item =>
    cases collect read (n + 1) pieces with
    | error e => simp [Except.map]
    | ok rest => simp [Except.map, eq_comm]

/-- What was read of each piece is in the result, and nothing else is. -/
theorem mem_of_collect {pieces : List (List α)} {n : ℕ} {items : List β}
    (h : collect read n pieces = .ok items) :
    (∀ piece ∈ pieces, ∃ k item, read k piece = .ok item ∧ ∀ b ∈ item, b ∈ items) ∧
      ∀ b ∈ items, ∃ k, ∃ piece ∈ pieces, read k piece = .ok (some b) := by
  induction pieces generalizing n items with
  | nil =>
    obtain rfl : [] = items := Except.ok.inj h
    exact ⟨fun q hq => absurd hq List.not_mem_nil, fun b hb => absurd hb List.not_mem_nil⟩
  | cons q pieces ih =>
    obtain ⟨item, rest, hread, hrest, rfl⟩ := collect_cons_eq_ok_iff.mp h
    obtain ⟨hall, hback⟩ := ih hrest
    constructor
    · intro piece hmem
      rcases List.mem_cons.mp hmem with rfl | hmem
      · refine ⟨n, item, hread, fun b hb => ?_⟩
        exact List.mem_append_left _ (Option.mem_toList.mpr hb)
      · obtain ⟨k, item', hk, hin⟩ := hall piece hmem
        exact ⟨k, item', hk, fun b hb => List.mem_append_right _ (hin b hb)⟩
    · intro b hb
      rcases List.mem_append.mp hb with hb | hb
      · rw [Option.mem_toList] at hb
        exact ⟨n, q, List.mem_cons_self, by rw [hread, hb]⟩
      · obtain ⟨k, piece, hmem, hk⟩ := hback b hb
        exact ⟨k, piece, List.mem_cons_of_mem q hmem, hk⟩

theorem exists_collect_error_iff (hbad : Refuses read Bad) (pieces : List (List α)) (n : ℕ) :
    (∃ e, collect read n pieces = .error e) ↔ ∃ piece ∈ pieces, Bad piece := by
  induction pieces generalizing n with
  | nil => simp [collect]
  | cons q pieces ih =>
    rw [collect, List.exists_mem_cons_iff, ← hbad n q, ← ih (n + 1)]
    cases read n q with
    | error e => simp
    | ok item =>
      cases collect read (n + 1) pieces with
      | error e => simp [Except.map]
      | ok items => simp [Except.map]

theorem collect_congr {pieces others : List (List α)}
    (h : List.Forall₂ (fun q r => ∀ n, read n q = read n r) pieces others) (n : ℕ) :
    collect read n pieces = collect read n others := by
  induction h generalizing n with
  | nil => rfl
  | cons hq _ ih => rw [collect, collect, hq n, ih]

end Collect

end Fixure.Pieces
