import Mathlib.Data.List.Basic

/-!
# Cutting a list in front of chosen elements

`segments p l` opens a segment at every element of `l` that satisfies `p`; what
stands before the first of them is the lead. A `Span` is a stretch of an array by
position and size, and `spans` lays consecutive segments out as such stretches.
-/

namespace Fixure.Segments

variable {α : Type*} {p : α → Bool} {l : List α}

/-- The lead of a list, and its segments. -/
def segments (p : α → Bool) : List α → List α × List (List α)
  | [] => ([], [])
  | a :: l =>
    if p a then ([], (a :: (segments p l).1) :: (segments p l).2)
    else (a :: (segments p l).1, (segments p l).2)

/-- A segment: its first element is chosen and no other is. -/
def Opened (p : α → Bool) (s : List α) : Prop :=
  ∃ a l, s = a :: l ∧ p a = true ∧ ∀ b ∈ l, p b = false

theorem segments_cons_of_pos {a : α} (h : p a = true) :
    segments p (a :: l) = ([], (a :: (segments p l).1) :: (segments p l).2) := if_pos h

theorem segments_cons_of_neg {a : α} (h : p a = false) :
    segments p (a :: l) = (a :: (segments p l).1, (segments p l).2) :=
  if_neg (by simp [h])

theorem lead_append_flatten (p : α → Bool) (l : List α) :
    (segments p l).1 ++ (segments p l).2.flatten = l := by
  induction l with
  | nil => rfl
  | cons a l ih =>
    cases h : p a with
    | true =>
      rw [segments_cons_of_pos h, List.nil_append, List.flatten_cons, List.cons_append, ih]
    | false => rw [segments_cons_of_neg h, List.cons_append, ih]

theorem lead_free {b : α} (hb : b ∈ (segments p l).1) : p b = false := by
  induction l with
  | nil => cases hb
  | cons a l ih =>
    cases h : p a with
    | true =>
      rw [segments_cons_of_pos h] at hb
      cases hb
    | false =>
      rw [segments_cons_of_neg h] at hb
      cases hb with
      | head => exact h
      | tail _ hb => exact ih hb

theorem opened_of_mem_segments {s : List α} (hs : s ∈ (segments p l).2) : Opened p s := by
  induction l with
  | nil => cases hs
  | cons a l ih =>
    cases h : p a with
    | true =>
      rw [segments_cons_of_pos h] at hs
      cases hs with
      | head => exact ⟨a, _, rfl, h, fun b hb => lead_free hb⟩
      | tail _ hs => exact ih hs
    | false =>
      rw [segments_cons_of_neg h] at hs
      exact ih hs

theorem segments_length (p : α → Bool) (l : List α) :
    (segments p l).2.length = l.countP p := by
  induction l with
  | nil => rfl
  | cons a l ih =>
    cases h : p a with
    | true =>
      rw [segments_cons_of_pos h, List.countP_cons_of_pos h, List.length_cons, ih]
    | false =>
      rw [segments_cons_of_neg h, List.countP_cons_of_neg (by simp [h]), ih]

/-! ### Cutting what was joined -/

/-- What the segments become when more elements follow that open none. -/
def absorb (post : List α) : List (List α) → List (List α)
  | [] => []
  | [s] => [s ++ post]
  | s :: s' :: ss => s :: absorb post (s' :: ss)

theorem segments_of_free (h : ∀ a ∈ l, p a = false) : segments p l = (l, []) := by
  induction l with
  | nil => rfl
  | cons a l ih =>
    rw [List.forall_mem_cons] at h
    rw [segments_cons_of_neg h.1, ih h.2]

theorem segments_append_of_free {lead : List α} (h : ∀ a ∈ lead, p a = false) :
    segments p (lead ++ l) = (lead ++ (segments p l).1, (segments p l).2) := by
  induction lead with
  | nil => rfl
  | cons a lead ih =>
    rw [List.forall_mem_cons] at h
    rw [List.cons_append, segments_cons_of_neg h.1, ih h.2, List.cons_append]

theorem Opened.segments_append {s : List α} (h : Opened p s) :
    segments p (s ++ l) = ([], (s ++ (segments p l).1) :: (segments p l).2) := by
  obtain ⟨a, rest, rfl, ha, hrest⟩ := h
  rw [List.cons_append, segments_cons_of_pos ha, segments_append_of_free hrest, List.cons_append]

theorem length_le_flatten {ss : List (List α)} (h : ∀ s ∈ ss, Opened p s) :
    ss.length ≤ ss.flatten.length := by
  induction ss with
  | nil => exact Nat.le_refl 0
  | cons s ss ih =>
    rw [List.forall_mem_cons] at h
    obtain ⟨⟨a, l, rfl, _⟩, hrest⟩ := h
    have hle := ih hrest
    rw [List.flatten_cons, List.length_append, List.length_cons, List.length_cons]
    omega

theorem absorb_length (post : List α) (ss : List (List α)) :
    (absorb post ss).length = ss.length := by
  induction ss with
  | nil => rfl
  | cons s ss ih =>
    cases ss with
    | nil => rfl
    | cons s' ss => rw [absorb, List.length_cons, ih, List.length_cons (a := s)]

theorem flatten_absorb {ss : List (List α)} (post : List α) (h : ss ≠ []) :
    (absorb post ss).flatten = ss.flatten ++ post := by
  induction ss with
  | nil => exact absurd rfl h
  | cons s ss ih =>
    cases ss with
    | nil => simp [absorb]
    | cons s' ss => simp [absorb, ih (List.cons_ne_nil s' ss)]

/-- Segments that were joined are cut apart again. -/
theorem segments_flatten_append {s : List α} {ss : List (List α)} {post : List α}
    (h : ∀ t ∈ s :: ss, Opened p t) (hpost : ∀ a ∈ post, p a = false) :
    segments p ((s :: ss).flatten ++ post) = ([], absorb post (s :: ss)) := by
  induction ss generalizing s with
  | nil =>
    have hs := h s List.mem_cons_self
    rw [List.flatten_singleton, hs.segments_append, segments_of_free hpost, absorb]
  | cons s' ss ih =>
    rw [List.forall_mem_cons] at h
    rw [List.flatten_cons, List.append_assoc, h.1.segments_append, ih h.2, List.append_nil, absorb]

/-! ### Stretches of an array -/

structure Span where
  first : ℕ
  size : ℕ
  deriving DecidableEq

def Span.read (array : List α) (s : Span) : List α := (array.drop s.first).take s.size

/-- Consecutive segments as stretches, the first one at position `first`. -/
def spans (first : ℕ) : List (List α) → List Span
  | [] => []
  | s :: ss => ⟨first, s.length⟩ :: spans (first + s.length) ss

theorem spans_length (first : ℕ) (ss : List (List α)) : (spans first ss).length = ss.length := by
  induction ss generalizing first with
  | nil => rfl
  | cons s ss ih => rw [spans, List.length_cons, ih, List.length_cons]

theorem map_read_spans (pre : List α) (ss : List (List α)) (post : List α) :
    (spans pre.length ss).map (Span.read (pre ++ (ss.flatten ++ post))) = ss := by
  induction ss generalizing pre with
  | nil => rfl
  | cons s ss ih =>
    have hread : Span.read (pre ++ ((s :: ss).flatten ++ post)) ⟨pre.length, s.length⟩ = s := by
      rw [Span.read, List.drop_left, List.flatten_cons, List.append_assoc, List.take_left]
    have htail := ih (pre ++ s)
    rw [List.length_append, List.append_assoc, ← List.append_assoc s,
      ← List.flatten_cons] at htail
    rw [spans, List.map_cons, hread, htail]

end Fixure.Segments
