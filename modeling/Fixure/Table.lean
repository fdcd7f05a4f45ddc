import Mathlib.Data.List.AList

/-!
# Tables filled entry by entry

When entries are inserted one after another, a table keeps the last entry of every key.
-/

namespace Fixure.Tables

abbrev Table (α β : Type*) := AList fun _ : α => β

variable {α β : Type*} [DecidableEq α]

def fill (t : Table α β) (entries : List (α × β)) : Table α β :=
  entries.foldl (fun t e => t.insert e.1 e.2) t

def lastEntry (entries : List (α × β)) (a : α) : Option β := entries.reverse.lookup a

theorem lookup_insert_eq (t : Table α β) (a k : α) (b : β) :
    (t.insert k b).lookup a = if a = k then some b else t.lookup a := by
  split_ifs with h
  · rw [h, AList.lookup_insert]
  · exact AList.lookup_insert_ne h

theorem lookup_erase_eq (t : Table α β) (a k : α) :
    (t.erase k).lookup a = if a = k then none else t.lookup a := by
  split_ifs with h
  · rw [h, AList.lookup_erase]
  · exact AList.lookup_erase_ne h

theorem lookup_fill (t : Table α β) (entries : List (α × β)) (a : α) :
    (fill t entries).lookup a = (lastEntry entries a).or (t.lookup a) := by
  induction entries generalizing t with
  | nil => rfl
  | cons e entries ih =>
    obtain ⟨k, b⟩ := e
    have hfill : fill t ((k, b) :: entries) = fill (t.insert k b) entries := rfl
    rw [hfill, ih, lookup_insert_eq, lastEntry, lastEntry, List.reverse_cons, List.lookup_append,
      Option.or_assoc]
    congr 1
    by_cases h : a = k
    · simp [h]
    · simp [List.lookup_cons, beq_eq_false_iff_ne.mpr h, h]

theorem lookup_fill_empty (entries : List (α × β)) (a : α) :
    (fill ∅ entries).lookup a = lastEntry entries a := by
  rw [lookup_fill, AList.lookup_empty, Option.or_none]

theorem lastEntry_append (xs ys : List (α × β)) (a : α) :
    lastEntry (xs ++ ys) a = (lastEntry ys a).or (lastEntry xs a) := by
  rw [lastEntry, List.reverse_append, List.lookup_append]
  rfl

theorem lastEntry_eq_none_iff {entries : List (α × β)} {a : α} :
    lastEntry entries a = none ↔ ∀ e ∈ entries, e.1 ≠ a := by
  rw [lastEntry, List.lookup_eq_none_iff]
  constructor
  · intro h e he heq
    have hne := h e (List.mem_reverse.mpr he)
    simp [heq] at hne
  · intro h e he
    simpa using fun heq : a = e.1 => h e (List.mem_reverse.mp he) heq.symm

theorem lastEntry_singleton (k a : α) (b : β) :
    lastEntry [(k, b)] a = if a = k then some b else none := by
  by_cases h : a = k
  · simp [lastEntry, h]
  · simp [lastEntry, List.lookup_cons, beq_eq_false_iff_ne.mpr h, h]

theorem lastEntry_map {ι : Type*} (key : ι → α) (f : ι → β) (xs : List ι) (a : α) :
    lastEntry (xs.map fun x => (key x, f x)) a =
      (xs.reverse.find? fun x => key x = a).map f := by
  rw [lastEntry, ← List.map_reverse]
  induction xs.reverse with
  | nil => rfl
  | cons x xs ih =>
    rw [List.map_cons, List.lookup_cons, List.find?_cons]
    by_cases h : a = key x
    · simp [h]
    · simp [beq_eq_false_iff_ne.mpr h, Ne.symm h, ih]

theorem lastEntry_eq_some_iff {entries : List (α × β)} {a : α} {b : β} :
    lastEntry entries a = some b ↔
      ∃ earlier later, entries = earlier ++ (a, b) :: later ∧ ∀ e ∈ later, e.1 ≠ a := by
  rw [lastEntry, List.lookup_eq_some_iff]
  constructor
  · rintro ⟨l₁, l₂, h, hfree⟩
    refine ⟨l₂.reverse, l₁.reverse, ?_, ?_⟩
    · rw [← List.reverse_reverse entries, h]
      simp
    · intro e he
      have hne := hfree e (List.mem_reverse.mp he)
      exact fun heq => absurd heq.symm (by simpa using hne)
  · rintro ⟨earlier, later, rfl, hfree⟩
    refine ⟨later.reverse, earlier.reverse, by simp, ?_⟩
    intro e he
    have hne := hfree e (List.mem_reverse.mp he)
    simpa using fun heq : a = e.1 => hne heq.symm

theorem lastEntry_of_nodup {entries : List (α × β)} (h : (entries.map Prod.fst).Nodup) {a : α}
    {b : β} : lastEntry entries a = some b ↔ (a, b) ∈ entries := by
  rw [lastEntry_eq_some_iff]
  constructor
  · rintro ⟨earlier, later, rfl, _⟩
    simp
  · intro hm
    obtain ⟨earlier, later, rfl⟩ := List.append_of_mem hm
    refine ⟨earlier, later, rfl, ?_⟩
    rintro ⟨k, v⟩ he rfl
    rw [List.map_append, List.map_cons, List.nodup_append, List.nodup_cons] at h
    exact h.2.1.1 (List.mem_map.mpr ⟨_, he, rfl⟩)

theorem lastEntry_map_of_nodup {ι : Type*} {key : ι → α} {xs : List ι} (h : (xs.map key).Nodup)
    (f : ι → β) (a : α) :
    lastEntry (xs.map fun x => (key x, f x)) a = (xs.find? fun x => key x = a).map f := by
  rw [lastEntry_map]
  congr 1
  induction xs with
  | nil => rfl
  | cons x xs ih =>
    rw [List.map_cons, List.nodup_cons] at h
    rw [List.reverse_cons, List.find?_append, ih h.2]
    by_cases hx : key x = a
    · have hnone : xs.find? (fun y => decide (key y = a)) = none := by
        apply List.find?_eq_none.mpr
        intro y hy hya
        rw [hx, ← of_decide_eq_true hya] at h
        exact h.1 (List.mem_map_of_mem hy)
      simp [hx, hnone]
    · simp [hx]

theorem find?_map_eq_some_iff {ι : Type*} {key : ι → α} {xs : List ι} (h : (xs.map key).Nodup)
    {f : ι → β} {a : α} {b : β} :
    (xs.find? fun x => key x = a).map f = some b ↔ ∃ x ∈ xs, key x = a ∧ f x = b := by
  have hkeys : ((xs.map fun x => (key x, f x)).map Prod.fst).Nodup := by
    rw [List.map_map]
    exact h
  rw [← lastEntry_map_of_nodup h, lastEntry_of_nodup hkeys, List.mem_map]
  simp only [Prod.mk.injEq]

/-! ### Tables that are inverse to each other -/

section Inverse
variable [DecidableEq β]

def Inverse (t : Table α β) (u : Table β α) : Prop :=
  ∀ a b, t.lookup a = some b ↔ u.lookup b = some a

/-- An entry is the last one of its key exactly when it is the last one of its value. -/
def LastTogether (entries : List (α × β)) : Prop :=
  ∀ earlier a b later, entries = earlier ++ (a, b) :: later →
    ((∀ e ∈ later, e.1 ≠ a) ↔ ∀ e ∈ later, e.2 ≠ b)

omit [DecidableEq α] [DecidableEq β] in
/-- Behind the last place of an element stands nothing that does not stand behind its other
places. -/
theorem mem_later_of_last {ι : Type*} {e₁ e₂ l₁ l₂ : List ι} {x : ι}
    (h : e₁ ++ x :: l₁ = e₂ ++ x :: l₂) (hlast : x ∉ l₁) : ∀ y ∈ l₁, y ∈ l₂ := by
  intro y hy
  rcases List.append_eq_append_iff.mp h with ⟨between, _, heq⟩ | ⟨between, _, heq⟩
  · cases between with
    | nil => exact (List.cons.inj heq).2 ▸ hy
    | cons z between =>
      rw [(List.cons.inj heq).2] at hlast
      exact absurd (by simp) hlast
  · cases between with
    | nil => exact (List.cons.inj heq).2 ▸ hy
    | cons z between =>
      rw [(List.cons.inj heq).2]
      exact List.mem_append_right _ (List.mem_cons_of_mem _ hy)

omit [DecidableEq α] in
theorem lastEntry_swap_eq_some_iff {entries : List (α × β)} {a : α} {b : β} :
    lastEntry (entries.map Prod.swap) b = some a ↔
      ∃ earlier later, entries = earlier ++ (a, b) :: later ∧ ∀ e ∈ later, e.2 ≠ b := by
  rw [lastEntry_eq_some_iff]
  constructor
  · intro h
    obtain ⟨earlier, later, heq, hfree⟩ := h
    have hentries := congrArg (List.map Prod.swap) heq
    rw [List.map_map, Prod.swap_swap_eq, List.map_id, List.map_append, List.map_cons] at hentries
    refine ⟨_, _, hentries, ?_⟩
    intro e he
    obtain ⟨e', he', rfl⟩ := List.mem_map.mp he
    exact hfree e' he'
  · intro h
    obtain ⟨earlier, later, rfl, hfree⟩ := h
    refine ⟨earlier.map Prod.swap, later.map Prod.swap, by simp, ?_⟩
    intro e he
    obtain ⟨e', he', rfl⟩ := List.mem_map.mp he
    exact hfree e' he'

theorem fill_inverse_iff {entries : List (α × β)} :
    Inverse (fill ∅ entries) (fill ∅ (entries.map Prod.swap)) ↔ LastTogether entries := by
  simp only [Inverse, lookup_fill_empty, lastEntry_swap_eq_some_iff]
  simp only [lastEntry_eq_some_iff]
  constructor
  · intro h earlier a b later heq
    constructor
    · intro hkey
      obtain ⟨earlier', later', heq', hvalue⟩ := (h a b).mp ⟨earlier, later, heq, hkey⟩
      have hmem := mem_later_of_last (heq.symm.trans heq') fun hm => hkey _ hm rfl
      exact fun e he => hvalue e (hmem e he)
    · intro hvalue
      obtain ⟨earlier', later', heq', hkey⟩ := (h a b).mpr ⟨earlier, later, heq, hvalue⟩
      have hmem := mem_later_of_last (heq.symm.trans heq') fun hm => hvalue _ hm rfl
      exact fun e he => hkey e (hmem e he)
  · intro h a b
    constructor
    · intro hkey
      obtain ⟨earlier, later, heq, hfree⟩ := hkey
      exact ⟨earlier, later, heq, (h earlier a b later heq).mp hfree⟩
    · intro hvalue
      obtain ⟨earlier, later, heq, hfree⟩ := hvalue
      exact ⟨earlier, later, heq, (h earlier a b later heq).mpr hfree⟩

end Inverse

end Fixure.Tables
