import Fixure.Splitter

/-!
# A buffer that is fed and cut

Bytes are appended to a buffer, and splitters of several kinds try to take pieces off its front,
in any order. `Fed` relates what was received, what was taken and what is left. If no attempt
adds anything, the pieces stand in what was received one behind the other, with gaps, and the
buffer is its end.
-/

namespace Fixure.Splitter

variable {α : Type*}

/-- The pieces are ranges of the text, each behind the one before it. -/
def InOrder (text : List α) (pieces : List (List α)) : Prop :=
  ∃ ranges : List (ℕ × ℕ),
    ranges.map (fun r => (text.drop r.1).take (r.2 - r.1)) = pieces ∧
      (∀ r ∈ ranges, r.1 < r.2 ∧ r.2 ≤ text.length) ∧
        ranges.Pairwise fun r r' => r.2 ≤ r'.1

theorem inOrder_nil (text : List α) : InOrder text [] := ⟨[], rfl, by simp, .nil⟩

theorem range_append {text : List α} {r : ℕ × ℕ} (h : r.1 < r.2 ∧ r.2 ≤ text.length)
    (gap : List α) :
    ((text ++ gap).drop r.1).take (r.2 - r.1) = (text.drop r.1).take (r.2 - r.1) := by
  rw [List.drop_append_of_le_length (by omega), List.take_append_of_le_length]
  rw [List.length_drop]
  omega

theorem InOrder.append {text : List α} {pieces : List (List α)} (h : InOrder text pieces)
    (gap : List α) : InOrder (text ++ gap) pieces := by
  obtain ⟨ranges, rfl, hinside, hpairs⟩ := h
  refine ⟨ranges, List.map_congr_left fun r hr => range_append (hinside r hr) gap, ?_, hpairs⟩
  intro r hr
  obtain ⟨hlt, hle⟩ := hinside r hr
  rw [List.length_append]
  exact ⟨hlt, by omega⟩

theorem InOrder.concat {text : List α} {pieces : List (List α)} (h : InOrder text pieces)
    {piece : List α} (hne : piece ≠ []) : InOrder (text ++ piece) (pieces ++ [piece]) := by
  obtain ⟨ranges, rfl, hinside, hpairs⟩ := h
  have hpos := List.length_pos_iff.mpr hne
  refine ⟨ranges ++ [(text.length, text.length + piece.length)], ?_, ?_, ?_⟩
  · rw [List.map_append, List.map_singleton, List.drop_left, Nat.add_sub_cancel_left,
      List.take_length]
    congr 1
    exact List.map_congr_left fun r hr => range_append (hinside r hr) piece
  · intro r hr
    rw [List.length_append]
    rcases List.mem_append.mp hr with hr | hr
    · obtain ⟨hlt, hle⟩ := hinside r hr
      exact ⟨hlt, by omega⟩
    · rw [List.mem_singleton.mp hr]
      exact ⟨by omega, Nat.le_refl _⟩
  · rw [List.pairwise_append]
    refine ⟨hpairs, List.pairwise_singleton _ _, fun r hr r' hr' => ?_⟩
    rw [List.mem_singleton.mp hr']
    exact (hinside r hr).2

/-! ### What a buffer can have gone through -/

variable {κ : Type*}

/-- The buffer and what was taken from it, each piece with the kind of the attempt, after
`received` in any chunks. -/
inductive Fed (kinds : List κ) (next : κ → Next α) :
    List α → List (κ × List α) → List α → Prop
  | start (b : List α) : Fed kinds next b [] b
  | receive {received b : List α} {taken : List (κ × List α)} (c : List α) :
      Fed kinds next received taken b → Fed kinds next (received ++ c) taken (b ++ c)
  | refuse {received b r : List α} {taken : List (κ × List α)} {k : κ} :
      Fed kinds next received taken b → next k b = (none, r) → Fed kinds next received taken r
  | take {received b m r : List α} {taken : List (κ × List α)} {k : κ} :
      Fed kinds next received taken b → k ∈ kinds → next k b = (some m, r) →
        Fed kinds next received (taken ++ [(k, m)]) r

/-- An attempt takes bytes off the front of the buffer, and nothing else. -/
structure Cutting (next : κ → Next α) : Prop where
  refused : ∀ {k b r}, next k b = (none, r) → r <:+ b
  taken : ∀ {k b m r}, next k b = (some m, r) → m ≠ [] ∧ ∃ junk, b = junk ++ (m ++ r)

namespace Fed
variable {kinds : List κ} {next : κ → Next α} {received b : List α}
  {taken : List (κ × List α)}

theorem forall_taken {P : κ → List α → Prop} (h : Fed kinds next received taken b)
    (hP : ∀ k ∈ kinds, ∀ {b m r}, next k b = (some m, r) → P k m) :
    ∀ e ∈ taken, e.1 ∈ kinds ∧ P e.1 e.2 := by
  induction h with
  | start b => simp
  | receive c _ ih => exact ih
  | refuse _ _ ih => exact ih
  | take _ hk hm ih =>
    rw [List.forall_mem_append, List.forall_mem_singleton]
    exact ⟨ih, hk, hP _ hk hm⟩

theorem split (cutting : Cutting next) (h : Fed kinds next received taken b) :
    ∃ past, received = past ++ b ∧ InOrder past (taken.map Prod.snd) := by
  induction h with
  | start b => exact ⟨[], rfl, inOrder_nil []⟩
  | receive c _ ih =>
    obtain ⟨past, rfl, hpast⟩ := ih
    exact ⟨past, List.append_assoc _ _ _, hpast⟩
  | refuse _ hr ih =>
    obtain ⟨past, rfl, hpast⟩ := ih
    obtain ⟨gap, rfl⟩ := cutting.refused hr
    exact ⟨past ++ gap, (List.append_assoc _ _ _).symm, hpast.append gap⟩
  | @take _ _ m r _ k _ _ hm ih =>
    obtain ⟨past, rfl, hpast⟩ := ih
    obtain ⟨hne, junk, rfl⟩ := cutting.taken hm
    refine ⟨past ++ junk ++ m, by simp, ?_⟩
    rw [List.map_append]
    exact (hpast.append junk).concat hne

theorem suffix (cutting : Cutting next) (h : Fed kinds next received taken b) : b <:+ received := by
  obtain ⟨past, rfl, _⟩ := h.split cutting
  exact List.suffix_append past b

theorem inOrder (cutting : Cutting next) (h : Fed kinds next received taken b) :
    InOrder received (taken.map Prod.snd) := by
  obtain ⟨past, rfl, hpast⟩ := h.split cutting
  exact hpast.append b

/-- Every piece costs a byte. -/
theorem length_le (cutting : Cutting next) (h : Fed kinds next received taken b) :
    taken.length + b.length ≤ received.length := by
  induction h with
  | start b => simp
  | receive c _ ih =>
    rw [List.length_append, List.length_append]
    omega
  | refuse _ hr ih =>
    have hle := (cutting.refused hr).length_le
    omega
  | take _ _ hm ih =>
    obtain ⟨hne, junk, rfl⟩ := cutting.taken hm
    have hpos := List.length_pos_iff.mpr hne
    simp only [List.length_append, List.length_singleton] at ih ⊢
    omega

end Fed

/-! ### A stream of pieces -/

/-- Whatever has come of a text that begins with the piece, nothing but the piece is taken. -/
def Delimited (next : Next α) (m : List α) : Prop :=
  ∀ {b rest piece r}, b <+: m ++ rest → next b = (some piece, r) → piece = m ∧ b = m ++ r

theorem Lawful.delimited {next : Next α} (law : Lawful next) {m : List α}
    (hm : ∀ x, next (m ++ x) = (some m, x)) : Delimited next m := by
  rintro b rest piece r ⟨x, hx⟩ h
  have hwhole := law.stable h x
  rw [hx, hm rest] at hwhole
  obtain ⟨hpiece, rfl⟩ := Prod.mk.inj hwhole
  rw [← List.append_assoc] at hx
  exact ⟨(Option.some.inj hpiece).symm, List.append_cancel_right hx⟩

/-- The first ones of the pieces were taken, and the buffer holds what came behind them. -/
structure CutsAlong (ms : List (List α)) (received : List α) (taken : List (List α)) (b : List α) :
    Prop where
  taken_eq : taken = ms.take taken.length
  received_eq : received = taken.flatten ++ b

/-- Every piece that is whole in the text was taken. -/
def TakesAll (ms : List (List α)) (text : List α) (taken : List (List α)) : Prop :=
  ∀ k ≤ ms.length, (ms.take k).flatten <+: text → k ≤ taken.length

theorem TakesAll.mono {ms taken taken' : List (List α)} {text text' : List α}
    (h : TakesAll ms text taken) (htext : text' <+: text) (htaken : taken.length ≤ taken'.length) :
    TakesAll ms text' taken' :=
  fun k hk hpre => Nat.le_trans (h k hk (hpre.trans htext)) htaken

namespace CutsAlong
variable {ms taken : List (List α)} {received b : List α} {next : Next α}

theorem start (ms : List (List α)) : CutsAlong ms [] [] [] := ⟨rfl, rfl⟩

theorem receive (h : CutsAlong ms received taken b) (c : List α) :
    CutsAlong ms (received ++ c) taken (b ++ c) :=
  ⟨h.taken_eq, by rw [h.received_eq, List.append_assoc]⟩

/-- The buffer is empty, or the beginning of the next piece and those behind it. -/
theorem ahead (h : CutsAlong ms received taken b) (hpre : received <+: ms.flatten) :
    b = [] ∨ ∃ m rest, ms[taken.length]? = some m ∧ b <+: m ++ rest := by
  have hsplit : ms.flatten = taken.flatten ++ (ms.drop taken.length).flatten := by
    calc ms.flatten = (ms.take taken.length ++ ms.drop taken.length).flatten := by
          rw [List.take_append_drop]
      _ = taken.flatten ++ (ms.drop taken.length).flatten := by
          rw [List.flatten_append, ← h.taken_eq]
  rw [h.received_eq, hsplit, List.prefix_append_right_inj] at hpre
  cases hrest : ms.drop taken.length with
  | nil =>
    rw [hrest] at hpre
    exact .inl (List.prefix_nil.mp hpre)
  | cons m rest =>
    rw [hrest] at hpre
    refine .inr ⟨m, rest.flatten, ?_, hpre⟩
    rw [← List.head?_drop, hrest]
    rfl

theorem take (h : CutsAlong ms received taken b) (hpre : received <+: ms.flatten)
    (hnil : (next []).1 = none) (hms : ∀ m ∈ ms, Delimited next m) {piece r : List α}
    (hnext : next b = (some piece, r)) :
    ms[taken.length]? = some piece ∧ CutsAlong ms received (taken ++ [piece]) r := by
  rcases h.ahead hpre with rfl | ⟨m, rest, hm, hb⟩
  · rw [hnext] at hnil
    cases hnil
  · obtain ⟨rfl, rfl⟩ := hms m (List.mem_of_getElem? hm) hb hnext
    refine ⟨hm, ?_, ?_⟩
    · rw [List.length_append, List.length_singleton, List.take_add_one, hm, ← h.taken_eq]
      rfl
    · rw [h.received_eq, List.flatten_append, List.flatten_singleton, List.append_assoc]

/-- Where the next attempt fails, no piece is left to be taken. -/
theorem takesAll (h : CutsAlong ms received taken b) (hms : ∀ m ∈ ms, ∀ x, (next (m ++ x)).1 ≠ none)
    (hnext : (next b).1 = none) : TakesAll ms received taken := by
  intro k hk hpre
  by_contra hless
  have hlt : taken.length < k := Nat.lt_of_not_le hless
  obtain ⟨m, hm⟩ : ∃ m, ms[taken.length]? = some m :=
    ⟨_, List.getElem?_eq_getElem (by omega)⟩
  have hfirst : ms.take (taken.length + 1) = taken ++ [m] := by
    rw [List.take_add_one, hm, ← h.taken_eq]
    rfl
  have hshort : (ms.take (taken.length + 1)).flatten <+: (ms.take k).flatten := by
    obtain ⟨tail, htail⟩ := List.take_prefix_take_left (l := ms) (show taken.length + 1 ≤ k from hlt)
    rw [← htail, List.flatten_append]
    exact List.prefix_append _ _
  have hb := hshort.trans hpre
  rw [hfirst, h.received_eq, List.flatten_append, List.flatten_singleton,
    List.prefix_append_right_inj] at hb
  obtain ⟨x, rfl⟩ := hb
  exact hms m (List.mem_of_getElem? hm) x hnext

/-- Where everything has come and nothing is left, every piece was taken. -/
theorem drained (h : CutsAlong ms ms.flatten taken []) (hne : ∀ m ∈ ms, m ≠ []) : taken = ms := by
  have hsplit : ms.flatten = taken.flatten ++ (ms.drop taken.length).flatten := by
    conv_lhs => rw [← List.take_append_drop taken.length ms]
    rw [List.flatten_append, ← h.taken_eq]
  have hrest : (ms.drop taken.length).flatten = [] := by
    rw [h.received_eq, List.append_cancel_left_eq] at hsplit
    exact hsplit.symm
  have hall : ms.drop taken.length = [] := by
    refine List.eq_nil_iff_forall_not_mem.mpr fun m hm => ?_
    exact hne m (List.mem_of_mem_drop hm) (List.flatten_eq_nil_iff.mp hrest m hm)
  rw [h.taken_eq, List.take_of_length_le (List.drop_eq_nil_iff.mp hall)]

end CutsAlong

end Fixure.Splitter
