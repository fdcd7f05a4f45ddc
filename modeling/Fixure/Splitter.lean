import Mathlib.Data.List.Basic
import Mathlib.Data.Nat.Init

/-!
# Splitting a stream that arrives in chunks

A splitter `next` takes one piece off the front of a buffer, or refuses, and leaves a
buffer either way. `drain` repeats it until it refuses; `feedAll` appends chunk after
chunk and drains after each. `Drains` is the same run as a derivation, ending in the
buffer that `next` refused, before that last attempt changed it.

The result is independent of the chunks wherever every refusal can be resumed: the
buffer left by the refused attempt must do, with the bytes still to come, what the
refused buffer would have done (`feedAll_eq`).
-/

namespace Fixure.Splitter

variable {α : Type*}

abbrev Next (α : Type*) := List α → Option (List α) × List α

def drainFuel (next : Next α) : ℕ → List α → List (List α) × List α
  | 0, b => ([], b)
  | n + 1, b =>
    match next b with
    | (some m, r) => (m :: (drainFuel next n r).1, (drainFuel next n r).2)
    | (none, r) => ([], r)

/-- Repeat `next` until it refuses. One attempt more than there are bytes is enough for a
splitter that shortens its buffer. -/
def drain (next : Next α) (b : List α) : List (List α) × List α :=
  drainFuel next (b.length + 1) b

def feedAll (next : Next α) : List α → List (List α) → List (List α) × List α
  | b, [] => ([], b)
  | b, c :: cs =>
    let fed := drain next (b ++ c)
    let out := feedAll next fed.2 cs
    (fed.1 ++ out.1, out.2)

inductive Drains (next : Next α) : List α → List (List α) → List α → Prop
  | refuse {u : List α} : (next u).1 = none → Drains next u [] u
  | take {b m r u : List α} {ms : List (List α)} :
      next b = (some m, r) → Drains next r ms u → Drains next b (m :: ms) u

theorem Drains.last_refused {next : Next α} {b u : List α} {ms : List (List α)}
    (h : Drains next b ms u) : (next u).1 = none := by
  induction h with
  | refuse hu => exact hu
  | take _ _ ih => exact ih

theorem Drains.suffix {next : Next α} (hcut : ∀ b, (next b).2 <:+ b) {b u : List α}
    {ms : List (List α)} (h : Drains next b ms u) : u <:+ b := by
  induction h with
  | refuse _ => exact List.suffix_rfl
  | @take b m r u ms hb _ ih =>
    have hr := hcut b
    rw [hb] at hr
    exact ih.trans hr

/-- A piece shortens the buffer, so that draining ends. -/
def Shortens (next : Next α) : Prop :=
  ∀ b m r, next b = (some m, r) → r.length < b.length

namespace Shortens
variable {next : Next α} (short : Shortens next)
include short

theorem exists_drains (b : List α) : ∃ ms u, Drains next b ms u := by
  induction hn : b.length using Nat.strong_induction_on generalizing b with
  | _ n ih =>
    subst hn
    cases hb : next b with
    | mk piece r =>
      cases piece with
      | none => exact ⟨[], b, .refuse (by rw [hb])⟩
      | some m =>
        obtain ⟨ms, u, hr⟩ := ih r.length (short b m r hb) r rfl
        exact ⟨m :: ms, u, .take hb hr⟩

theorem drainFuel_eq {b u : List α} {ms : List (List α)} (h : Drains next b ms u) {n : ℕ}
    (hn : b.length < n) : drainFuel next n b = (ms, (next u).2) := by
  induction h generalizing n with
  | @refuse u hu =>
    cases n with
    | zero => omega
    | succ n =>
      rw [drainFuel]
      cases hb : next u with
      | mk piece r =>
        obtain rfl : piece = none := by rwa [hb] at hu
        rfl
  | take hb _ ih =>
    cases n with
    | zero => omega
    | succ n =>
      have := short _ _ _ hb
      simp only [drainFuel, hb, ih (n := n) (by omega)]

theorem drain_eq {b u : List α} {ms : List (List α)} (h : Drains next b ms u) :
    drain next b = (ms, (next u).2) := short.drainFuel_eq h (Nat.lt_succ_self _)

theorem drain_of_refuse {b r : List α} (h : next b = (none, r)) : drain next b = ([], r) := by
  rw [short.drain_eq (.refuse (by rw [h])), h]

theorem drain_of_take {b m r : List α} (h : next b = (some m, r)) :
    drain next b = (m :: (drain next r).1, (drain next r).2) := by
  obtain ⟨ms, u, hd⟩ := short.exists_drains r
  rw [short.drain_eq (.take h hd), short.drain_eq hd]

end Shortens

theorem feedAll_concat (next : Next α) (b c : List α) (cs : List (List α)) :
    feedAll next b (cs ++ [c]) =
      ((feedAll next b cs).1 ++ (drain next ((feedAll next b cs).2 ++ c)).1,
        (drain next ((feedAll next b cs).2 ++ c)).2) := by
  induction cs generalizing b with
  | nil => simp [feedAll]
  | cons d cs ih => simp [feedAll, ih]

/-! ### Splitters that agree -/

section Agree
variable {next next' : Next α} {P : List α → Prop}

/-- `next` and `next'` do the same with every buffer that has the property, and leave one that
has it again. -/
structure AgreeOn (P : List α → Prop) (next next' : Next α) : Prop where
  eq : ∀ {b}, P b → next b = next' b
  keep : ∀ {b}, P b → P (next b).2

theorem AgreeOn.drainFuel (h : AgreeOn P next next') (n : ℕ) {b : List α} (hb : P b) :
    Splitter.drainFuel next n b = Splitter.drainFuel next' n b ∧
      P (Splitter.drainFuel next n b).2 := by
  induction n generalizing b with
  | zero => exact ⟨rfl, hb⟩
  | succ n ih =>
    have hkeep := h.keep hb
    rw [Splitter.drainFuel, Splitter.drainFuel, ← h.eq hb]
    cases hnext : next b with
    | mk piece r =>
      rw [hnext] at hkeep
      cases piece with
      | none => exact ⟨rfl, hkeep⟩
      | some m =>
        obtain ⟨heq, hleft⟩ := ih hkeep
        simp only [heq]
        exact ⟨trivial, heq ▸ hleft⟩

theorem AgreeOn.feedAll (h : AgreeOn P next next') {cs : List (List α)} {b : List α} (hb : P b)
    (happend : ∀ {b}, ∀ c ∈ cs, P b → P (b ++ c)) :
    Splitter.feedAll next b cs = Splitter.feedAll next' b cs := by
  induction cs generalizing b with
  | nil => rfl
  | cons c cs ih =>
    obtain ⟨heq, hleft⟩ := h.drainFuel ((b ++ c).length + 1) (happend c List.mem_cons_self hb)
    have hdrain : drain next (b ++ c) = drain next' (b ++ c) := heq
    have hrest := ih (b := (drain next (b ++ c)).2) hleft fun d hd => happend d (.tail c hd)
    rw [hdrain] at hrest
    rw [Splitter.feedAll, Splitter.feedAll]
    simp only [hdrain, hrest]

end Agree

/-- Pieces that are cut off whatever stands behind them come back from their concatenation. -/
theorem drains_flatten {next : Next α} {ms : List (List α)}
    (h : ∀ m ∈ ms, ∀ x, next (m ++ x) = (some m, x)) {u : List α} (hu : (next u).1 = none) :
    Drains next (ms.flatten ++ u) ms u := by
  induction ms with
  | nil => exact .refuse hu
  | cons m ms ih =>
    rw [List.forall_mem_cons] at h
    rw [List.flatten_cons, List.append_assoc]
    exact .take (h.1 _) (ih h.2)

/-- The laws of a splitter: a piece shortens the buffer, and bytes behind it do not change
the piece. -/
structure Lawful (next : Next α) : Prop where
  shorter : ∀ {b m r}, next b = (some m, r) → r.length < b.length
  stable : ∀ {b m r}, next b = (some m, r) → ∀ x, next (b ++ x) = (some m, r ++ x)

namespace Lawful
variable {next : Next α} (law : Lawful next)
include law

theorem shortens : Shortens next := fun _ _ _ h => law.shorter h

theorem exists_drains (b : List α) : ∃ ms u, Drains next b ms u := law.shortens.exists_drains b

theorem drain_eq {b u : List α} {ms : List (List α)} (h : Drains next b ms u) :
    drain next b = (ms, (next u).2) := law.shortens.drain_eq h

theorem drain_of_take {b m r : List α} (h : next b = (some m, r)) :
    drain next b = (m :: (drain next r).1, (drain next r).2) := law.shortens.drain_of_take h

/-- Bytes appended to a drained buffer continue the run in the buffer that was refused. -/
theorem drains_append {b u x v : List α} {ms ns : List (List α)} (h : Drains next b ms u)
    (hx : Drains next (u ++ x) ns v) : Drains next (b ++ x) (ms ++ ns) v := by
  induction h with
  | refuse _ => exact hx
  | take hb _ ih => exact .take (law.stable hb x) (ih hx)

end Lawful

/-- The buffer left by a refused attempt on `u` does with `x` what `u` would have done. -/
def Resumes (next : Next α) (u x : List α) : Prop := next ((next u).2 ++ x) = next (u ++ x)

theorem Resumes.drains {next : Next α} {u x v : List α} {ms : List (List α)}
    (h : Resumes next u x) (hd : Drains next ((next u).2 ++ x) ms v) :
    ∃ v', Drains next (u ++ x) ms v' ∧ (next v').2 = (next v).2 := by
  cases hd with
  | refuse hv => exact ⟨u ++ x, .refuse (h ▸ hv), by rw [← h]⟩
  | take hb hr => exact ⟨v, .take (h.symm.trans hb) hr, rfl⟩

/-- Every refusal met while feeding `cs` to the buffer `b` resumes with the bytes that
are still to come. -/
def Resumable (next : Next α) : List α → List (List α) → Prop
  | _, [] => True
  | b, c :: cs =>
    (∀ ms u, Drains next (b ++ c) ms u → Resumes next u cs.flatten) ∧
      Resumable next (drain next (b ++ c)).2 cs

/-- Feeding chunk by chunk gives what draining the whole stream gives. -/
theorem Lawful.feedAll_eq {next : Next α} (law : Lawful next) {b : List α}
    {cs : List (List α)} (hb : next b = (none, b))
    (hsettle : ∀ u, (next u).1 = none → Resumes next u []) (h : Resumable next b cs) :
    feedAll next b cs = drain next (b ++ cs.flatten) := by
  induction cs generalizing b with
  | nil =>
    rw [feedAll, List.flatten_nil, List.append_nil, law.drain_eq (.refuse (by rw [hb])), hb]
  | cons c cs ih =>
    obtain ⟨hresume, hrest⟩ := h
    obtain ⟨ms, u, hd⟩ := law.exists_drains (b ++ c)
    have hu := hd.last_refused
    rw [law.drain_eq hd] at hrest
    -- the left buffer is refused again and not changed any more
    have hleft : next (next u).2 = (none, (next u).2) := by
      have hs : next (next u).2 = next u := by simpa [Resumes] using hsettle u hu
      rw [hs, ← hu]
    have hfeed := ih hleft hrest
    obtain ⟨ns, v, hv⟩ := law.exists_drains ((next u).2 ++ cs.flatten)
    obtain ⟨v', hv', hleft'⟩ := (hresume ms u hd).drains hv
    rw [feedAll, law.drain_eq hd]
    simp only [hfeed, law.drain_eq hv]
    rw [List.flatten_cons, ← List.append_assoc, law.drain_eq (law.drains_append hd hv'), hleft']

end Fixure.Splitter
