import IpAtlas.Overlay
import IpAtlas.Proofs.Tiling

/-!
# What marks say of an address

Ascending marks cover an address with one of them, or with none.  This stays as it is for a while:
up to the end of the mark that covers the address, or, if there is none, up to the start of the
next.  There it does change, also where another mark begins at once.

## What is here

* `Mark.at?` — the mark that covers an address.
* `Mark.onwards`, `Mark.at?_eq_head?` — the marks left at an address, of which only the first can
  cover it.
* `Mark.change?` — where the mark of an address ends or the next one begins.
* `Mark.at?_eq_of_lt_change?`, `Mark.at?_ne_of_change?` — no change before it, and a change there.
-/

set_option autoImplicit false

namespace IpAtlas

namespace Mark

variable {α : Type}

/-- The mark that covers an address. -/
def at? (marks : List (Mark α)) (a : Address) : Option (Mark α) :=
  marks.find? fun m => m.span.contains a

/-- The marks that are left at an address, when those that end before it are passed. -/
def onwards (a : Address) (marks : List (Mark α)) : List (Mark α) :=
  marks.dropWhile fun m => !decide (a ≤ m.span.last)

/-- The first address after one where the mark that covers it is another. -/
def change? (marks : List (Mark α)) (a : Address) : Option Address :=
  match at? marks a with
  | some m => m.span.last.succ?
  | none => (onwards a marks).head?.map (·.span.first)

section

variable {marks : List (Mark α)} {m m' : Mark α} {a b : Address}

theorem onwards_cons_of_le (h : a ≤ m.span.last) : onwards a (m :: marks) = m :: marks := by
  rw [onwards, List.dropWhile_cons, if_neg (by simpa using h)]

theorem onwards_cons_of_lt (h : m.span.last < a) : onwards a (m :: marks) = onwards a marks := by
  rw [onwards, List.dropWhile_cons, if_pos (by simpa using Address.not_le.2 h), onwards]

/-- What is left at a later address does not depend on what was passed at an earlier one. -/
theorem onwards_onwards (h : a ≤ b) : onwards b (onwards a marks) = onwards b marks := by
  induction marks with
  | nil => rfl
  | cons m marks ih =>
    by_cases hm : a ≤ m.span.last
    · rw [onwards_cons_of_le hm]
    · have hlt := Address.not_le.1 hm
      rw [onwards_cons_of_lt hlt, ih, onwards_cons_of_lt (Nat.lt_of_lt_of_le hlt h)]

theorem mem_onwards (hm : m ∈ marks) (h : a ≤ m.span.last) : m ∈ onwards a marks := by
  induction marks with
  | nil => exact absurd hm (by simp)
  | cons m' marks ih =>
    by_cases hm' : a ≤ m'.span.last
    · rw [onwards_cons_of_le hm']
      exact hm
    · rw [onwards_cons_of_lt (Address.not_le.1 hm')]
      rcases List.mem_cons.1 hm with rfl | hm
      · exact absurd h hm'
      · exact ih hm

theorem mem_of_mem_onwards (h : m ∈ onwards a marks) : m ∈ marks :=
  (List.dropWhile_suffix _).subset h

theorem contains_of_at? (h : at? marks a = some m) : m.span.first ≤ a ∧ a ≤ m.span.last :=
  Span.contains_iff.1 (List.find?_some (p := fun m : Mark α => m.span.contains a) h)

theorem le_last_of_head? (h : (onwards a marks).head? = some m) : a ≤ m.span.last := by
  have hnot := List.head?_dropWhile_not (fun m : Mark α => !decide (a ≤ m.span.last)) marks
  rw [onwards] at h
  rw [h] at hnot
  simpa using hnot

variable (hasc : Span.Ascending (marks.map Mark.span))
include hasc

theorem at?_eq_some_iff : at? marks a = some m ↔ m ∈ marks ∧ m.span.contains a = true := by
  have hfilter := hasc.filter_contains a
  rw [← List.mem_filter (p := fun m : Mark α => m.span.contains a), hfilter, Option.mem_toList]
  rfl

theorem valid_of_mem (hm : m ∈ marks) : m.span.Valid := hasc.1 m.span (List.mem_map_of_mem hm)

/-- No mark that is left begins before the first of them does. -/
theorem first_le_of_head? (hhead : (onwards a marks).head? = some m) (hm : m' ∈ onwards a marks) :
    m.span.first ≤ m'.span.first := by
  obtain ⟨rest, hrest⟩ := List.head?_eq_some_iff.1 hhead
  have hsub : Span.Ascending ((onwards a marks).map Mark.span) := by
    obtain ⟨front, hfront⟩ : onwards a marks <:+ marks := List.dropWhile_suffix _
    rw [← hfront, List.map_append, Span.ascending_append] at hasc
    exact hasc.2.1
  rw [hrest] at hm hsub
  rcases List.mem_cons.1 hm with rfl | hm
  · exact Address.le_refl _
  · rw [List.map_cons, Span.ascending_cons] at hsub
    have hlt := hsub.2.1 m'.span (List.mem_map_of_mem hm)
    have hvalid := hsub.1.2
    simp only [Address.le_iff_rank, Address.lt_iff_rank] at hlt hvalid ⊢
    omega

/-- **Only the first of the marks that are left can cover the address.** -/
theorem at?_eq_head? (a : Address) :
    at? marks a = (onwards a marks).head?.filter fun m => m.span.first ≤ a := by
  refine Option.ext fun m => ?_
  rw [at?_eq_some_iff hasc, Option.filter_eq_some_iff, Span.contains_iff, decide_eq_true_eq]
  refine ⟨fun ⟨hm, hfirst, hlast⟩ => ⟨?_, hfirst⟩, fun ⟨hhead, hfirst⟩ => ⟨?_, hfirst, ?_⟩⟩
  · have hmem := mem_onwards hm hlast
    cases hhead : (onwards a marks).head? with
    | none => simp [List.head?_eq_none_iff.1 hhead] at hmem
    | some h =>
      have hle := first_le_of_head? hasc hhead hmem
      have hh := mem_of_mem_onwards (List.mem_of_head? hhead)
      have hend := le_last_of_head? hhead
      have hcovers : at? marks a = some h :=
        (at?_eq_some_iff hasc).2 ⟨hh, Span.contains_iff.2 ⟨Nat.le_trans hle hfirst, hend⟩⟩
      rw [← hcovers]
      exact (at?_eq_some_iff hasc).2 ⟨hm, Span.contains_iff.2 ⟨hfirst, hlast⟩⟩
  · exact mem_of_mem_onwards (List.mem_of_head? hhead)
  · exact le_last_of_head? hhead

/-! ## Changes -/

theorem lt_first_of_head? (hnone : at? marks a = none) (hhead : (onwards a marks).head? = some m) :
    a < m.span.first := by
  rw [at?_eq_head? hasc, hhead, Option.filter_eq_none_iff] at hnone
  simpa using Address.not_le.1 (by simpa using hnone m rfl)

/-- A change lies ahead. -/
theorem lt_of_change? (h : change? marks a = some b) : a < b := by
  rw [change?] at h
  split at h
  · rename_i m hm
    have hle := (contains_of_at? hm).2
    have hsucc := (Address.succ?_eq_some_iff.1 h).2
    simp only [Address.le_iff_rank, Address.lt_iff_rank] at hle ⊢
    omega
  · rename_i hnone
    obtain ⟨m, hm, rfl⟩ := Option.map_eq_some_iff.1 h
    exact lt_first_of_head? hasc hnone hm

/-- **Before the change the mark stays the same.** -/
theorem at?_eq_of_lt_change? (hab : a ≤ b) (hfamily : b.family = a.family)
    (h : ∀ c, change? marks a = some c → b < c) : at? marks b = at? marks a := by
  rw [change?] at h
  split at h
  · rename_i m hm
    obtain ⟨hmem, -⟩ := (at?_eq_some_iff hasc).1 hm
    obtain ⟨hfirst, hlast⟩ := contains_of_at? hm
    rw [hm]
    refine (at?_eq_some_iff hasc).2 ⟨hmem, Span.contains_iff.2 ⟨Nat.le_trans hfirst hab, ?_⟩⟩
    have hvalid := valid_of_mem hasc hmem
    cases hsucc : m.span.last.succ? with
    | none =>
      refine Address.le_of_succ?_eq_none hsucc ?_
      rw [hfamily, Address.family_eq_of_between hvalid.1 hfirst hlast, hvalid.1]
    | some c =>
      have hlt := h c hsucc
      have hrank := (Address.succ?_eq_some_iff.1 hsucc).2
      simp only [Address.le_iff_rank, Address.lt_iff_rank] at hlt ⊢
      omega
  · rename_i hnone
    rw [hnone, Option.eq_none_iff_forall_ne_some]
    intro m hm
    obtain ⟨hmem, -⟩ := (at?_eq_some_iff hasc).1 hm
    obtain ⟨hfirst, hlast⟩ := contains_of_at? hm
    have hleft := mem_onwards hmem (Nat.le_trans hab hlast)
    cases hhead : (onwards a marks).head? with
    | none => simp [List.head?_eq_none_iff.1 hhead] at hleft
    | some m' =>
      have hlt := h m'.span.first (by rw [hhead]; rfl)
      have hle := first_le_of_head? hasc hhead hleft
      simp only [Address.le_iff_rank, Address.lt_iff_rank] at hlt hle hfirst
      omega

/-- **At the change the mark is another.** -/
theorem at?_ne_of_change? {r : Range} (hcut : r.CutBy b) (h : change? marks a = some b) :
    at? marks b.before ≠ at? marks b := by
  have hrank := hcut.rank_before
  rw [change?] at h
  split at h
  · rename_i m hm
    obtain ⟨hmem, -⟩ := (at?_eq_some_iff hasc).1 hm
    have hvalid := valid_of_mem hasc hmem
    have hsucc := (Address.succ?_eq_some_iff.1 h).2
    have hbefore : b.before = m.span.last := Address.rank_inj.1 (by omega)
    have hlast : at? marks b.before = some m := by
      rw [hbefore]
      exact (at?_eq_some_iff hasc).2 ⟨hmem, Span.contains_iff.2 ⟨hvalid.2, Address.le_refl _⟩⟩
    rw [hlast]
    intro hsame
    have hle := (contains_of_at? hsame.symm).2
    simp only [Address.le_iff_rank] at hle
    omega
  · obtain ⟨m, hhead, rfl⟩ := Option.map_eq_some_iff.1 h
    have hmem := mem_of_mem_onwards (List.mem_of_head? hhead)
    have hvalid := valid_of_mem hasc hmem
    have hfirst : at? marks m.span.first = some m :=
      (at?_eq_some_iff hasc).2 ⟨hmem, Span.contains_iff.2 ⟨Address.le_refl _, hvalid.2⟩⟩
    rw [hfirst]
    intro hsame
    have hle := (contains_of_at? hsame).1
    simp only [Address.le_iff_rank] at hle
    omega

end

end Mark

end IpAtlas
