import IpAtlas.Proofs.Ascending
import Mathlib.Data.List.Sort

/-!
# Ranges cut into parts

A range that is cut, and cut again behind the first cut, falls into parts that ascend and leave
nothing out.  If something is known to be the same throughout each part, and to differ on the two
sides of each cut, then the parts are the largest ranges inside the whole on which it is the same:
none of them can be made larger, and no other range of that kind is left.

## What is here

* `Range.Tiles` — the parts of a range.
* `Range.Tiles.ends`, `Range.Tiles.ascending`, `Range.Tiles.exists_contains_iff` — they go from one
  end to the other, ascend and leave nothing out.
* `Range.Resolves` — parts on each of which something is the same, with a difference at each cut.
* `Range.Maximal`, `Range.Resolves.mem_iff` — the largest ranges on which it is the same.
-/

set_option autoImplicit false

namespace IpAtlas

namespace Range

/-! ## Cuts and ranges inside ranges -/

section

variable {r s t whole : Range} {a b : Address}

theorem ext_bounds (hfirst : r.first = s.first) (hlast : r.last = s.last) : r = s := by
  obtain ⟨⟨_, _⟩, _⟩ := r
  obtain ⟨⟨_, _⟩, _⟩ := s
  subst hfirst hlast
  rfl

@[simp]
theorem upTo_first (h : r.CutBy a) : (r.upTo a h).first = r.first := rfl

@[simp]
theorem upTo_last (h : r.CutBy a) : (r.upTo a h).last = a.before := rfl

@[simp]
theorem onwards_first (h : r.CutBy a) : (r.onwards a h).first = a := rfl

@[simp]
theorem onwards_last (h : r.CutBy a) : (r.onwards a h).last = r.last := rfl

theorem CutBy.rank_before (h : r.CutBy a) : a.before.rank + 1 = a.rank :=
  Address.rank_before h.family_eq.symm h.1

theorem CutBy.le_before_iff (h : r.CutBy a) : b ≤ a.before ↔ b < a := by
  have hrank := h.rank_before
  simp only [Address.le_iff_rank, Address.lt_iff_rank]
  omega

/-- A range that lies inside another. -/
def Within (s r : Range) : Prop := r.first ≤ s.first ∧ s.last ≤ r.last

theorem within_refl (r : Range) : r.Within r := ⟨Address.le_refl _, Address.le_refl _⟩

theorem Within.trans (hst : s.Within t) (htr : t.Within r) : s.Within r :=
  ⟨Nat.le_trans htr.1 hst.1, Nat.le_trans hst.2 htr.2⟩

theorem Within.antisymm (hst : s.Within t) (hts : t.Within s) : s = t :=
  ext_bounds (Address.le_antisymm hts.1 hst.1) (Address.le_antisymm hst.2 hts.2)

theorem within_upTo (h : r.CutBy a) : (r.upTo a h).Within r := by
  have hrank := h.rank_before
  have hcut := h.2
  refine ⟨Address.le_refl _, ?_⟩
  simp only [upTo_last, Address.le_iff_rank] at hcut ⊢
  omega

theorem within_onwards (h : r.CutBy a) : (r.onwards a h).Within r :=
  ⟨Nat.le_of_lt h.1, Address.le_refl _⟩

/-- A cut leaves every address on one of its two sides. -/
theorem CutBy.contains_iff (h : r.CutBy a) :
    r.contains b = true ↔
      (r.upTo a h).contains b = true ∨ (r.onwards a h).contains b = true := by
  have hfirst := h.1
  have hlast := h.2
  rw [Span.contains_iff, Span.contains_iff, Span.contains_iff, upTo_last, h.le_before_iff,
    upTo_first, onwards_first, onwards_last]
  simp only [Address.le_iff_rank, Address.lt_iff_rank] at hfirst hlast ⊢
  omega

end

/-! ## Parts of a range -/

/-- The parts of a range that is cut any number of times, each time behind the last cut. -/
inductive Tiles : Range → List Range → Prop where
  | whole (r : Range) : Tiles r [r]
  | cut {r : Range} {a : Address} {parts : List Range} (h : r.CutBy a)
      (hparts : Tiles (r.onwards a h) parts) : Tiles r (r.upTo a h :: parts)

section

variable {r : Range} {parts : List Range}

theorem Tiles.within (h : Tiles r parts) : ∀ t ∈ parts, t.Within r := by
  induction h with
  | whole r =>
    intro t ht
    obtain rfl : t = r := by simpa using ht
    exact within_refl t
  | cut h _ ih =>
    refine List.forall_mem_cons.2 ⟨within_upTo h, fun t ht => ?_⟩
    exact (ih t ht).trans (within_onwards h)

/-- The first part begins where the range does, and the last one ends where it does. -/
theorem Tiles.ends (h : Tiles r parts) :
    parts.head?.map (·.first) = some r.first ∧ parts.getLast?.map (·.last) = some r.last := by
  induction h with
  | whole r => exact ⟨rfl, rfl⟩
  | @cut r a parts h hparts ih =>
    refine ⟨rfl, ?_⟩
    cases parts with
    | nil => exact nomatch hparts
    | cons t parts =>
      rw [List.getLast?_cons_cons]
      exact ih.2

/-- Parts ascend. -/
theorem Tiles.ascending (h : Tiles r parts) : Span.Ascending (parts.map Range.toSpan) := by
  induction h with
  | whole r => exact Span.ascending_cons.2 ⟨r.valid, by simp, Span.ascending_nil⟩
  | @cut r a parts h hparts ih =>
    refine Span.ascending_cons.2 ⟨(r.upTo a h).valid, fun s hs => ?_, ih⟩
    obtain ⟨t, ht, rfl⟩ := List.mem_map.1 hs
    have hfirst := (hparts.within t ht).1
    have hrank := h.rank_before
    simp only [onwards_first, upTo_last, Address.le_iff_rank, Address.lt_iff_rank] at hfirst ⊢
    omega

/-- Parts are determined by which ranges they are. -/
theorem Tiles.eq_of_mem_iff {r' : Range} {parts' : List Range} (h : Tiles r parts)
    (h' : Tiles r' parts') (hmem : ∀ t, t ∈ parts ↔ t ∈ parts') : parts = parts' := by
  have hirrefl : Std.Irrefl fun s t : Range => s.last < t.first :=
    ⟨fun s hlt => Address.not_le.2 hlt s.first_le_last⟩
  have hantisymm : Std.Antisymm fun s t : Range => s.last < t.first := by
    refine ⟨fun s t hst hts => absurd s.first_le_last ?_⟩
    have ht := t.first_le_last
    simp only [Address.le_iff_rank, Address.lt_iff_rank] at hst hts ht ⊢
    omega
  have hpairwise := List.pairwise_map.1 h.ascending.2
  have hpairwise' := List.pairwise_map.1 h'.ascending.2
  exact List.Pairwise.eq_of_mem_iff hpairwise hpairwise' hmem

/-- **Parts leave nothing out**: an address lies in the range if it lies in one of them. -/
theorem Tiles.exists_contains_iff (h : Tiles r parts) (b : Address) :
    (∃ t ∈ parts, t.contains b = true) ↔ r.contains b = true := by
  induction h with
  | whole r => simp
  | cut h _ ih => rw [List.exists_mem_cons_iff, ih, h.contains_iff]

end

/-! ## The largest parts on which something is the same -/

section

variable {β : Type} {cover : Address → β} {whole r t : Range} {parts : List Range} {a b : Address}

/-- A function that takes one value throughout a range. -/
def Uniform (cover : Address → β) (r : Range) : Prop :=
  ∀ a, r.contains a = true → cover a = cover r.first

theorem Uniform.eq (h : Uniform cover r) (ha : r.contains a = true) (hb : r.contains b = true) :
    cover a = cover b :=
  (h a ha).trans (h b hb).symm

/-- A range inside another on which a function takes one value, and which can not be made larger. -/
structure Maximal (cover : Address → β) (whole r : Range) : Prop where
  within : r.Within whole
  uniform : Uniform cover r
  largest : ∀ t : Range, t.Within whole → r.Within t → Uniform cover t → t = r

/-- Parts of a range on each of which a function takes one value, which changes at every cut. -/
inductive Resolves (cover : Address → β) : Range → List Range → Prop where
  | whole {r : Range} (huniform : Uniform cover r) : Resolves cover r [r]
  | cut {r : Range} {a : Address} {parts : List Range} (h : r.CutBy a)
      (huniform : Uniform cover (r.upTo a h)) (hchange : cover a.before ≠ cover a)
      (hparts : Resolves cover (r.onwards a h) parts) : Resolves cover r (r.upTo a h :: parts)

theorem Resolves.tiles (h : Resolves cover r parts) : Tiles r parts := by
  induction h with
  | whole _ => exact Tiles.whole _
  | cut h _ _ _ ih => exact Tiles.cut h ih

/-- Where a function takes one value, it does not change: the range lies on one side of the cut. -/
theorem Uniform.lt_or_le (ht : Uniform cover t) (h : r.CutBy a)
    (hchange : cover a.before ≠ cover a) : t.last < a ∨ a ≤ t.first := by
  by_contra hboth
  have hrank := h.rank_before
  rw [not_or, Address.not_lt, Address.not_le] at hboth
  have hat : t.contains a = true := Span.contains_iff.2 ⟨Nat.le_of_lt hboth.2, hboth.1⟩
  refine hchange (ht.eq (Span.contains_iff.2 ?_) hat)
  simp only [Address.le_iff_rank, Address.lt_iff_rank] at hboth ⊢
  omega

theorem Maximal.of_onwards (h : whole.CutBy a) (hchange : cover a.before ≠ cover a)
    (hr : Maximal cover (whole.onwards a h) r) : Maximal cover whole r where
  within := hr.within.trans (within_onwards h)
  uniform := hr.uniform
  largest t htw hrt ht := by
    refine hr.largest t ⟨?_, htw.2⟩ hrt ht
    rcases ht.lt_or_le h hchange with hlast | hfirst
    · have hra := hr.within.1
      have hrl := r.first_le_last
      have hle := hrt.2
      simp only [onwards_first, Address.le_iff_rank, Address.lt_iff_rank] at hlast hra hrl hle
      omega
    · exact hfirst

theorem Maximal.onwards (h : whole.CutBy a) (hr : Maximal cover whole r) (hfirst : a ≤ r.first) :
    Maximal cover (whole.onwards a h) r where
  within := ⟨hfirst, hr.within.2⟩
  uniform := hr.uniform
  largest t htw hrt ht := hr.largest t (htw.trans (within_onwards h)) hrt ht

theorem maximal_upTo (h : whole.CutBy a) (huniform : Uniform cover (whole.upTo a h))
    (hchange : cover a.before ≠ cover a) : Maximal cover whole (whole.upTo a h) where
  within := within_upTo h
  uniform := huniform
  largest t htw hrt ht := by
    refine Within.antisymm ⟨htw.1, ?_⟩ hrt
    rcases ht.lt_or_le h hchange with hlast | hfirst
    · exact h.le_before_iff.2 hlast
    · have hcut := h.1
      have hle := hrt.1
      simp only [upTo_first, Address.le_iff_rank, Address.lt_iff_rank] at hfirst hcut hle
      omega

/-- **The parts are the largest ranges on which the function takes one value**, and all of them. -/
theorem Resolves.mem_iff (h : Resolves cover whole parts) : r ∈ parts ↔ Maximal cover whole r := by
  induction h with
  | @whole whole huniform =>
    rw [List.mem_singleton]
    refine ⟨?_, fun hr => (hr.largest whole (within_refl whole) hr.within huniform).symm⟩
    rintro rfl
    exact ⟨within_refl r, huniform, fun t htr hrt _ => htr.antisymm hrt⟩
  | @cut whole a parts h huniform hchange _ ih =>
    rw [List.mem_cons, ih]
    refine ⟨?_, fun hr => ?_⟩
    · rintro (rfl | hr)
      · exact maximal_upTo h huniform hchange
      · exact hr.of_onwards h hchange
    · rcases hr.uniform.lt_or_le h hchange with hlast | hfirst
      · have hin : r.Within (whole.upTo a h) := ⟨hr.within.1, h.le_before_iff.2 hlast⟩
        exact Or.inl (hr.largest _ (within_upTo h) hin huniform).symm
      · exact Or.inr (hr.onwards h hfirst)

end

end Range

end IpAtlas
