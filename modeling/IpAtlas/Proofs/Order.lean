import IpAtlas.Range
import Mathlib.Data.List.Basic

/-!
# The order of addresses

Addresses are compared by rank, and the rank of an address is its place among all addresses of both
families.  So the order is that of the natural numbers, an address is known by its rank, and a step
within a family is a step of one in rank.

## What is here

* `Address.rank_inj` — no two addresses share a rank.
* `Address.lt_iff` — IPv4 comes before IPv6.
* `Address.succ?_eq_some_iff`, `Address.le_of_succ?_eq_none` — the next address, and what it means
  that there is none.
* `Span.contains_iff`, `Range.first_le_last`, `Range.family_eq` — membership in spans and ranges.
* `Range.ofBounds?_eq_some_iff`, `Range.ofBounds?_eq_none_iff` — what bounds a range.
-/

set_option autoImplicit false

namespace IpAtlas

namespace Address

theorem value_lt_of_v4 {a : Address} (h : a.family = .v4) : a.rank < Family.v6.base := by
  have hlt := a.value_lt
  rw [rank, h]
  rw [h] at hlt
  simpa [Family.base] using hlt

theorem base_le_of_v6 {a : Address} (h : a.family = .v6) : Family.v6.base ≤ a.rank := by
  rw [rank, h]
  exact Nat.le_add_right _ _

theorem family_eq_of_rank_eq {a b : Address} (h : a.rank = b.rank) : a.family = b.family := by
  cases ha : a.family <;> cases hb : b.family
  · rfl
  · have := value_lt_of_v4 ha
    have := base_le_of_v6 hb
    omega
  · have := base_le_of_v6 ha
    have := value_lt_of_v4 hb
    omega
  · rfl

/-- **An address is known by its rank.** -/
theorem rank_inj {a b : Address} : a.rank = b.rank ↔ a = b := by
  refine ⟨fun h => ?_, fun h => by rw [h]⟩
  have hf := family_eq_of_rank_eq h
  obtain ⟨fa, va, ha⟩ := a
  obtain ⟨fb, vb, hb⟩ := b
  obtain rfl : fa = fb := hf
  simp only [rank, Nat.add_left_cancel_iff] at h
  subst h
  rfl

/-- **Every IPv4 address lies below every IPv6 address, and those of one family are ordered by
number.** -/
theorem lt_iff {a b : Address} : a < b ↔
    (a.family = .v4 ∧ b.family = .v6) ∨ (a.family = b.family ∧ a.value < b.value) := by
  by_cases h : a.family = b.family
  · rw [lt_iff_value h]
    refine ⟨fun hlt => Or.inr ⟨h, hlt⟩, ?_⟩
    rintro (⟨ha, hb⟩ | ⟨-, hlt⟩)
    · rw [ha, hb] at h
      exact nomatch h
    · exact hlt
  · cases ha : a.family <;> cases hb : b.family
    · exact absurd (ha.trans hb.symm) h
    · have := value_lt_of_v4 ha
      have := base_le_of_v6 hb
      exact ⟨fun _ => Or.inl ⟨rfl, rfl⟩, fun _ => by rw [lt_iff_rank]; omega⟩
    · have := base_le_of_v6 ha
      have := value_lt_of_v4 hb
      simp only [lt_iff_rank, reduceCtorEq, false_and, or_self, iff_false]
      omega
    · exact absurd (ha.trans hb.symm) h

theorem le_refl (a : Address) : a ≤ a := Nat.le_refl a.rank

theorem le_antisymm {a b : Address} (hab : a ≤ b) (hba : b ≤ a) : a = b :=
  rank_inj.1 (Nat.le_antisymm hab hba)

theorem not_le {a b : Address} : ¬ a ≤ b ↔ b < a := Nat.not_le

theorem not_lt {a b : Address} : ¬ a < b ↔ b ≤ a := Nat.not_lt

/-! ## The next address -/

theorem ofNat?_eq_some_iff {family : Family} {value : Nat} {a : Address} :
    ofNat? family value = some a ↔ a.family = family ∧ a.value = value := by
  rw [ofNat?]
  split
  · rw [Option.some_inj]
    refine ⟨fun h => by rw [← h]; exact ⟨rfl, rfl⟩, fun ⟨hf, hv⟩ => ?_⟩
    obtain ⟨_, _, _⟩ := a
    subst hf hv
    rfl
  · rename_i hge
    refine ⟨fun h => absurd h (by simp), fun ⟨hf, hv⟩ => absurd a.value_lt ?_⟩
    rw [hf, hv]
    exact hge

theorem succ?_eq_some_iff {a b : Address} :
    a.succ? = some b ↔ b.family = a.family ∧ b.rank = a.rank + 1 := by
  rw [succ?, ofNat?_eq_some_iff]
  refine and_congr_right fun h => ?_
  rw [rank, rank, h]
  omega

/-- Nothing of a family lies above an address that has no next one. -/
theorem le_of_succ?_eq_none {a b : Address} (h : a.succ? = none) (hf : b.family = a.family) :
    b ≤ a := by
  rw [le_iff_value hf]
  by_contra hlt
  have hb := b.value_lt
  rw [hf] at hb
  rw [succ?, ofNat?, dif_pos (by omega)] at h
  exact absurd h (by simp)

/-- The address before one that is not the first of its family is one step below it. -/
theorem rank_before {a b : Address} (hf : b.family = a.family) (hlt : b < a) :
    a.before.rank + 1 = a.rank := by
  have hv := (lt_iff_value hf).1 hlt
  simp only [rank, before]
  omega

end Address

/-! ## Spans and ranges -/

theorem Span.contains_iff {s : Span} {a : Address} :
    s.contains a = true ↔ s.first ≤ a ∧ a ≤ s.last := by
  simp [Span.contains]

namespace Range

theorem first_le_last (r : Range) : r.first ≤ r.last := r.valid.2

/-- The range with the given bounds is the one that has them, if they bound one. -/
theorem ofBounds?_eq_some_iff {a b : Address} {r : Range} :
    ofBounds? a b = some r ↔ r.toSpan = ⟨a, b⟩ := by
  rw [ofBounds?]
  constructor
  · intro h
    split at h
    · rw [← Option.some_inj.1 h]
    · simp at h
  · obtain ⟨span, valid⟩ := r
    rintro rfl
    exact dif_pos valid

theorem ofBounds?_eq_none_iff {a b : Address} :
    ofBounds? a b = none ↔ ¬ (a.family = b.family ∧ a ≤ b) := by
  rw [ofBounds?]
  split
  · rename_i h
    simp only [reduceCtorEq, false_iff, not_not]
    exact h
  · rename_i h
    simp only [true_iff]
    exact h

/-- Everything in a range belongs to the family of its bounds. -/
theorem family_eq {r : Range} {a : Address} (h : r.contains a = true) :
    a.family = r.first.family :=
  have h := Span.contains_iff.1 h
  Address.family_eq_of_between r.valid.1 h.1 h.2

theorem contains_first (r : Range) : r.contains r.first = true :=
  Span.contains_iff.2 ⟨Address.le_refl _, r.first_le_last⟩

end Range

end IpAtlas
