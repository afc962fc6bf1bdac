import IpAtlas.Proofs.Order

/-!
# Ascending spans

Everything in the library that is stored, laid over something or looked up comes as a list of ranges
each of which starts after the end of those before it.  An address lies in one of them at most, and
a list that is cut in two parts has the addresses of the one below those of the other.

## What is here

* `Span.Ascending` — the property, on a list of spans.
* `Span.ascending_cons`, `Span.ascending_append` — lists built from parts.
* `Span.Ascending.filter_contains` — an address lies in one of the spans at most.
-/

set_option autoImplicit false

namespace IpAtlas

namespace Span

/-- Every span bounds a range, and starts after the end of those before it. -/
def Ascending (spans : List Span) : Prop :=
  (∀ s ∈ spans, s.Valid) ∧ spans.Pairwise fun s t => s.last < t.first

theorem ascending_nil : Ascending [] := ⟨by simp, List.Pairwise.nil⟩

theorem ascending_cons {s : Span} {spans : List Span} :
    Ascending (s :: spans) ↔
      s.Valid ∧ (∀ t ∈ spans, s.last < t.first) ∧ Ascending spans := by
  simp only [Ascending, List.forall_mem_cons, List.pairwise_cons]
  refine ⟨fun ⟨⟨hs, hv⟩, hlt, hp⟩ => ⟨hs, hlt, hv, hp⟩, fun ⟨hs, hlt, hv, hp⟩ => ?_⟩
  exact ⟨⟨hs, hv⟩, hlt, hp⟩

theorem ascending_append {front back : List Span} :
    Ascending (front ++ back) ↔
      Ascending front ∧ Ascending back ∧ ∀ s ∈ front, ∀ t ∈ back, s.last < t.first := by
  simp only [Ascending, List.forall_mem_append, List.pairwise_append]
  refine ⟨fun ⟨⟨hf, hb⟩, pf, pb, h⟩ => ⟨⟨hf, pf⟩, ⟨hb, pb⟩, h⟩, ?_⟩
  exact fun ⟨⟨hf, pf⟩, ⟨hb, pb⟩, h⟩ => ⟨⟨hf, hb⟩, pf, pb, h⟩

/-- One more span behind ascending ones, which need only be compared with the last of them. -/
theorem ascending_concat {spans : List Span} {s : Span} (h : Ascending spans) (hs : s.Valid)
    (hlast : ∀ t ∈ spans.getLast?, t.last < s.first) : Ascending (spans ++ [s]) := by
  refine ascending_append.2 ⟨h, ascending_cons.2 ⟨hs, by simp, ascending_nil⟩, ?_⟩
  intro t ht u hu
  obtain rfl : u = s := by simpa using hu
  obtain ⟨front, z, rfl⟩ := spans.eq_nil_or_concat.resolve_left (List.ne_nil_of_mem ht)
  have hz := hlast z (by simp)
  rw [List.concat_eq_append] at h ht
  rcases List.mem_append.1 ht with hmem | hmem
  · have hlt := (ascending_append.1 h).2.2 t hmem z (by simp)
    have hv := (h.1 z (by simp)).2
    simp only [Address.lt_iff_rank, Address.le_iff_rank] at hlt hv hz ⊢
    omega
  · obtain rfl : t = z := by simpa using hmem
    exact hz

theorem not_contains_of_last_lt {s t : Span} {a : Address} (h : s.last < t.first)
    (ht : t.first ≤ a) : ¬ s.contains a = true := by
  rw [contains_iff]
  simp only [Address.le_iff_rank, Address.lt_iff_rank] at h ht ⊢
  omega

theorem not_contains_of_lt_first {s : Span} {a : Address} (h : a < s.first) :
    ¬ s.contains a = true := by
  rw [contains_iff]
  exact fun hc => Address.not_le.2 h hc.1

/-- **An address lies in one of ascending spans at most.** -/
theorem Ascending.filter_contains {α : Type} {spanOf : α → Span} {xs : List α}
    (h : Ascending (xs.map spanOf)) (a : Address) :
    xs.filter (fun x => (spanOf x).contains a) =
      (xs.find? fun x => (spanOf x).contains a).toList := by
  induction xs with
  | nil => rfl
  | cons x xs ih =>
    rw [List.map_cons, ascending_cons] at h
    obtain ⟨-, hlt, h⟩ := h
    rw [List.filter_cons, List.find?_cons]
    cases hx : (spanOf x).contains a with
    | true =>
      have hrest : xs.filter (fun x => (spanOf x).contains a) = [] := by
        refine List.filter_eq_nil_iff.2 fun y hy => not_contains_of_lt_first ?_
        have hxy := hlt (spanOf y) (List.mem_map_of_mem hy)
        have hax := (contains_iff.1 hx).2
        simp only [Address.le_iff_rank, Address.lt_iff_rank] at hxy hax ⊢
        omega
      rw [if_pos rfl, hrest]
      rfl
    | false =>
      rw [if_neg (by simp), ih h]

end Span

end IpAtlas
