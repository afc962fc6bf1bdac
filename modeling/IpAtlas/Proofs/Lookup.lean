import IpAtlas.Database
import IpAtlas.Proofs.Ascending
import IpAtlas.Proofs.Search

/-!
# Looking an address up

What some entries answer is said without any search: the location of the entry that covers the
address.  When the entries ascend, the only one that can cover it is the last that starts at or
before it, and binary search finds that one, because "starts at or before the address" holds of the
entries up to it and of none behind it.

## What is here

* `Entry.answerOf` — what some entries answer.
* `Entry.Floor` — the last entry that starts at or before an address, and the entries around it.
* `Entry.answerOf_floor`, `Entry.firstFailure_floor` — what it answers, and that it is found.
* `Memory.get_eq` — a lookup in memory.
-/

set_option autoImplicit false

namespace IpAtlas

namespace Entry

/-- The location of the entry that covers an address. -/
def answerOf (entries : List Entry) (a : Address) : Option Location :=
  (entries.find? fun e => e.span.contains a).map (·.location)

/-- `e` is the last of some entries that starts at or before an address. -/
structure Floor (entries : List Entry) (a : Address) (before : List Entry) (e : Entry)
    (after : List Entry) : Prop where
  split : entries = before ++ e :: after
  first_le : e.span.first ≤ a
  lt_first : ∀ x ∈ after, a < x.span.first

/-- Either every entry starts behind an address, or there is a last one that does not. -/
theorem exists_floor (entries : List Entry) (a : Address) :
    (∀ e ∈ entries, a < e.span.first) ∨ ∃ before e after, Floor entries a before e after := by
  induction entries with
  | nil => exact Or.inl (by simp)
  | cons x entries ih =>
    rcases ih with hall | ⟨before, e, after, hf⟩
    · by_cases hx : x.span.first ≤ a
      · exact Or.inr ⟨[], x, entries, rfl, hx, hall⟩
      · exact Or.inl (List.forall_mem_cons.2 ⟨Address.not_le.1 hx, hall⟩)
    · exact Or.inr ⟨x :: before, e, after, by rw [hf.split]; rfl, hf.first_le, hf.lt_first⟩

section

variable {entries before after : List Entry} {e : Entry} {a : Address}

/-- What stands before the last entry that starts by an address has ended there. -/
theorem Floor.last_lt (hf : Floor entries a before e after)
    (hasc : Span.Ascending (entries.map Entry.span)) :
    ∀ x ∈ before, x.span.last < e.span.first := by
  rw [hf.split, List.map_append, List.map_cons, Span.ascending_append] at hasc
  exact fun x hx => hasc.2.2 x.span (List.mem_map_of_mem hx) e.span (by simp)

/-- **The last entry that starts by an address is the only one that can answer.** -/
theorem answerOf_floor (hf : Floor entries a before e after)
    (hasc : Span.Ascending (entries.map Entry.span)) :
    answerOf entries a = if a ≤ e.span.last then some e.location else none := by
  have hbefore : before.find? (fun e => e.span.contains a) = none :=
    List.find?_eq_none.2 fun x hx => Span.not_contains_of_last_lt (hf.last_lt hasc x hx) hf.first_le
  have hafter : after.find? (fun e => e.span.contains a) = none :=
    List.find?_eq_none.2 fun x hx => Span.not_contains_of_lt_first (hf.lt_first x hx)
  rw [answerOf, hf.split, List.find?_append, hbefore, Option.none_or, List.find?_cons, hafter]
  split
  · rename_i hc
    rw [if_pos (Span.contains_iff.1 hc).2]
    rfl
  · rename_i hc
    rw [if_neg fun hle => absurd (Span.contains_iff.2 ⟨hf.first_le, hle⟩) (by rw [hc]; simp)]
    rfl

theorem answerOf_of_lt_first (hall : ∀ e ∈ entries, a < e.span.first) :
    answerOf entries a = none := by
  rw [answerOf, List.find?_eq_none.2 fun x hx => Span.not_contains_of_lt_first (hall x hx)]
  rfl

/-! ## The search -/

/-- Whether the entry of a number starts at or before an address. -/
def startsBy (entries : List Entry) (a : Address) (index : Nat) : Bool :=
  (entries[index]?).any fun e => e.span.first ≤ a

theorem startsBy_eq_false (hall : ∀ e ∈ entries, a < e.span.first) (index : Nat) :
    startsBy entries a index = false := by
  rw [startsBy]
  cases h : entries[index]? with
  | none => rfl
  | some e =>
    have := hall e (List.mem_of_getElem? h)
    simpa using Address.not_le.2 this

/-- **The search counts the entries up to the last that starts by the address.** -/
theorem firstFailure_floor (hf : Floor entries a before e after)
    (hasc : Span.Ascending (entries.map Entry.span)) :
    firstFailure (startsBy entries a) 0 entries.length = before.length + 1 := by
  have hvalid : ∀ x ∈ entries, x.span.first ≤ x.span.last := fun x hx =>
    (hasc.1 x.span (List.mem_map_of_mem hx)).2
  have hlast := hf.last_lt hasc
  have hfirst := hf.first_le
  refine firstFailure_eq (Nat.zero_le _) (by rw [hf.split]; simp) ?_ ?_
  · intro i hi
    have hx : ∃ x, entries[i]? = some x ∧ x.span.first ≤ a := by
      rcases Nat.lt_or_ge i before.length with hlt | hge
      · refine ⟨before[i], by rw [hf.split, List.getElem?_append_left hlt]; simp, ?_⟩
        have h1 := hlast _ (List.getElem_mem hlt)
        have h2 := hvalid before[i] (by rw [hf.split]; simp)
        simp only [Address.le_iff_rank, Address.lt_iff_rank] at h1 h2 hfirst ⊢
        omega
      · obtain rfl : i = before.length := by omega
        exact ⟨e, by rw [hf.split]; simp, hf.first_le⟩
    obtain ⟨x, hx, hle⟩ := hx
    rw [startsBy, hx]
    simpa using hle
  · intro i hi _
    rw [startsBy, hf.split, List.getElem?_append_right (by omega)]
    obtain ⟨j, hj⟩ : ∃ j, i - before.length = j + 1 := ⟨i - before.length - 1, by omega⟩
    rw [hj, List.getElem?_cons_succ]
    exact startsBy_eq_false hf.lt_first j

theorem firstFailure_of_lt_first (hall : ∀ e ∈ entries, a < e.span.first) :
    firstFailure (startsBy entries a) 0 entries.length = 0 :=
  firstFailure_eq (Nat.le_refl 0) (Nat.zero_le _) (fun _ h => absurd h (Nat.not_lt_zero _))
    fun i _ _ => startsBy_eq_false hall i

end

end Entry

/-! ## In memory -/

theorem Memory.startsBy_eq (m : Memory) (a : Address) :
    m.startsBy a = Entry.startsBy m.entries.toList a := by
  funext i
  rw [Memory.startsBy, Entry.startsBy, Array.getElem?_toList]
  cases m.entries[i]? <;> rfl

/-- **A lookup in memory answers as the entries do.** -/
theorem Memory.get_eq {m : Memory} (hasc : Span.Ascending (m.entries.toList.map Entry.span))
    (a : Address) : m.get a = Entry.answerOf m.entries.toList a := by
  have hsize : m.size = m.entries.toList.length := by simp [Memory.size]
  rw [Memory.get, Memory.floor?, Memory.startsBy_eq, hsize]
  rcases Entry.exists_floor m.entries.toList a with hall | ⟨before, e, after, hf⟩
  · rw [Entry.firstFailure_of_lt_first hall, Entry.answerOf_of_lt_first hall]
  · have he : m.entries[before.length]? = some e := by
      rw [← Array.getElem?_toList, hf.split]
      simp
    rw [Entry.firstFailure_floor hf hasc, Entry.answerOf_floor hf hasc]
    simp only [he]

end IpAtlas
