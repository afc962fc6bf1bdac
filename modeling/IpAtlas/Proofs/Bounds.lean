import IpAtlas.Bounds
import IpAtlas.Proofs.Address.Text
import IpAtlas.Proofs.Result
import Mathlib.Algebra.Group.Nat.Defs

/-!
# The two notations of range bounds

A bound is taken for an address if it has a dot or a colon, and for a number otherwise.  Every text
that is an address has one of the two, and no number has, so nothing is ever read in the wrong
notation.

Two numbers are read in one family, which is told by the table or by the upper number.  What is read
has their values: a number that the family is too small for is refused, and nothing is cut off.

## What is here

* `Bounds.looksLikeAddress_of_ofText?`, `Bounds.looksLikeAddress_of_spells` — the notations.
* `Bounds.read_of_addresses`, `Bounds.read_of_mixed` — two addresses, and one of each.
* `Bounds.ReadsNumbers`, `Bounds.readsNumbers` — two numbers.
* `Bounds.exists_spells_of_read` — nothing else is read as numbers.
* `Bounds.read_agrees` — the two notations of one range.
-/

set_option autoImplicit false

namespace IpAtlas

namespace Bounds

open Text (Spells)

/-! ## Telling the notations -/

theorem looksLikeAddress_iff {s : String} :
    looksLikeAddress s = true ↔ '.' ∈ s.toList ∨ ':' ∈ s.toList := by
  simp only [looksLikeAddress, List.any_eq_true, Bool.or_eq_true, decide_eq_true_eq]
  constructor
  · rintro ⟨c, hc, rfl | rfl⟩
    · exact Or.inl hc
    · exact Or.inr hc
  · rintro (h | h)
    · exact ⟨'.', h, Or.inl rfl⟩
    · exact ⟨':', h, Or.inr rfl⟩

/-- **What is read as an address looks like one.** -/
theorem looksLikeAddress_of_ofText? {s : String} {a : Address} (h : Address.ofText? s = some a) :
    looksLikeAddress s = true := by
  obtain ⟨front, back, hs, -⟩ := Text.trimmed_trimChars s.toList
  have hinside : ∀ c ∈ Text.trimChars s.toList, c ∈ s.toList := by
    intro c hc
    rw [hs]
    exact List.mem_append_left _ (List.mem_append_right _ hc)
  rw [looksLikeAddress_iff]
  exact (AddressText.mark_mem_of_read? h).imp (hinside '.') (hinside ':')

/-- **What spells a number does not look like an address.** -/
theorem looksLikeAddress_of_spells {s : String} {n : Nat} (h : Spells s n) :
    looksLikeAddress s = false := by
  rw [Bool.eq_false_iff, ne_eq, looksLikeAddress_iff]
  rintro (hmem | hmem)
  · rcases h.mem hmem with heq | hdigit
    · exact absurd heq (by decide)
    · exact absurd hdigit (by decide)
  · rcases h.mem hmem with heq | hdigit
    · exact absurd heq (by decide)
    · exact absurd hdigit (by decide)

/-! ## Two addresses, and one of each -/

theorem readAddress_eq_ok {s : String} {a : Address} (h : Address.ofText? s = some a) :
    readAddress s = .ok a := by
  rw [readAddress, h]

/-- **Two addresses are read as they are**, whatever numbers mean. -/
theorem read_of_addresses (numbers : NumberFamily) {s t : String} {a b : Address}
    (hs : Address.ofText? s = some a) (ht : Address.ofText? t = some b) :
    read numbers s t = .ok (a, b) := by
  rw [read, looksLikeAddress_of_ofText? hs, looksLikeAddress_of_ofText? ht, readAddress_eq_ok hs,
    readAddress_eq_ok ht]
  rfl

/-- **Two bounds in different notations are refused.** -/
theorem read_of_mixed (numbers : NumberFamily) {s t : String}
    (h : looksLikeAddress s ≠ looksLikeAddress t) : read numbers s t = .error (.mixed s t) := by
  rw [read]
  cases hs : looksLikeAddress s <;> cases ht : looksLikeAddress t <;> simp_all

/-! ## Two numbers -/

theorem readNumber_eq_ok_iff {s : String} {n : Nat} :
    readNumber s = .ok n ↔ Spells s n ∧ n < Family.v6.size := by
  rw [readNumber, ← Text.unsigned?_eq_some_iff]
  cases Text.unsigned? Family.v6.size s <;> simp

theorem readNumber_eq_error {s : String} (h : ∀ n, Spells s n → Family.v6.size ≤ n) :
    readNumber s = .error (.number s) := by
  rw [readNumber, Text.unsigned?_eq_none_iff.2 h]

theorem place_eq_ok_iff {family : Family} {n : Nat} {a : Address} :
    place family n = .ok a ↔ a.family = family ∧ a.value = n := by
  rw [place, ← Address.ofNat?_eq_some_iff]
  cases Address.ofNat? family n <;> simp

theorem place_eq_error {family : Family} {n : Nat} (h : family.size ≤ n) :
    place family n = .error (.exceedsV4 n) := by
  rw [place, Address.ofNat?, dif_neg (Nat.not_lt.2 h)]

/-- Whether numbers with `upper` for the upper one are IPv4 addresses: in a table of IPv4 numbers
all of them are, and where it is left open, those that fit in 32 bits. -/
def Short (numbers : NumberFamily) (upper : Nat) : Prop :=
  numbers = .v4 ∨ numbers = .auto ∧ upper < 2 ^ 32

instance (numbers : NumberFamily) (upper : Nat) : Decidable (Short numbers upper) :=
  inferInstanceAs (Decidable (numbers = .v4 ∨ numbers = .auto ∧ upper < 2 ^ 32))

theorem choose_eq_v4_iff {numbers : NumberFamily} {upper : Nat} :
    numbers.choose upper = .v4 ↔ Short numbers upper := by
  have hsize : Family.v4.size = 2 ^ 32 := rfl
  cases numbers with
  | auto =>
    rw [NumberFamily.choose, hsize, Short]
    split_ifs with h
    · exact iff_of_true rfl (Or.inr ⟨rfl, h⟩)
    · simpa using h
  | v4 => simp [NumberFamily.choose, Short]
  | v6 => simp [NumberFamily.choose, Short]

theorem eq_choose_iff {numbers : NumberFamily} {upper : Nat} {family : Family} :
    family = numbers.choose upper ↔ (family = .v4 ↔ Short numbers upper) := by
  rw [← choose_eq_v4_iff]
  cases family <;> cases numbers.choose upper <;> simp

/-- Two bounds that look like numbers are read one by one, and then placed in one family. -/
theorem read_of_numbers (numbers : NumberFamily) {s t : String} (hs : looksLikeAddress s = false)
    (ht : looksLikeAddress t = false) :
    read numbers s t = (do
      let lower ← readNumber s
      let upper ← readNumber t
      return (← place (numbers.choose upper) lower, ← place (numbers.choose upper) upper)) := by
  rw [read, hs, ht]

/-- **Two bounds are read as numbers exactly if they spell some that the family is large enough
for**, which is then the family of both; and what is read has their values. -/
theorem read_numbers_eq_ok_iff {numbers : NumberFamily} {s t : String}
    (hs : looksLikeAddress s = false) (ht : looksLikeAddress t = false) {a b : Address} :
    read numbers s t = .ok (a, b) ↔
      Spells s a.value ∧ Spells t b.value ∧ a.family = b.family ∧
        (a.family = .v4 ↔ Short numbers b.value) := by
  have hsize : ∀ a : Address, a.value < Family.v6.size := by
    intro a
    refine Nat.lt_of_lt_of_le a.value_lt ?_
    cases a.family <;> decide
  simp only [read_of_numbers numbers hs ht, bind_eq_ok_iff, readNumber_eq_ok_iff, place_eq_ok_iff,
    pure, Except.pure, Except.ok.injEq, Prod.mk.injEq]
  constructor
  · rintro ⟨m, ⟨hm, -⟩, n, ⟨hn, -⟩, a', ⟨hfa, rfl⟩, b', ⟨hfb, rfl⟩, rfl, rfl⟩
    exact ⟨hm, hn, hfa.trans hfb.symm, eq_choose_iff.1 hfa⟩
  · rintro ⟨hm, hn, hf, hshort⟩
    have hfa := eq_choose_iff.2 hshort
    exact ⟨_, ⟨hm, hsize a⟩, _, ⟨hn, hsize b⟩, a, ⟨hfa, rfl⟩, b, ⟨hf ▸ hfa, rfl⟩, rfl, rfl⟩

/-- What becomes of two bounds that spell the numbers `m` and `n`. -/
structure ReadsNumbers (numbers : NumberFamily) (first last : String) (m n : Nat) : Prop where
  /-- Both are read with their values and in one family, or not at all. -/
  exact : ∀ a b, read numbers first last = .ok (a, b) ↔
    a.family = b.family ∧ (a.family = .v4 ↔ Short numbers n) ∧ a.value = m ∧ b.value = n
  /-- A lower number of more than 128 bits is refused. -/
  long_first : 2 ^ 128 ≤ m → read numbers first last = .error (.number first)
  /-- An upper number of more than 128 bits is refused. -/
  long_last : m < 2 ^ 128 → 2 ^ 128 ≤ n → read numbers first last = .error (.number last)
  /-- A lower number of more than 32 bits is refused among IPv4 numbers. -/
  short_first : Short numbers n → m < 2 ^ 128 → n < 2 ^ 128 → 2 ^ 32 ≤ m →
    read numbers first last = .error (.exceedsV4 m)
  /-- An upper number of more than 32 bits is refused among IPv4 numbers. -/
  short_last : numbers = .v4 → m < 2 ^ 32 → 2 ^ 32 ≤ n → n < 2 ^ 128 →
    read numbers first last = .error (.exceedsV4 n)

theorem readNumber_of_spells {s : String} {n : Nat} (h : Spells s n) (hn : n < 2 ^ 128) :
    readNumber s = .ok n := readNumber_eq_ok_iff.2 ⟨h, hn⟩

theorem readNumber_of_long {s : String} {n : Nat} (h : Spells s n) (hn : 2 ^ 128 ≤ n) :
    readNumber s = .error (.number s) :=
  readNumber_eq_error fun _ hk => h.eq hk ▸ hn

theorem place_of_lt {family : Family} {n : Nat} (h : n < family.size) :
    place family n = .ok ⟨family, n, h⟩ := place_eq_ok_iff.2 ⟨rfl, rfl⟩

/-- **Two numbers are read with their values and in one family, or refused.** -/
theorem readsNumbers (numbers : NumberFamily) {s t : String} {m n : Nat} (hs : Spells s m)
    (ht : Spells t n) : ReadsNumbers numbers s t m n := by
  have hread := read_of_numbers numbers (looksLikeAddress_of_spells hs)
    (looksLikeAddress_of_spells ht)
  -- once both are numbers, they are placed in the family that is chosen
  have hplaced (hm : m < 2 ^ 128) (hn : n < 2 ^ 128) : read numbers s t = (do
      return (← place (numbers.choose n) m, ← place (numbers.choose n) n)) := by
    rw [hread, readNumber_of_spells hs hm, readNumber_of_spells ht hn]
    rfl
  have hlong_first (hm : 2 ^ 128 ≤ m) : read numbers s t = .error (.number s) := by
    rw [hread, readNumber_of_long hs hm]
    rfl
  have hlong_last (hm : m < 2 ^ 128) (hn : 2 ^ 128 ≤ n) :
      read numbers s t = .error (.number t) := by
    rw [hread, readNumber_of_spells hs hm, readNumber_of_long ht hn]
    rfl
  refine ⟨fun a b => ?_, hlong_first, hlong_last, fun hshort hm hn hge => ?_,
    fun hv4 hm hge hn => ?_⟩
  · rw [read_numbers_eq_ok_iff (looksLikeAddress_of_spells hs) (looksLikeAddress_of_spells ht)]
    constructor
    · rintro ⟨hm, hn, hf, hshort⟩
      rw [hn.eq ht] at hshort
      exact ⟨hf, hshort, hm.eq hs, hn.eq ht⟩
    · rintro ⟨hf, hshort, rfl, rfl⟩
      exact ⟨hs, ht, hf, hshort⟩
  · rw [hplaced hm hn, choose_eq_v4_iff.2 hshort, place_eq_error hge]
    rfl
  · have hshort : Short numbers n := Or.inl hv4
    rw [hplaced (by omega) hn, choose_eq_v4_iff.2 hshort, place_of_lt hm, place_eq_error hge]
    rfl

/-! ## The two notations of one range -/

/-- What numbers are taken for in a table of one family. -/
def forced : Family → NumberFamily
  | .v4 => .v4
  | .v6 => .v6

theorem short_forced {family : Family} {upper : Nat} :
    Short (forced family) upper ↔ family = .v4 := by
  cases family <;> simp [Short, forced]

/-- A range is read from its numbers exactly where they are taken for numbers of its family. -/
theorem read_toString_iff {numbers : NumberFamily} {r : Range} :
    read numbers (toString r.first.value) (toString r.last.value) = .ok (r.first, r.last) ↔
      (r.family = .v4 ↔ Short numbers r.last.value) := by
  have h := readsNumbers numbers (Text.spells_toString r.first.value)
    (Text.spells_toString r.last.value)
  rw [h.exact]
  exact ⟨fun hread => hread.2.1, fun hshort => ⟨r.valid.1, hshort, rfl, rfl⟩⟩

/-- **The two notations of range bounds agree.**  A range is read from the texts of its bounds
whatever numbers mean, and from their numbers where these are taken for numbers of its family; where
that is left open, this fails for IPv6 ranges below 2³² alone.  Whatever two numbers are read as is
of one family and has their values, so a number that is too large is refused, as is anything that is
no number; and so are two bounds in different notations. -/
theorem read_agrees :
    (∀ (r : Range) (numbers : NumberFamily),
      read numbers r.first.toText r.last.toText = .ok (r.first, r.last)) ∧
    (∀ r : Range, read (forced r.family) (toString r.first.value) (toString r.last.value) =
      .ok (r.first, r.last)) ∧
    (∀ r : Range, read .auto (toString r.first.value) (toString r.last.value) =
        .ok (r.first, r.last) ↔ r.family = .v4 ∨ 2 ^ 32 ≤ r.last.value) ∧
    (∀ (numbers : NumberFamily) (s t : String) (m n : Nat), Spells s m → Spells t n →
      ReadsNumbers numbers s t m n) ∧
    (∀ (numbers : NumberFamily) (s t : String) (a b : Address), looksLikeAddress s = false →
      looksLikeAddress t = false → read numbers s t = .ok (a, b) →
        Spells s a.value ∧ Spells t b.value ∧ a.family = b.family) ∧
    (∀ (numbers : NumberFamily) (s t : String), looksLikeAddress s ≠ looksLikeAddress t →
      read numbers s t = .error (.mixed s t)) ∧
    ∀ (numbers : NumberFamily) (s t : String) (a : Address) (n : Nat),
      Address.ofText? s = some a → Spells t n →
        read numbers s t = .error (.mixed s t) ∧ read numbers t s = .error (.mixed t s) := by
  refine ⟨fun r numbers => ?_, fun r => ?_, fun r => ?_,
    fun numbers s t m n => readsNumbers numbers, fun numbers s t a b hs ht h => ?_,
    fun numbers s t => read_of_mixed numbers, fun numbers s t a n hs ht => ?_⟩
  · exact read_of_addresses numbers r.first.ofText?_toText_alone r.last.ofText?_toText_alone
  · exact read_toString_iff.2 short_forced.symm
  · rw [read_toString_iff]
    have hvalue := r.last.value_lt
    rw [← r.valid.1] at hvalue
    cases hf : r.family with
    | v4 =>
      rw [show r.first.family = .v4 from hf] at hvalue
      have hshort : Short .auto r.last.value := Or.inr ⟨rfl, hvalue⟩
      simp [hshort]
    | v6 => simp [Short]
  · obtain ⟨hm, hn, hf, -⟩ := (read_numbers_eq_ok_iff hs ht).1 h
    exact ⟨hm, hn, hf⟩
  · have hne : looksLikeAddress s ≠ looksLikeAddress t := by
      rw [looksLikeAddress_of_ofText? hs, looksLikeAddress_of_spells ht]
      decide
    exact ⟨read_of_mixed numbers hne, read_of_mixed numbers hne.symm⟩

/-- The IPv6 range from `::1` to `::ffff:ffff` is read from its texts, and from its numbers as IPv6
numbers alone; above it, two numbers are read as IPv6 from an upper number of 2³² on, while a lower
one of 2³² is refused; and its first text does not go with a number. -/
theorem read_agrees_small :
    ∃ (r : Range) (a b : Address), r.first.toText = "::1" ∧ r.last.toText = "::ffff:ffff" ∧
      read .v4 "::1" "::ffff:ffff" = .ok (r.first, r.last) ∧
      read .v6 "1" "4294967295" = .ok (r.first, r.last) ∧
      read .auto "1" "4294967295" ≠ .ok (r.first, r.last) ∧
      read .auto "1" "4294967296" = .ok (a, b) ∧ a = r.first ∧ b.value = 2 ^ 32 ∧
      read .auto "4294967296" "1" = .error (.exceedsV4 (2 ^ 32)) ∧
      read .auto "::1" "1" = .error (.mixed "::1" "1") := by
  let a : Address := ⟨.v6, 1, by decide⟩
  let b : Address := ⟨.v6, 2 ^ 32, by decide⟩
  let r : Range := ⟨⟨a, ⟨.v6, 4294967295, by decide⟩⟩, by decide⟩
  have hone : Spells "1" 1 := Text.spells_toString 1
  have hlarge : Spells "4294967296" (2 ^ 32) := by
    have h := Text.spells_toString (2 ^ 32)
    rwa [show toString (2 ^ 32 : Nat) = "4294967296" by decide] at h
  have hlower : toString r.first.value = "1" := by decide
  have hupper : toString r.last.value = "4294967295" := by decide
  have hfirst : r.first.toText = "::1" := by decide
  have hlast : r.last.toText = "::ffff:ffff" := by decide
  obtain ⟨htext, hforced, hauto, hnumbers, -, -, hmixed⟩ := read_agrees
  have hread := htext r .v4
  have hforced := hforced r
  have hauto := hauto r
  rw [hfirst, hlast] at hread
  rw [hlower, hupper] at hforced hauto
  have hparsed : Address.ofText? "::1" = some a := by
    have h := r.first.ofText?_toText_alone
    rwa [hfirst] at h
  refine ⟨r, a, b, hfirst, hlast, hread, hforced, ?_, ?_, rfl, rfl, ?_, ?_⟩
  · intro h
    exact absurd (hauto.1 h) (by decide)
  · exact ((hnumbers .auto _ _ _ _ hone hlarge).exact a b).2 ⟨rfl, by decide, rfl, rfl⟩
  · exact (hnumbers .auto _ _ _ _ hlarge hone).short_first (by decide) (by decide) (by decide)
      (by decide)
  · exact (hmixed .auto _ _ _ _ hparsed hone).1

end Bounds

end IpAtlas
