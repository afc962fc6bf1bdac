import IpAtlas.Error
import IpAtlas.Proofs.Order
import Mathlib.Order.Compare

/-!
# Addresses by their bytes

An address is kept as a number, and its bytes are read off when a key is written.  Comparing two
addresses by family and then byte by byte gives the same order as comparing the numbers, since the
bytes come most significant first: the first byte in which two strings of one length differ decides
which of them spells the larger number.

So a step to the next address, which carries through the bytes, is a step of one in the order, and
nothing lies between an address and the next one of its family.

## What is here

* `Bytes.toNatBE_cons`, `Bytes.compare_eq_toNatBE` — strings of one length compare as numbers.
* `Family.place`, `Address.compare_eq_bytes` — the order of addresses, byte by byte.
* `Address.succ?_eq_some_iff_least`, `Address.succ?_eq_none_iff`, `Address.pred?_eq_some_iff`,
  `Address.pred?_eq_none_iff` — the neighbours.
* `Address.ofBytes?_eq_some_iff`, `Address.ofBytes?_eq_none_iff` — reading bytes.
* `Range.ofBounds_eq_ok_iff`, `Range.ofBounds_eq_error_iff` — what bounds a range.
* `Range.contains_iff_value` — what is in it.
* `Address.order_and_steps` — all of them together.
-/

set_option autoImplicit false

namespace IpAtlas

namespace Bytes

/-! ## Bytes as digits -/

theorem toNatLE_concat (bs : Bytes) (b : UInt8) :
    toNatLE (bs ++ [b]) = toNatLE bs + capacity bs.length * b.toNat := by
  induction bs with
  | nil => simp [toNatLE, capacity]
  | cons c bs ih =>
    simp only [List.cons_append, toNatLE, ih, List.length_cons, capacity]
    rw [Nat.mul_add, Nat.mul_assoc, Nat.add_assoc]

/-- The first byte counts as many as the others can spell. -/
theorem toNatBE_cons (b : UInt8) (bs : Bytes) :
    toNatBE (b :: bs) = b.toNat * capacity bs.length + toNatBE bs := by
  rw [toNatBE, List.reverse_cons, toNatLE_concat, List.length_reverse, Nat.add_comm, Nat.mul_comm]
  rfl

/-- Numbers compare by their leading digits and then by what is left. -/
theorem compare_leading {m n x y size : Nat} (hx : x < size) (hy : y < size) :
    compare (m * size + x) (n * size + y) = (compare m n).then (compare x y) := by
  rcases Nat.lt_trichotomy m n with hlt | rfl | hgt
  · have hmul : (m + 1) * size ≤ n * size := Nat.mul_le_mul_right size hlt
    rw [Nat.add_mul] at hmul
    rw [Nat.compare_eq_lt.mpr hlt, Nat.compare_eq_lt.mpr (by omega)]
    rfl
  · rw [Nat.compare_eq_eq.mpr rfl]
    simp only [Nat.compare_eq_ite_lt, Nat.add_lt_add_iff_left]
    rfl
  · have hmul : (n + 1) * size ≤ m * size := Nat.mul_le_mul_right size hgt
    rw [Nat.add_mul] at hmul
    rw [Nat.compare_eq_gt.mpr hgt, Nat.compare_eq_gt.mpr (by omega)]
    rfl

/-- **Strings of one length compare as the numbers they spell.** -/
theorem compare_eq_toNatBE {bs cs : Bytes} (h : bs.length = cs.length) :
    compare bs cs = compare (toNatBE bs) (toNatBE cs) := by
  induction bs generalizing cs with
  | nil =>
    obtain rfl : cs = [] := List.eq_nil_of_length_eq_zero h.symm
    rfl
  | cons b bs ih =>
    cases cs with
    | nil => simp at h
    | cons c cs =>
      have hlen : bs.length = cs.length := by simpa using h
      have hcs := toNatBE_lt cs
      rw [← hlen] at hcs
      have hbyte : compare b c = compare b.toNat c.toNat := by
        simp only [compare, compareOfLessAndEq, UInt8.lt_iff_toNat_lt, ← UInt8.toNat_inj]
      have hlex : compare (b :: bs) (c :: cs) = (compare b c).then (compare bs cs) := by
        simp only [List.compare_eq_compareLex, List.compareLex_cons_cons]
      rw [toNatBE_cons, toNatBE_cons, ← hlen, compare_leading (toNatBE_lt bs) hcs, hlex, hbyte,
        ih hlen]

end Bytes

/-- The families in the order in which they are listed. -/
def Family.place : Family → Nat
  | v4 => 0
  | v6 => 1

namespace Address

/-! ## The order -/

theorem toNatBE_bytes (a : Address) : Bytes.toNatBE a.bytes = a.value := by
  rw [bytes, Bytes.toNatBE_ofNatBE]
  exact Nat.mod_eq_of_lt a.value_lt

/-- The order of addresses is that of their families, and within a family that of their numbers. -/
theorem compare_eq_value (a b : Address) :
    compare a b = (compare a.family.place b.family.place).then (compare a.value b.value) := by
  show compare a.rank b.rank = _
  cases ha : a.family <;> cases hb : b.family
  · simp [rank, ha, hb, Nat.compare_eq_ite_lt, Family.place]
  · have := value_lt_of_v4 ha
    have := base_le_of_v6 hb
    rw [Nat.compare_eq_lt.mpr (by omega)]
    rfl
  · have := base_le_of_v6 ha
    have := value_lt_of_v4 hb
    rw [Nat.compare_eq_gt.mpr (by omega)]
    rfl
  · simp [rank, ha, hb, Nat.compare_eq_ite_lt, Family.place]

/-- **The order of addresses is that of their families, and within a family that of their bytes**,
of which the first that differ decide. -/
theorem compare_eq_bytes (a b : Address) :
    compare a b = (compare a.family.place b.family.place).then (compare a.bytes b.bytes) := by
  rw [compare_eq_value]
  by_cases h : a.family = b.family
  · rw [Bytes.compare_eq_toNatBE (by simp [h]), toNatBE_bytes, toNatBE_bytes]
  · -- the families differ, so that neither the numbers nor the bytes are looked at
    have hne : compare a.family.place b.family.place ≠ .eq := by
      revert h
      cases a.family <;> cases b.family <;> decide
    cases hc : compare a.family.place b.family.place with
    | eq => exact absurd hc hne
    | lt => rfl
    | gt => rfl

theorem compare_eq_lt_iff {a b : Address} : compare a b = .lt ↔ a < b := Nat.compare_eq_lt

theorem compare_eq_eq_iff {a b : Address} : compare a b = .eq ↔ a = b :=
  Nat.compare_eq_eq.trans rank_inj

/-! ## The neighbours -/

/-- **The next address is the least one above**, as long as that is of the family. -/
theorem succ?_eq_some_iff_least {a b : Address} :
    a.succ? = some b ↔ b.family = a.family ∧ a < b ∧ ∀ c, a < c → b ≤ c := by
  rw [succ?_eq_some_iff]
  refine and_congr_right fun hf => ?_
  constructor
  · intro h
    refine ⟨by rw [lt_iff_rank]; omega, fun c hc => ?_⟩
    rw [lt_iff_rank] at hc
    rw [le_iff_rank]
    omega
  · rintro ⟨hlt, hleast⟩
    -- the number after that of `a` is not above that of `b`, hence still in the family
    have hv := (lt_iff_value hf.symm).1 hlt
    have hb := b.value_lt
    rw [hf] at hb
    let next : Address := ⟨a.family, a.value + 1, by omega⟩
    have hnext : a < next := by
      simp only [lt_iff_rank, rank, next]
      omega
    have hle : b.value ≤ a.value + 1 :=
      (le_iff_value (show b.family = next.family from hf)).1 (hleast next hnext)
    rw [rank, rank, hf]
    omega

/-- **There is no next address exactly after the last of the family.** -/
theorem succ?_eq_none_iff {a : Address} :
    a.succ? = none ↔ ∀ c : Address, c.family = a.family → c ≤ a := by
  refine ⟨fun h c hc => le_of_succ?_eq_none h hc, fun h => ?_⟩
  cases hs : a.succ? with
  | none => rfl
  | some b =>
    obtain ⟨hf, hlt, -⟩ := succ?_eq_some_iff_least.1 hs
    exact absurd hlt (not_lt.2 (h b hf))

/-- **The previous address is the one whose next address this is.** -/
theorem pred?_eq_some_iff {a b : Address} : b.pred? = some a ↔ a.succ? = some b := by
  rw [pred?, succ?_eq_some_iff]
  split
  · rename_i hzero
    refine ⟨fun h => (by simp at h), ?_⟩
    rintro ⟨hf, h⟩
    rw [rank, rank, hf, hzero] at h
    omega
  · rename_i hpos
    rw [ofNat?_eq_some_iff]
    constructor
    · rintro ⟨hf, hv⟩
      exact ⟨hf.symm, by rw [rank, rank, hf]; omega⟩
    · rintro ⟨hf, h⟩
      rw [rank, rank, hf] at h
      exact ⟨hf.symm, by omega⟩

/-- **There is no previous address exactly before the first of the family.** -/
theorem pred?_eq_none_iff {b : Address} :
    b.pred? = none ↔ ∀ c : Address, c.family = b.family → b ≤ c := by
  constructor
  · intro h c hc
    rw [le_iff_value hc.symm]
    by_contra hlt
    have hpos : b.value ≠ 0 := by omega
    have hb := b.value_lt
    rw [pred?, if_neg hpos, ofNat?, dif_pos (by omega)] at h
    simp at h
  · intro h
    cases hp : b.pred? with
    | none => rfl
    | some a =>
      obtain ⟨hf, hlt, -⟩ := succ?_eq_some_iff_least.1 (pred?_eq_some_iff.1 hp)
      exact absurd hlt (not_lt.2 (h a hf.symm))

/-! ## Reading bytes -/

theorem bytes_ofFamilyBytes {family : Family} {bs : Bytes} (h : bs.length = family.byteCount) :
    (ofFamilyBytes family bs h).bytes = bs := by
  rw [bytes, ofFamilyBytes, ← h, Bytes.ofNatBE_toNatBE]

/-- **Exactly the bytes of an address are read as it.** -/
theorem ofBytes?_eq_some_iff {bs : Bytes} {a : Address} :
    ofBytes? bs = some a ↔ bs = a.bytes := by
  refine ⟨fun h => ?_, fun h => by rw [h, ofBytes?_bytes]⟩
  rw [ofBytes?] at h
  split at h
  · rename_i hlen
    rw [← Option.some_inj.1 h, bytes_ofFamilyBytes hlen]
  · split at h
    · rename_i hlen
      rw [← Option.some_inj.1 h, bytes_ofFamilyBytes hlen]
    · simp at h

/-- **Any four or sixteen bytes are an address, and no others.** -/
theorem ofBytes?_eq_none_iff {bs : Bytes} :
    ofBytes? bs = none ↔ bs.length ≠ 4 ∧ bs.length ≠ 16 := by
  simp only [ofBytes?, Family.byteCount]
  by_cases hfour : bs.length = 4
  · simp [hfour]
  · by_cases hsixteen : bs.length = 16
    · simp [hsixteen]
    · simp [hsixteen]

end Address

/-! ## Ranges -/

namespace Range

/-- **The bounds that are accepted are those of some range**, which is then the result. -/
theorem ofBounds_eq_ok_iff {a b : Address} {r : Range} :
    Range.ofBounds a b = .ok r ↔ r.toSpan = ⟨a, b⟩ := by
  rw [← ofBounds?_eq_some_iff, ofBounds]
  cases ofBounds? a b <;> simp

/-- Bounds that are not accepted are told. -/
theorem ofBounds_eq_error_iff {a b : Address} {e : Error} :
    Range.ofBounds a b = .error e ↔
      ¬ (a.family = b.family ∧ a ≤ b) ∧ e = .invalidRange ⟨a, b⟩ := by
  rw [← ofBounds?_eq_none_iff, ofBounds]
  cases ofBounds? a b <;> simp [eq_comm]

/-- **A range has the addresses of its family whose numbers lie between those of its bounds.** -/
theorem contains_iff_value {r : Range} {c : Address} :
    r.contains c = true ↔
      c.family = r.first.family ∧ r.first.value ≤ c.value ∧ c.value ≤ r.last.value := by
  constructor
  · intro h
    have hf := r.family_eq h
    obtain ⟨hlow, hhigh⟩ := Span.contains_iff.1 h
    exact ⟨hf, (Address.le_iff_value hf.symm).1 hlow,
      (Address.le_iff_value (hf.trans r.valid.1)).1 hhigh⟩
  · rintro ⟨hf, hlow, hhigh⟩
    exact Span.contains_iff.2 ⟨(Address.le_iff_value hf.symm).2 hlow,
      (Address.le_iff_value (hf.trans r.valid.1)).2 hhigh⟩

end Range

namespace Address

/-- **Addresses are ordered, stepped through and bounded as the numbers that their bytes spell.**
The order is told by the family and then by the first bytes that differ, which comes to the same as
the numbers; the next address is the least one above, if that is of the family, and the previous one
is found by going back; four or sixteen bytes are read as the one address they are the bytes of; and
two addresses of one family that do not cross bound a range, which has every address of the family
whose number lies between theirs. -/
theorem order_and_steps (a b : Address) :
    (compare a b = (compare a.family.place b.family.place).then (compare a.bytes b.bytes) ∧
      compare a b = (compare a.family.place b.family.place).then
        (compare (Bytes.toNatBE a.bytes) (Bytes.toNatBE b.bytes)) ∧
      (compare a b = .lt ↔ a < b) ∧ (compare a b = .eq ↔ a = b) ∧
      (compare a b = .gt ↔ b < a) ∧ (a ≤ b ↔ ¬ b < a) ∧
      (a.family = .v4 → b.family = .v6 → a < b)) ∧
    ((a.succ? = some b ↔ b.family = a.family ∧ a < b ∧ ∀ c, a < c → b ≤ c) ∧
      (a.succ? = none ↔ ∀ c : Address, c.family = a.family → c ≤ a) ∧
      (b.pred? = some a ↔ a.succ? = some b) ∧
      (b.pred? = none ↔ ∀ c : Address, c.family = b.family → b ≤ c)) ∧
    (∀ bs, (ofBytes? bs = some a ↔ bs = a.bytes) ∧
      (ofBytes? bs = none ↔ bs.length ≠ 4 ∧ bs.length ≠ 16)) ∧
    ((∃ r, Range.ofBounds a b = .ok r) ↔ a.family = b.family ∧ a ≤ b) ∧
    ∀ r, Range.ofBounds a b = .ok r → r.toSpan = ⟨a, b⟩ ∧ ∀ c : Address,
      r.contains c = true ↔ c.family = a.family ∧
        Bytes.toNatBE a.bytes ≤ Bytes.toNatBE c.bytes ∧
        Bytes.toNatBE c.bytes ≤ Bytes.toNatBE b.bytes := by
  refine ⟨⟨compare_eq_bytes a b, ?_, compare_eq_lt_iff, compare_eq_eq_iff, Nat.compare_eq_gt,
    not_lt.symm, fun ha hb => lt_iff.2 (Or.inl ⟨ha, hb⟩)⟩,
    ⟨succ?_eq_some_iff_least, succ?_eq_none_iff, pred?_eq_some_iff, pred?_eq_none_iff⟩,
    fun bs => ⟨ofBytes?_eq_some_iff, ofBytes?_eq_none_iff⟩, ?_, ?_⟩
  · simp only [toNatBE_bytes]
    exact compare_eq_value a b
  · constructor
    · rintro ⟨r, hr⟩
      have hvalid := r.valid
      rw [Range.ofBounds_eq_ok_iff.1 hr] at hvalid
      exact hvalid
    · intro h
      exact ⟨⟨⟨a, b⟩, h⟩, Range.ofBounds_eq_ok_iff.2 rfl⟩
  · intro r hr
    have hspan := Range.ofBounds_eq_ok_iff.1 hr
    refine ⟨hspan, fun c => ?_⟩
    simp only [toNatBE_bytes]
    rw [Range.contains_iff_value, hspan]

/-- A step that carries through two bytes, and an address of the other family far above although its
first bytes are lower: the two neighbours bound a range, and it is not in there. -/
theorem order_and_steps_carry :
    ∃ (a b c : Address) (r : Range), a.bytes = [10, 0, 255, 255] ∧ b.bytes = [10, 1, 0, 0] ∧
      c.bytes = List.replicate 15 0 ++ [7] ∧ a.succ? = some b ∧ b.pred? = some a ∧ b < c ∧
      Range.ofBounds a b = .ok r ∧ r.contains b = true ∧ r.contains c = false := by
  let a : Address := ⟨.v4, 0x0A00FFFF, by decide⟩
  let b : Address := ⟨.v4, 0x0A010000, by decide⟩
  let c : Address := ⟨.v6, 7, by decide⟩
  have hsucc : a.succ? = some b := succ?_eq_some_iff.2 ⟨rfl, rfl⟩
  obtain ⟨-, ⟨-, -, hpred, -⟩, -, ⟨-, haccept⟩, hrange⟩ := order_and_steps a b
  obtain ⟨⟨-, -, -, -, -, -, habove⟩, -⟩ := order_and_steps b c
  obtain ⟨r, hr⟩ := haccept ⟨rfl, by decide⟩
  have hin := (hrange r hr).2
  refine ⟨a, b, c, r, by decide, by decide, by decide, hsucc, hpred.2 hsucc, habove rfl rfl, hr,
    (hin b).2 ⟨rfl, by decide, by decide⟩, ?_⟩
  rw [Bool.eq_false_iff]
  intro h
  exact absurd ((hin c).1 h).1 (by decide)

end Address

end IpAtlas
