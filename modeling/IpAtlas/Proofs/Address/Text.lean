import IpAtlas.Address.Text
import IpAtlas.Proofs.Order
import IpAtlas.Proofs.Text
import Mathlib.Data.Bool.AllAny
import Mathlib.Data.List.Infix

/-!
# Address texts are read back

A reader takes what it can from the front and gives back the rest, so each part of a text is read
back in front of anything that cannot be taken for more of it: a number in front of something that
is no digit, groups in front of the end or of two colons.

The longest run of zero groups need not be known to be the longest.  All that counts is that it
consists of zero groups and that two colons stand for as many as are missing from eight.  An address
without a dotted part has no dot in its text, and this is why it is never taken for an IPv4 address.

## What is here

* `AddressText.Numeral`, `AddressText.digits_numeral` — numbers in front of something else.
* `AddressText.dotted?_dotted`, `AddressText.colons?_compressed`, `AddressText.colons?_mapped` —
  the three shapes of a text.
* `AddressText.read?_write` — an address is read back.
* `AddressText.mark_mem_of_read?` — whatever is read as an address has a colon or a dot.
* `Address.ofText?_toText`, `Address.toText_inj` — there may be blanks around the text of an address,
  and no other has it.
-/

set_option autoImplicit false

namespace IpAtlas

namespace AddressText

/-! ## Digits in front -/

section Digits

variable {digit? : Char → Option Nat} {base : Nat}

/-- Nothing follows, or something that is no digit. -/
def Stops (digit? : Char → Option Nat) (rest : List Char) : Prop :=
  ∀ c ∈ rest.head?, digit? c = none

theorem stops_nil : Stops digit? [] := by simp [Stops]

theorem stops_cons {c : Char} {rest : List Char} (h : digit? c = none) :
    Stops digit? (c :: rest) := by simpa [Stops] using h

theorem digits_of_stops {rest : List Char} (h : Stops digit? rest) :
    digits digit? rest = ([], rest) := by
  cases rest with
  | nil => rfl
  | cons c rest => simp [digits, h c rfl]

theorem digits_append {cs : List Char} {ds : List Nat} (h : cs.map digit? = ds.map some)
    (rest : List Char) :
    digits digit? (cs ++ rest) = (ds ++ (digits digit? rest).1, (digits digit? rest).2) := by
  induction cs generalizing ds with
  | nil =>
    obtain rfl : ds = [] := by simpa using h.symm
    rfl
  | cons c cs ih =>
    cases ds with
    | nil => simp at h
    | cons d ds =>
      simp only [List.map_cons, List.cons.injEq] at h
      simp [digits, h.1, ih h.2]

/-- The digits of a number, of which only that of zero begins with zero. -/
structure Numeral (digit? : Char → Option Nat) (base n : Nat) (ds : List Nat) : Prop where
  values : (Nat.toDigits base n).map digit? = ds.map some
  worth : ofDigits base ds = n
  leading : ds.head? = some 0 → n = 0

theorem Numeral.length_eq {n : Nat} {ds : List Nat} (h : Numeral digit? base n ds) :
    ds.length = (Nat.toDigits base n).length := by
  simpa using (congrArg List.length h.values).symm

/-- Every number has digits, as long as the characters for digits are read as such. -/
theorem exists_numeral (hbase : 1 < base)
    (hdigit : ∀ d < base, digit? (Nat.digitChar d) = some d) (n : Nat) :
    ∃ ds, Numeral digit? base n ds := by
  induction n using Nat.strongRecOn with
  | ind n ih =>
    rcases Nat.lt_or_ge n base with hlt | hge
    · exact ⟨[n], by simp [Nat.toDigits_of_lt_base hlt, hdigit n hlt], by simp [ofDigits],
        by simp⟩
    · -- all digits but the last are those of the quotient
      have hpos : 0 < n / base := Nat.div_pos hge (by omega)
      obtain ⟨ds, hvalues, hworth, hleading⟩ := ih (n / base) (Nat.div_lt_self (by omega) hbase)
      have hmod : n % base < base := Nat.mod_lt n (by omega)
      refine ⟨ds ++ [n % base], ?_, ?_, ?_⟩
      · simp [Nat.toDigits_of_base_le hbase hge, hvalues, hdigit _ hmod]
      · rw [ofDigits, List.foldl_append, ← ofDigits, hworth]
        exact Nat.div_add_mod n base
      · intro hzero
        cases ds with
        | nil => exact absurd hvalues (by simp [Nat.toDigits_ne_nil])
        | cons d ds => exact absurd (hleading hzero) (by omega)

/-- The text of a number is read as its digits in front of something that is no digit. -/
theorem digits_numeral {n : Nat} {ds : List Nat} (h : Numeral digit? base n ds)
    {rest : List Char} (hrest : Stops digit? rest) :
    digits digit? (Nat.toDigits base n ++ rest) = (ds, rest) := by
  rw [digits_append h.values, digits_of_stops hrest, List.append_nil]

end Digits

theorem decimalDigit?_digitChar : ∀ d < 10, decimalDigit? (Nat.digitChar d) = some d := by decide

theorem hexDigit?_digitChar : ∀ d < 16, hexDigit? (Nat.digitChar d) = some d := by decide

theorem byte?_toDigits {n : Nat} (hn : n < 256) {rest : List Char}
    (hrest : Stops decimalDigit? rest) : byte? (Nat.toDigits 10 n ++ rest) = some (n, rest) := by
  obtain ⟨ds, h⟩ := exists_numeral (by decide) decimalDigit?_digitChar n
  have hpos : 0 < (Nat.toDigits 10 n).length := Nat.length_toDigits_pos
  have hlen : (Nat.toDigits 10 n).length ≤ 3 :=
    (Nat.length_toDigits_le_iff (by decide) (by decide)).2 (by omega)
  have hzero : ¬ (ds.head? = some 0 ∧ 1 < ds.length) := by
    rintro ⟨hhead, hlong⟩
    rw [h.length_eq, h.leading hhead] at hlong
    exact absurd hlong (by decide)
  rw [byte?, digits_numeral h hrest]
  simp only [h.worth, if_neg hzero]
  rw [if_neg (by rw [h.length_eq]; omega), if_neg (by omega)]

theorem group?_toDigits {g : Nat} (hg : g < 65536) {rest : List Char}
    (hrest : Stops hexDigit? rest) : group? (Nat.toDigits 16 g ++ rest) = some (g, rest) := by
  obtain ⟨ds, h⟩ := exists_numeral (by decide) hexDigit?_digitChar g
  have hpos : 0 < (Nat.toDigits 16 g).length := Nat.length_toDigits_pos
  have hlen : (Nat.toDigits 16 g).length ≤ 4 :=
    (Nat.length_toDigits_le_iff (by decide) (by decide)).2 (by omega)
  rw [group?, digits_numeral h hrest]
  simp only [h.worth]
  rw [if_neg (by rw [h.length_eq]; omega)]

/-! ## Four bytes with dots -/

theorem stops_dot (rest : List Char) : Stops decimalDigit? ('.' :: rest) :=
  stops_cons (by decide)

/-- **Four bytes with dots between them are read back**, in front of something that is no digit. -/
theorem dotted?_dotted {n : Nat} (hn : n < Family.v4.size) {rest : List Char}
    (hrest : Stops decimalDigit? rest) : dotted? (dotted n ++ rest) = some (n, rest) := by
  have hbyte : ∀ i, n / Bytes.capacity i % 256 < 256 := fun i => Nat.mod_lt _ (by decide)
  have hvalue : ((n / Bytes.capacity 3 % 256 * 256 + n / Bytes.capacity 2 % 256) * 256 +
      n / Bytes.capacity 1 % 256) * 256 + n / Bytes.capacity 0 % 256 = n := by
    simp only [Family.size, Family.byteCount, Bytes.capacity] at hn ⊢
    omega
  simp only [dotted, List.append_assoc, List.cons_append]
  simp [dotted?, byte?_toDigits (hbyte _) (stops_dot _), byte?_toDigits (hbyte _) hrest, after?,
    hvalue]

/-! ## What is left is the end -/

theorem digits_suffix {digit? : Char → Option Nat} {cs rest : List Char} {ds : List Nat}
    (h : digits digit? cs = (ds, rest)) : rest <:+ cs := by
  induction cs generalizing ds with
  | nil => exact (Prod.mk.inj h).2 ▸ List.suffix_rfl
  | cons c cs ih =>
    rw [digits] at h
    split at h
    · exact (ih (Prod.ext rfl (Prod.mk.inj h).2)).trans (List.suffix_cons c cs)
    · exact (Prod.mk.inj h).2 ▸ List.suffix_rfl

theorem byte?_suffix {cs rest : List Char} {n : Nat} (h : byte? cs = some (n, rest)) :
    rest <:+ cs := by
  rw [byte?] at h
  split at h
  rename_i ds left hdigits
  split_ifs at h
  obtain ⟨-, rfl⟩ := Prod.mk.inj (Option.some_inj.1 h)
  exact digits_suffix hdigits

theorem group?_suffix {cs rest : List Char} {n : Nat} (h : group? cs = some (n, rest)) :
    rest <:+ cs := by
  rw [group?] at h
  split at h
  rename_i ds left hdigits
  split_ifs at h
  obtain ⟨-, rfl⟩ := Prod.mk.inj (Option.some_inj.1 h)
  exact digits_suffix hdigits

theorem eq_cons_of_after? {c : Char} {cs rest : List Char} (h : after? c cs = some rest) :
    cs = c :: rest := by
  cases cs with
  | nil => simp [after?] at h
  | cons d cs =>
    rw [after?] at h
    split_ifs at h with hd
    rw [hd, Option.some_inj.1 h]

/-- Four bytes with dots between them have a dot. -/
theorem dot_mem_of_dotted? {cs : List Char} {p : Nat × List Char} (h : dotted? cs = some p) :
    '.' ∈ cs := by
  rw [dotted?] at h
  obtain ⟨⟨n, rest⟩, hbyte, h⟩ := Option.bind_eq_some_iff.1 h
  obtain ⟨left, hafter, -⟩ := Option.bind_eq_some_iff.1 h
  obtain rfl := eq_cons_of_after? hafter
  exact (byte?_suffix hbyte).subset (List.mem_cons_self)

theorem dotted?_eq_none {cs : List Char} (h : '.' ∉ cs) : dotted? cs = none := by
  cases hd : dotted? cs with
  | none => rfl
  | some p => exact absurd (dot_mem_of_dotted? hd) h

/-! ## Groups with colons -/

/-- Groups with a colon in front of each. -/
def tail (gs : List Nat) : List Char := gs.flatMap fun g => ':' :: Nat.toDigits 16 g

theorem colonSeparated_cons (g : Nat) (gs : List Nat) :
    colonSeparated (g :: gs) = Nat.toDigits 16 g ++ tail gs := by
  induction gs generalizing g with
  | nil => simp [colonSeparated, tail]
  | cons h gs ih => simp [colonSeparated, ih, tail]

/-- Nothing follows, or the two colons that stand for zero groups. -/
def Closes (rest : List Char) : Prop := rest = [] ∨ ∃ more, rest = ':' :: ':' :: more

theorem Closes.stops {rest : List Char} (h : Closes rest) : Stops hexDigit? rest := by
  rcases h with rfl | ⟨more, rfl⟩
  · exact stops_nil
  · exact stops_cons (by decide)

theorem stops_tail {gs : List Nat} {rest : List Char} (h : Closes rest) :
    Stops hexDigit? (tail gs ++ rest) := by
  cases gs with
  | nil => exact h.stops
  | cons g gs => exact stops_cons (by decide)

theorem group?_colon (rest : List Char) : group? (':' :: rest) = none := rfl

theorem dotted?_colon (rest : List Char) : dotted? (':' :: rest) = none := rfl

/-- No further group is taken where nothing follows, or two colons. -/
theorem groups_closes (limit : Nat) (first : Bool) {rest : List Char} (h : Closes rest) :
    groups limit first rest = ([], false, rest) := by
  cases limit with
  | zero => rfl
  | succ more =>
    rcases h with rfl | ⟨rest, rfl⟩
    · cases first <;> simp [groups, after?, dotted?, byte?, group?, digits]
    · cases first <;> simp [groups, after?, dotted?_colon, group?_colon]

theorem groups_tail {gs : List Nat} (hgs : ∀ g ∈ gs, g < 65536) {limit : Nat}
    (hlimit : gs.length ≤ limit) {rest : List Char} (hrest : Closes rest)
    (hdot : '.' ∉ tail gs ++ rest) :
    groups limit false (tail gs ++ rest) = (gs, false, rest) := by
  induction gs generalizing limit with
  | nil => exact groups_closes limit false hrest
  | cons g gs ih =>
    obtain ⟨more, rfl⟩ : ∃ more, limit = more + 1 := ⟨limit - 1, by simp at hlimit; omega⟩
    have hbody : tail (g :: gs) ++ rest = ':' :: (Nat.toDigits 16 g ++ (tail gs ++ rest)) := by
      simp [tail]
    rw [hbody] at hdot ⊢
    have hnext : '.' ∉ tail gs ++ rest := fun h =>
      hdot (List.mem_cons_of_mem _ (List.mem_append_right _ h))
    have hnone := dotted?_eq_none fun h => hdot (List.mem_cons_of_mem ':' h)
    have hgroup := group?_toDigits (hgs g List.mem_cons_self) (@stops_tail gs rest hrest)
    have hrec := ih (fun g' hg' => hgs g' (List.mem_cons_of_mem _ hg'))
      (Nat.le_of_succ_le_succ hlimit) hnext
    simp [groups, after?, hnone, hgroup, hrec]

/-- **Groups are read back** in front of the end or of two colons, as long as there are not more
than the limit. -/
theorem groups_colonSeparated {gs : List Nat} (hgs : ∀ g ∈ gs, g < 65536) {limit : Nat}
    (hlimit : gs.length ≤ limit) {rest : List Char} (hrest : Closes rest)
    (hdot : '.' ∉ colonSeparated gs ++ rest) :
    groups limit true (colonSeparated gs ++ rest) = (gs, false, rest) := by
  cases gs with
  | nil => exact groups_closes limit true hrest
  | cons g gs =>
    obtain ⟨more, rfl⟩ : ∃ more, limit = more + 1 := ⟨limit - 1, by simp at hlimit; omega⟩
    rw [colonSeparated_cons, List.append_assoc] at hdot ⊢
    have hnext : '.' ∉ tail gs ++ rest := fun h => hdot (List.mem_append_right _ h)
    have hgroup := group?_toDigits (hgs g List.mem_cons_self) (@stops_tail gs rest hrest)
    have htail := groups_tail (fun g' hg' => hgs g' (List.mem_cons_of_mem _ hg'))
      (Nat.le_of_succ_le_succ hlimit) hrest hnext
    simp [groups, dotted?_eq_none hdot, hgroup, htail]

/-! ## The run of zero groups -/

theorem exists_zeroRun (gs : List Nat) :
    ∃ back, gs = List.replicate (zeroRun gs) 0 ++ back := by
  fun_induction zeroRun gs with
  | case1 gs ih =>
    obtain ⟨back, hback⟩ := ih
    exact ⟨back, by rw [List.replicate_succ, List.cons_append, ← hback]⟩
  | case2 gs => exact ⟨gs, rfl⟩

/-- What is found is a run of zero groups at the place that is told. -/
theorem exists_longestZeroRun (start : Nat) (gs : List Nat) :
    ∃ front back, gs = front ++ List.replicate (longestZeroRun start gs).2 0 ++ back ∧
      (longestZeroRun start gs).1 = start + front.length := by
  induction gs generalizing start with
  | nil => exact ⟨[], [], rfl, rfl⟩
  | cons g gs ih =>
    rw [longestZeroRun]
    split
    · obtain ⟨back, hback⟩ := exists_zeroRun (g :: gs)
      exact ⟨[], back, hback, rfl⟩
    · obtain ⟨front, back, hgs, hstart⟩ := ih (start + 1)
      refine ⟨g :: front, back, ?_, ?_⟩
      · rw [List.cons_append, List.cons_append, ← hgs]
      · rw [hstart, List.length_cons]
        omega

/-- Either all groups are written, or two colons stand for two or more zero groups. -/
theorem compressed_cases (gs : List Nat) :
    compressed gs = colonSeparated gs ∨
      ∃ front count back, 1 < count ∧ gs = front ++ List.replicate count 0 ++ back ∧
        compressed gs = colonSeparated front ++ ':' :: ':' :: colonSeparated back := by
  obtain ⟨front, back, hgs, hstart⟩ := exists_longestZeroRun 0 gs
  rw [Nat.zero_add] at hstart
  rw [compressed]
  split
  rename_i start count hrun
  rw [hrun] at hgs hstart
  simp only at hgs hstart
  split
  · rename_i hlong
    right
    refine ⟨front, count, back, hlong, hgs, ?_⟩
    have htake : gs.take start = front := by
      rw [hstart, hgs, List.append_assoc, List.take_left]
    have hdrop : gs.drop (start + count) = back := by
      rw [hstart, hgs]
      exact List.drop_left' (by simp)
    rw [htake, hdrop]
  · exact Or.inl rfl

/-! ## Eight groups -/

/-- **The groups of an address are read back**, be they all written or not. -/
theorem colons?_compressed {gs : List Nat} (hlen : gs.length = 8) (hgs : ∀ g ∈ gs, g < 65536)
    (hdot : '.' ∉ compressed gs) : colons? (compressed gs) = some (gs, []) := by
  rcases compressed_cases gs with h | ⟨front, count, back, hcount, hsplit, h⟩
  · have hall := groups_colonSeparated hgs (Nat.le_of_eq hlen) (Or.inl rfl)
      (by rwa [List.append_nil, ← h])
    rw [List.append_nil] at hall
    rw [h, colons?, hall]
    simp [hlen]
  · have hsum : front.length + count + back.length = 8 := by
      simp [← hlen, hsplit, Nat.add_assoc]
    rw [h] at hdot
    have hfront := groups_colonSeparated
      (fun g hg => hgs g (by rw [hsplit]; exact List.mem_append_left _ (List.mem_append_left _ hg)))
      (show front.length ≤ 8 by omega) (Or.inr ⟨_, rfl⟩) hdot
    have hback := groups_colonSeparated
      (fun g hg => hgs g (by rw [hsplit]; exact List.mem_append_right _ hg))
      (show back.length ≤ 7 - front.length by omega) (Or.inl rfl) (by
        rw [List.append_nil]
        exact fun hmem => hdot (by simp [hmem]))
    rw [List.append_nil] at hback
    have hmissing : 8 - front.length - back.length = count := by omega
    rw [h, colons?, hfront]
    simp only [hback, hmissing]
    rw [if_neg (by omega), hsplit]
    simp

theorem mapped_eq (n : Nat) : "::ffff:".toList ++ dotted n =
    ':' :: ':' :: 'f' :: 'f' :: 'f' :: 'f' :: ':' :: dotted n := rfl

/-- **An IPv4 address behind `::ffff:` is read as the last two groups.** -/
theorem colons?_mapped {n : Nat} (hn : n < Family.v4.size) :
    colons? ("::ffff:".toList ++ dotted n) =
      some ([0, 0, 0, 0, 0, 0xFFFF, n / 65536, n % 65536], []) := by
  have hdotted := dotted?_dotted hn stops_nil
  have hgroup : group? ('f' :: 'f' :: 'f' :: 'f' :: ':' :: dotted n) =
      some (0xFFFF, ':' :: dotted n) :=
    group?_toDigits (g := 0xFFFF) (by decide) (stops_cons (by decide))
  have hletters : dotted? ('f' :: 'f' :: 'f' :: 'f' :: ':' :: dotted n) = none := rfl
  rw [List.append_nil] at hdotted
  have hback : groups 7 true ('f' :: 'f' :: 'f' :: 'f' :: ':' :: dotted n) =
      ([0xFFFF, n / 65536, n % 65536], true, []) := by
    simp [groups, hletters, hgroup, after?, hdotted]
  have hfront := groups_closes 8 true (Or.inr ⟨'f' :: 'f' :: 'f' :: 'f' :: ':' :: dotted n, rfl⟩)
  rw [mapped_eq, colons?, hfront]
  simp [hback]

/-! ## The number of eight groups -/

theorem foldl_groups (n count : Nat) :
    ((List.range count).reverse.map fun i => n / Bytes.capacity (2 * i) % 65536).foldl
      (fun m g => 65536 * m + g) (n / Bytes.capacity (2 * count)) = n := by
  induction count with
  | zero => simp [Bytes.capacity]
  | succ count ih =>
    have hcapacity : Bytes.capacity (2 * (count + 1)) = Bytes.capacity (2 * count) * 65536 := by
      rw [Nat.mul_succ, Bytes.capacity, Bytes.capacity]
      omega
    have hstep : 65536 * (n / Bytes.capacity (2 * (count + 1))) +
        n / Bytes.capacity (2 * count) % 65536 = n / Bytes.capacity (2 * count) := by
      rw [hcapacity, ← Nat.div_div_eq_div_mul]
      exact Nat.div_add_mod _ _
    rw [List.range_succ, List.reverse_append, List.reverse_singleton, List.singleton_append,
      List.map_cons, List.foldl_cons, hstep, ih]

/-- The groups of a number spell it. -/
theorem ofGroups_groupsOf {n : Nat} (hn : n < Family.v6.size) : ofGroups (groupsOf n) = n := by
  have hzero : n / Bytes.capacity (2 * 8) = 0 := Nat.div_eq_of_lt hn
  have h := foldl_groups n 8
  rw [hzero] at h
  exact h

theorem lt_of_mem_groupsOf {n g : Nat} (h : g ∈ groupsOf n) : g < 65536 := by
  obtain ⟨i, -, rfl⟩ := List.mem_map.1 h
  exact Nat.mod_lt _ (by decide)

/-! ## The characters of an address -/

/-- The characters that addresses are written with. -/
def alphabet : List Char := "0123456789abcdef:.".toList

theorem digitChar_mem_alphabet : ∀ d < 16, Nat.digitChar d ∈ alphabet.filter (· ≠ '.') := by decide

theorem mem_toDigits {base : Nat} (hbase : 1 < base) (hle : base ≤ 16) (n : Nat) {c : Char}
    (hc : c ∈ Nat.toDigits base n) : c ∈ alphabet.filter (· ≠ '.') := by
  induction n using Nat.strongRecOn with
  | ind n ih =>
    rcases Nat.lt_or_ge n base with hlt | hge
    · rw [Nat.toDigits_of_lt_base hlt, List.mem_singleton] at hc
      exact hc ▸ digitChar_mem_alphabet n (by omega)
    · rw [Nat.toDigits_of_base_le hbase hge, List.mem_append, List.mem_singleton] at hc
      rcases hc with hc | rfl
      · exact ih _ (Nat.div_lt_self (by omega) hbase) hc
      · have := Nat.mod_lt n (show 0 < base by omega)
        exact digitChar_mem_alphabet _ (by omega)

theorem mem_colonSeparated {gs : List Nat} {c : Char} (hc : c ∈ colonSeparated gs) :
    c ∈ alphabet.filter (· ≠ '.') := by
  cases gs with
  | nil => simp [colonSeparated] at hc
  | cons g gs =>
    rw [colonSeparated_cons, List.mem_append, tail, List.mem_flatMap] at hc
    rcases hc with hc | ⟨h, -, hc⟩
    · exact mem_toDigits (by decide) (by decide) _ hc
    · rcases List.mem_cons.1 hc with rfl | hc
      · decide
      · exact mem_toDigits (by decide) (by decide) _ hc

/-- Groups are written without a dot. -/
theorem mem_compressed {gs : List Nat} {c : Char} (hc : c ∈ compressed gs) :
    c ∈ alphabet.filter (· ≠ '.') := by
  rcases compressed_cases gs with h | ⟨front, count, back, -, -, h⟩
  · exact mem_colonSeparated (h ▸ hc)
  · rw [h, List.mem_append, List.mem_cons, List.mem_cons] at hc
    rcases hc with hc | rfl | rfl | hc
    · exact mem_colonSeparated hc
    · decide
    · decide
    · exact mem_colonSeparated hc

theorem mem_dotted {n : Nat} {c : Char} (hc : c ∈ dotted n) : c ∈ alphabet := by
  have hbyte : ∀ i, c ∈ Nat.toDigits 10 (n / Bytes.capacity i % 256) → c ∈ alphabet := fun i h =>
    List.mem_of_mem_filter (mem_toDigits (by decide) (by decide) _ h)
  simp only [dotted, List.mem_append, List.mem_cons] at hc
  rcases hc with ((hc | rfl | hc) | rfl | hc) | rfl | hc
  · exact hbyte 3 hc
  · decide
  · exact hbyte 2 hc
  · decide
  · exact hbyte 1 hc
  · decide
  · exact hbyte 0 hc

/-- **Addresses are written with the sixteen digits, colons and dots.** -/
theorem mem_write {a : Address} {c : Char} (hc : c ∈ write a) : c ∈ alphabet := by
  rw [write] at hc
  split at hc
  · exact mem_dotted hc
  · split at hc
    · have hfront : ∀ d ∈ "::ffff:".toList, d ∈ alphabet := by
        rw [← List.all_iff_forall_prop]
        decide
      exact (List.mem_append.1 hc).elim (hfront c) mem_dotted
    · exact List.mem_of_mem_filter (mem_compressed hc)

/-! ## Reading back -/

theorem read?_of_dotted? {cs : List Char} {n : Nat} (h : dotted? cs = some (n, [])) :
    read? cs = Address.ofNat? .v4 n := by
  rw [read?, h]
  rfl

theorem read?_of_colons? {cs : List Char} {gs : List Nat} (hdotted : dotted? cs = none)
    (h : colons? cs = some (gs, [])) : read? cs = Address.ofNat? .v6 (ofGroups gs) := by
  rw [read?, hdotted, h]

/-- **An address is read back from its text.** -/
theorem read?_write (a : Address) : read? (write a) = some a := by
  have hlt := a.value_lt
  rw [write]
  cases hf : a.family with
  | v4 =>
    rw [hf] at hlt
    have h := dotted?_dotted hlt stops_nil
    rw [List.append_nil] at h
    exact (read?_of_dotted? h).trans (Address.ofNat?_eq_some_iff.2 ⟨hf, rfl⟩)
  | v6 =>
    rw [hf] at hlt
    by_cases hmapped : a.value / Family.v4.size = 0xFFFF
    · simp only [if_pos hmapped]
      have hlow : a.value % Family.v4.size < Family.v4.size := Nat.mod_lt _ (by decide)
      have hnone : dotted? ("::ffff:".toList ++ dotted (a.value % Family.v4.size)) = none := by
        rw [mapped_eq, dotted?_colon]
      rw [read?_of_colons? hnone (colons?_mapped hlow)]
      refine Address.ofNat?_eq_some_iff.2 ⟨hf, ?_⟩
      simp only [Family.size, Family.byteCount, Bytes.capacity] at hmapped ⊢
      simp only [ofGroups, List.foldl_cons, List.foldl_nil]
      omega
    · simp only [if_neg hmapped]
      have hdot : '.' ∉ compressed (groupsOf a.value) := fun h =>
        absurd (mem_compressed h) (by decide)
      rw [read?_of_colons? (dotted?_eq_none hdot)
        (colons?_compressed rfl (fun g => lt_of_mem_groupsOf) hdot)]
      exact Address.ofNat?_eq_some_iff.2 ⟨hf, (ofGroups_groupsOf hlt).symm⟩

/-! ## The marks of an address -/

theorem body_suffix {first : Bool} {cs body : List Char}
    (h : (if first then some cs else after? ':' cs) = some body) : body <:+ cs := by
  split_ifs at h
  · exact Option.some_inj.1 h ▸ List.suffix_rfl
  · rw [eq_cons_of_after? h]
    exact List.suffix_cons _ _

/-- As long as no IPv4 address was taken, what is left is the end. -/
theorem groups_suffix (limit : Nat) (first : Bool) (cs : List Char)
    (h : (groups limit first cs).2.1 = false) : (groups limit first cs).2.2 <:+ cs := by
  fun_induction groups limit first cs with
  | case1 => exact List.suffix_rfl
  | case2 => simp at h
  | case3 first cs more body? _ g rest hgroup gs embedded left hleft ih =>
    obtain ⟨body, hbody, hg⟩ := Option.bind_eq_some_iff.1 hgroup
    rw [hleft] at ih
    exact (ih h).trans ((group?_suffix hg).trans (body_suffix hbody))
  | case4 => exact List.suffix_rfl

/-- A group that is not the first has a colon in front. -/
theorem colon_mem_of_groups {limit : Nat} {cs : List Char} (h : (groups limit false cs).1 ≠ []) :
    ':' ∈ cs := by
  have hafter : after? ':' cs ≠ none := by
    intro hnone
    cases limit <;> simp [groups, hnone] at h
  obtain ⟨rest, hrest⟩ := Option.ne_none_iff_exists'.1 hafter
  rw [eq_cons_of_after? hrest]
  exact List.mem_cons_self

/-- Eight groups have a colon or a dot. -/
theorem mark_mem_of_groups {cs : List Char} (h : (groups 8 true cs).1.length = 8) :
    '.' ∈ cs ∨ ':' ∈ cs := by
  rw [groups] at h
  simp only [if_true, Option.bind_some] at h
  split at h
  · simp at h
  · split at h
    · rename_i g rest hgroup
      have hne : (groups 7 false rest).1 ≠ [] := by
        intro hnil
        simp [hnil] at h
      exact Or.inr ((group?_suffix hgroup).subset (colon_mem_of_groups hne))
    · simp at h

/-- What is read as an address has a colon or a dot. -/
theorem mark_mem_of_read? {cs : List Char} {a : Address} (h : read? cs = some a) :
    '.' ∈ cs ∨ ':' ∈ cs := by
  rw [read?] at h
  split at h
  · rename_i hdotted
    exact Or.inl (dot_mem_of_dotted? hdotted)
  · split at h
    · rename_i gs hcolons
      rw [colons?] at hcolons
      have hsuffix := groups_suffix 8 true cs
      have hmark := @mark_mem_of_groups cs
      generalize groups 8 true cs = taken at hcolons hsuffix hmark
      obtain ⟨front, embedded, left⟩ := taken
      simp only at hcolons hsuffix hmark
      split_ifs at hcolons with hlen hembedded
      · exact hmark hlen
      · split at hcolons
        · exact Or.inr ((hsuffix (by simpa using hembedded)).subset List.mem_cons_self)
        · simp at hcolons
    · simp at h

end AddressText

namespace Address

/-- **An address is read back from its text with blanks around it.** -/
theorem ofText?_toText (a : Address) {front back : String}
    (hfront : ∀ c ∈ front.toList, Text.isBlank c = true)
    (hback : ∀ c ∈ back.toList, Text.isBlank c = true) :
    ofText? (front ++ a.toText ++ back) = some a := by
  have hinside : ∀ c ∈ AddressText.write a, Text.isBlank c = false := by
    have hblank : ∀ c ∈ AddressText.alphabet, Text.isBlank c = false := by
      rw [← List.all_iff_forall_prop]
      decide
    exact fun c hc => hblank c (AddressText.mem_write hc)
  have htrim : Text.trimChars (front ++ a.toText ++ back).toList = AddressText.write a := by
    refine Text.trimChars_eq_of_trimmed ⟨front.toList, back.toList, ?_, hfront, hback, ?_, ?_⟩
    · simp [toText]
    · exact fun c hc => hinside c (List.mem_of_mem_head? hc)
    · exact fun c hc => hinside c (List.mem_of_mem_getLast? hc)
  rw [ofText?, htrim, AddressText.read?_write]

theorem ofText?_toText_alone (a : Address) : ofText? a.toText = some a := by
  have h := @ofText?_toText a "" "" (by simp) (by simp)
  simpa using h

/-- **No two addresses have one text.** -/
theorem toText_inj {a b : Address} : a.toText = b.toText ↔ a = b := by
  refine ⟨fun h => ?_, fun h => by rw [h]⟩
  have ha := a.ofText?_toText_alone
  rw [h, b.ofText?_toText_alone] at ha
  exact (Option.some_inj.1 ha).symm

end Address

end IpAtlas
