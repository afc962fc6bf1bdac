import IpAtlas.Bytes
import IpAtlas.Text.Utf8
import Mathlib.Data.List.Basic

/-!
# Reading bytes that need not be text

Reading with replacement is given by a walk over the bytes; here is what it comes to.  Where the
bytes go on with the bytes of a character, the character is read.  Where they do not, the longest
run of bytes that some character begins with is replaced, or a single byte if no character begins
with it.  No bytes can be read in two such ways, so this says all of the walk, and bytes that are
text are read as that text.

A character of more than one byte has a lead byte that tells how many others follow and between
which bounds the second one lies.

## What is here

* `Lead`, `lead?`, `head_eq` — lead bytes, and the front of some bytes by them.
* `Fits`, `worth`, `continuation_spec` — the bytes that follow a lead byte.
* `Lead.utf8EncodeChar_eq`, `utf8EncodeChar_cases` — the bytes of characters are those.
* `Begins`, `Group`, `Lossy` — reading with replacement, described.
* `lossy_iff` — the walk reads the bytes as described, and `decodeLossy_encode` text as text.
-/

set_option autoImplicit false

namespace IpAtlas.Utf8

/-! ## Lead bytes and what follows them -/

/-- What a lead byte tells: how many bytes follow, the bounds of the first of them, and how much it
is worth itself. -/
structure Lead where
  need : Nat
  low : UInt8
  high : UInt8
  value : Nat

/-- The lead byte of a character of more than one byte. -/
def lead? (b : UInt8) : Option Lead :=
  if 0xC2 ≤ b ∧ b ≤ 0xDF then some ⟨1, 0x80, 0xBF, b.toNat % 32⟩
  else if 0xE0 ≤ b ∧ b ≤ 0xEF then
    some ⟨2, if b = 0xE0 then 0xA0 else 0x80, if b = 0xED then 0x9F else 0xBF, b.toNat % 16⟩
  else if 0xF0 ≤ b ∧ b ≤ 0xF4 then
    some ⟨3, if b = 0xF0 then 0x90 else 0x80, if b = 0xF4 then 0x8F else 0xBF, b.toNat % 8⟩
  else none

/-- The front of some bytes, by the lead byte. -/
theorem head_eq (b : UInt8) (tail : Bytes) :
    head b tail = if b < 0x80 then .char (Char.ofNat b.toNat) tail
      else match lead? b with
        | some lead => continuation lead.need lead.low lead.high lead.value 1 tail
        | none => .invalid 1 tail := by
  rw [head, lead?]
  split_ifs <;> rfl

/-- Bytes that may follow one another in a character, the first of them between `low` and `high`. -/
def Fits : UInt8 → UInt8 → Bytes → Prop
  | _, _, [] => True
  | low, high, b :: bs => (low ≤ b ∧ b ≤ high) ∧ Fits 0x80 0xBF bs

/-- What a character is worth that is worth `value` before some bytes. -/
def worth (value : Nat) : Bytes → Nat
  | [] => value
  | b :: bs => worth (64 * value + b.toNat % 64) bs

theorem Fits.of_append {low high : UInt8} {front back : Bytes} (h : Fits low high (front ++ back)) :
    Fits low high front := by
  induction front generalizing low high with
  | nil => trivial
  | cons b front ih => exact ⟨h.1, ih h.2⟩

/-- Fitting bytes can be followed by any number of others. -/
theorem Fits.exists_append {low high : UInt8} (hle : low ≤ high) {bs : Bytes}
    (h : Fits low high bs) (count : Nat) :
    ∃ more : Bytes, more.length = count ∧ Fits low high (bs ++ more) := by
  induction bs generalizing low high with
  | nil =>
    cases count with
    | zero => exact ⟨[], rfl, trivial⟩
    | succ count =>
      have hfill : ∀ n, Fits 0x80 0xBF (List.replicate n 0x80) := by
        intro n
        induction n with
        | zero => trivial
        | succ n ih => exact ⟨by decide, ih⟩
      refine ⟨low :: List.replicate count 0x80, ?_, ⟨UInt8.le_refl _, hle⟩, hfill count⟩
      rw [List.length_cons, List.length_replicate]
  | cons b bs ih =>
    obtain ⟨more, hlen, hmore⟩ := ih (by decide) h.2
    exact ⟨more, hlen, h.1, hmore⟩

/-- **What follows a lead byte**: as many bytes as it needs, or fewer that end at the first that does
not fit or with the bytes. -/
theorem continuation_spec (need : Nat) (low high : UInt8) (value taken : Nat) (bs : Bytes) :
    match continuation need low high value taken bs with
    | .char c rest => ∃ more : Bytes, more.length = need ∧ Fits low high more ∧ bs = more ++ rest ∧
        c = Char.ofNat (worth value more)
    | .invalid n rest => ∃ (more : Bytes) (b : UInt8) (rest' : Bytes), more.length < need ∧
        Fits low high more ∧ bs = more ++ rest ∧ n = taken + more.length ∧
        rest = b :: rest' ∧ ¬ Fits low high (more ++ [b])
    | .incomplete => bs.length < need ∧ Fits low high bs := by
  induction need generalizing low high value taken bs with
  | zero =>
    rw [continuation]
    exact ⟨[], rfl, trivial, rfl, rfl⟩
  | succ need ih =>
    cases bs with
    | nil =>
      rw [continuation]
      exact ⟨Nat.succ_pos _, trivial⟩
    | cons b bs =>
      rw [continuation]
      by_cases hb : low ≤ b ∧ b ≤ high
      · rw [if_pos hb]
        have h := ih 0x80 0xBF (64 * value + b.toNat % 64) (taken + 1) bs
        revert h
        cases continuation need 0x80 0xBF (64 * value + b.toNat % 64) (taken + 1) bs with
        | char c rest =>
          rintro ⟨more, hlen, hfits, rfl, rfl⟩
          exact ⟨b :: more, congrArg (· + 1) hlen, ⟨hb, hfits⟩, rfl, rfl⟩
        | invalid n rest =>
          rintro ⟨more, b', rest', hlen, hfits, rfl, rfl, rfl, hnot⟩
          refine ⟨b :: more, b', rest', Nat.succ_lt_succ hlen, ⟨hb, hfits⟩, rfl, ?_, rfl,
            fun h => hnot h.2⟩
          rw [List.length_cons]
          omega
        | incomplete =>
          rintro ⟨hlen, hfits⟩
          exact ⟨Nat.succ_lt_succ hlen, hb, hfits⟩
      · rw [if_neg hb]
        exact ⟨[], b, bs, Nat.succ_pos _, trivial, rfl, rfl, rfl, fun h => hb h.1⟩

/-! ## The bytes of characters -/

/-- The bytes of the character of a given number. -/
theorem utf8EncodeChar_ofNat {n : Nat} (h : n.isValidChar) :
    String.utf8EncodeChar (Char.ofNat n) =
      if n ≤ 127 then [UInt8.ofNat n]
      else if n ≤ 2047 then [UInt8.ofNat (n / 64 % 32 + 192), UInt8.ofNat (n % 64 + 128)]
      else if n ≤ 65535 then
        [UInt8.ofNat (n / 4096 % 16 + 224), UInt8.ofNat (n / 64 % 64 + 128),
          UInt8.ofNat (n % 64 + 128)]
      else
        [UInt8.ofNat (n / 262144 % 8 + 240), UInt8.ofNat (n / 4096 % 64 + 128),
          UInt8.ofNat (n / 64 % 64 + 128), UInt8.ofNat (n % 64 + 128)] := by
  have hval : (Char.ofNat n).val.toNat = n := by
    rw [Char.ofNat, dif_pos h]
    rfl
  rw [String.utf8EncodeChar]
  simp only [hval]

theorem ofNat_eq_iff {n : Nat} (h : n < 256) {b : UInt8} : UInt8.ofNat n = b ↔ n = b.toNat := by
  rw [← UInt8.toNat_inj, UInt8.toNat_ofNat', Nat.mod_eq_of_lt h]

section

variable {a b c d : UInt8}

theorem utf8EncodeChar_one (ha : a < 0x80) : String.utf8EncodeChar (Char.ofNat a.toNat) = [a] := by
  rw [UInt8.lt_iff_toNat_lt] at ha
  simp only [UInt8.reduceToNat] at ha
  rw [utf8EncodeChar_ofNat (Or.inl (by omega)), if_pos (by omega), UInt8.ofNat_toNat]

theorem utf8EncodeChar_two (ha : 0xC2 ≤ a ∧ a ≤ 0xDF) (hb : 0x80 ≤ b ∧ b ≤ 0xBF) :
    String.utf8EncodeChar (Char.ofNat (64 * (a.toNat % 32) + b.toNat % 64)) = [a, b] := by
  simp only [UInt8.le_iff_toNat_le, UInt8.reduceToNat] at ha hb
  rw [utf8EncodeChar_ofNat (Or.inl (by omega)), if_neg (by omega), if_pos (by omega)]
  simp only [List.cons.injEq, and_true]
  refine ⟨(ofNat_eq_iff ?_).2 ?_, (ofNat_eq_iff ?_).2 ?_⟩ <;> omega

theorem utf8EncodeChar_three (ha : 0xE0 ≤ a ∧ a ≤ 0xEF)
    (hb : (if a = 0xE0 then 0xA0 else 0x80) ≤ b ∧ b ≤ (if a = 0xED then 0x9F else 0xBF))
    (hc : 0x80 ≤ c ∧ c ≤ 0xBF) :
    String.utf8EncodeChar
      (Char.ofNat (64 * (64 * (a.toNat % 16) + b.toNat % 64) + c.toNat % 64)) = [a, b, c] := by
  simp only [UInt8.le_iff_toNat_le, ← UInt8.toNat_inj, apply_ite UInt8.toNat, UInt8.reduceToNat]
    at ha hb hc
  have hwide : 128 ≤ b.toNat ∧ b.toNat ≤ 191 := by split_ifs at hb <;> omega
  have hlong : a.toNat = 224 → 160 ≤ b.toNat := fun h => by simpa [h] using hb.1
  have hplain : a.toNat = 237 → b.toNat ≤ 159 := fun h => by simpa [h] using hb.2
  clear hb
  rw [utf8EncodeChar_ofNat (by unfold Nat.isValidChar; omega), if_neg (by omega),
    if_neg (by omega), if_pos (by omega)]
  simp only [List.cons.injEq, and_true]
  refine ⟨(ofNat_eq_iff ?_).2 ?_, (ofNat_eq_iff ?_).2 ?_, (ofNat_eq_iff ?_).2 ?_⟩ <;> omega

theorem utf8EncodeChar_four (ha : 0xF0 ≤ a ∧ a ≤ 0xF4)
    (hb : (if a = 0xF0 then 0x90 else 0x80) ≤ b ∧ b ≤ (if a = 0xF4 then 0x8F else 0xBF))
    (hc : 0x80 ≤ c ∧ c ≤ 0xBF) (hd : 0x80 ≤ d ∧ d ≤ 0xBF) :
    String.utf8EncodeChar
      (Char.ofNat (64 * (64 * (64 * (a.toNat % 8) + b.toNat % 64) + c.toNat % 64) +
        d.toNat % 64)) = [a, b, c, d] := by
  simp only [UInt8.le_iff_toNat_le, ← UInt8.toNat_inj, apply_ite UInt8.toNat, UInt8.reduceToNat]
    at ha hb hc hd
  have hwide : 128 ≤ b.toNat ∧ b.toNat ≤ 191 := by split_ifs at hb <;> omega
  have hlong : a.toNat = 240 → 144 ≤ b.toNat := fun h => by simpa [h] using hb.1
  have hlast : a.toNat = 244 → b.toNat ≤ 143 := fun h => by simpa [h] using hb.2
  clear hb
  rw [utf8EncodeChar_ofNat (by unfold Nat.isValidChar; omega), if_neg (by omega),
    if_neg (by omega), if_neg (by omega)]
  simp only [List.cons.injEq, and_true]
  refine ⟨(ofNat_eq_iff ?_).2 ?_, (ofNat_eq_iff ?_).2 ?_, (ofNat_eq_iff ?_).2 ?_,
    (ofNat_eq_iff ?_).2 ?_⟩ <;> omega

end

/-- **A lead byte and the bytes it needs** are the bytes of the character they are worth. -/
theorem Lead.utf8EncodeChar_eq {b : UInt8} {lead : Lead} {more : Bytes} (hlead : lead? b = some lead)
    (hlen : more.length = lead.need) (hfits : Fits lead.low lead.high more) :
    String.utf8EncodeChar (Char.ofNat (worth lead.value more)) = b :: more := by
  rw [lead?] at hlead
  by_cases h₂ : 0xC2 ≤ b ∧ b ≤ 0xDF
  · rw [if_pos h₂] at hlead
    obtain rfl := Option.some.inj hlead
    obtain ⟨b₁, rfl⟩ := List.length_eq_one_iff.1 hlen
    exact utf8EncodeChar_two h₂ hfits.1
  rw [if_neg h₂] at hlead
  by_cases h₃ : 0xE0 ≤ b ∧ b ≤ 0xEF
  · rw [if_pos h₃] at hlead
    obtain rfl := Option.some.inj hlead
    obtain ⟨b₁, b₂, rfl⟩ := List.length_eq_two.1 hlen
    exact utf8EncodeChar_three h₃ hfits.1 hfits.2.1
  rw [if_neg h₃] at hlead
  by_cases h₄ : 0xF0 ≤ b ∧ b ≤ 0xF4
  · rw [if_pos h₄] at hlead
    obtain rfl := Option.some.inj hlead
    obtain ⟨b₁, b₂, b₃, rfl⟩ := List.length_eq_three.1 hlen
    exact utf8EncodeChar_four h₄ hfits.1 hfits.2.1 hfits.2.2.1
  · rw [if_neg h₄] at hlead
    exact nomatch hlead

theorem lead?_two {b : UInt8} (h : 0xC2 ≤ b ∧ b ≤ 0xDF) :
    lead? b = some ⟨1, 0x80, 0xBF, b.toNat % 32⟩ := by
  rw [lead?, if_pos h]

theorem lead?_three {b : UInt8} (h : 0xE0 ≤ b ∧ b ≤ 0xEF) :
    lead? b = some ⟨2, if b = 0xE0 then 0xA0 else 0x80, if b = 0xED then 0x9F else 0xBF,
      b.toNat % 16⟩ := by
  have hnot : ¬ (0xC2 ≤ b ∧ b ≤ 0xDF) := by
    simp only [UInt8.le_iff_toNat_le, UInt8.reduceToNat] at h ⊢
    omega
  rw [lead?, if_neg hnot, if_pos h]

theorem lead?_four {b : UInt8} (h : 0xF0 ≤ b ∧ b ≤ 0xF4) :
    lead? b = some ⟨3, if b = 0xF0 then 0x90 else 0x80, if b = 0xF4 then 0x8F else 0xBF,
      b.toNat % 8⟩ := by
  have hnot : ¬ (0xC2 ≤ b ∧ b ≤ 0xDF) ∧ ¬ (0xE0 ≤ b ∧ b ≤ 0xEF) := by
    simp only [UInt8.le_iff_toNat_le, UInt8.reduceToNat] at h ⊢
    omega
  rw [lead?, if_neg hnot.1, if_neg hnot.2, if_pos h]

/-- Six bits of a number make a byte that may follow. -/
theorem tail_bounds (n : Nat) :
    0x80 ≤ UInt8.ofNat (n % 64 + 128) ∧ UInt8.ofNat (n % 64 + 128) ≤ 0xBF := by
  simp only [UInt8.le_iff_toNat_le, UInt8.toNat_ofNat', UInt8.reduceToNat]
  omega

/-- **The bytes of any character** are a single one below 0x80, or a lead byte and what it needs. -/
theorem utf8EncodeChar_cases (c : Char) :
    (∃ b : UInt8, b < 0x80 ∧ String.utf8EncodeChar c = [b]) ∨
      ∃ (b : UInt8) (lead : Lead) (more : Bytes), lead? b = some lead ∧
        more.length = lead.need ∧ Fits lead.low lead.high more ∧
        String.utf8EncodeChar c = b :: more := by
  have hvalid : c.val.toNat < 0xD800 ∨ 0xDFFF < c.val.toNat ∧ c.val.toNat < 0x110000 := c.valid
  have hchar := utf8EncodeChar_ofNat c.valid
  rw [show Char.ofNat c.val.toNat = c from Char.ofNat_toNat c] at hchar
  generalize c.val.toNat = n at hchar hvalid
  rw [hchar]
  split_ifs with h₁ h₂ h₃
  · refine Or.inl ⟨_, ?_, rfl⟩
    simp only [UInt8.lt_iff_toNat_lt, UInt8.toNat_ofNat', UInt8.reduceToNat]
    omega
  · have hlead : 0xC2 ≤ UInt8.ofNat (n / 64 % 32 + 192) ∧
        UInt8.ofNat (n / 64 % 32 + 192) ≤ 0xDF := by
      simp only [UInt8.le_iff_toNat_le, UInt8.toNat_ofNat', UInt8.reduceToNat]
      omega
    exact Or.inr ⟨_, _, [_], lead?_two hlead, rfl, ⟨tail_bounds n, trivial⟩, rfl⟩
  · have hlead : 0xE0 ≤ UInt8.ofNat (n / 4096 % 16 + 224) ∧
        UInt8.ofNat (n / 4096 % 16 + 224) ≤ 0xEF := by
      simp only [UInt8.le_iff_toNat_le, UInt8.toNat_ofNat', UInt8.reduceToNat]
      omega
    refine Or.inr ⟨_, _, [_, _], lead?_three hlead, rfl, ⟨?_, tail_bounds n, trivial⟩, rfl⟩
    simp only [UInt8.le_iff_toNat_le, ← UInt8.toNat_inj, apply_ite UInt8.toNat,
      UInt8.toNat_ofNat', UInt8.reduceToNat]
    split_ifs <;> omega
  · have hlead : 0xF0 ≤ UInt8.ofNat (n / 262144 % 8 + 240) ∧
        UInt8.ofNat (n / 262144 % 8 + 240) ≤ 0xF4 := by
      simp only [UInt8.le_iff_toNat_le, UInt8.toNat_ofNat', UInt8.reduceToNat]
      omega
    refine Or.inr ⟨_, _, [_, _, _], lead?_four hlead, rfl,
      ⟨?_, tail_bounds (n / 64), tail_bounds n, trivial⟩, rfl⟩
    simp only [UInt8.le_iff_toNat_le, ← UInt8.toNat_inj, apply_ite UInt8.toNat,
      UInt8.toNat_ofNat', UInt8.reduceToNat]
    split_ifs <;> omega

theorem lead?_of_lt {b : UInt8} (h : b < 0x80) : lead? b = none := by
  simp only [UInt8.lt_iff_toNat_lt, UInt8.reduceToNat] at h
  rw [lead?, if_neg, if_neg, if_neg] <;> simp only [UInt8.le_iff_toNat_le, UInt8.reduceToNat] <;>
    omega

theorem low_le_high {b : UInt8} {lead : Lead} (h : lead? b = some lead) : lead.low ≤ lead.high := by
  rw [lead?] at h
  split_ifs at h <;> obtain rfl := Option.some.inj h <;> first | decide | simp_all

theorem utf8EncodeChar_inj {c d : Char} (h : String.utf8EncodeChar c = String.utf8EncodeChar d) :
    c = d := by
  have hc := ByteArray.utf8DecodeChar?_utf8EncodeChar_append (b := ByteArray.empty) (c := c)
  rw [h, ByteArray.utf8DecodeChar?_utf8EncodeChar_append] at hc
  exact (Option.some.inj hc).symm

/-! ## Reading with replacement -/

/-- Bytes that a character begins with. -/
def Begins (bs : Bytes) : Prop := ∃ c : Char, bs <+: String.utf8EncodeChar c

theorem begins_cons_iff {b : UInt8} {more : Bytes} :
    Begins (b :: more) ↔ b < 0x80 ∧ more = [] ∨
      ∃ lead, lead? b = some lead ∧ more.length ≤ lead.need ∧ Fits lead.low lead.high more := by
  constructor
  · rintro ⟨c, hfront⟩
    rcases utf8EncodeChar_cases c with ⟨b', hb, hc⟩ | ⟨b', lead, more', hlead, hlen, hfits, hc⟩
    · rw [hc, List.cons_prefix_cons] at hfront
      obtain ⟨rfl, hmore⟩ := hfront
      exact Or.inl ⟨hb, List.prefix_nil.1 hmore⟩
    · rw [hc, List.cons_prefix_cons] at hfront
      obtain ⟨rfl, rest, rfl⟩ := hfront
      refine Or.inr ⟨lead, hlead, ?_, hfits.of_append⟩
      rw [← hlen, List.length_append]
      exact Nat.le_add_right _ _
  · rintro (⟨hb, rfl⟩ | ⟨lead, hlead, hlen, hfits⟩)
    · exact ⟨_, [], (utf8EncodeChar_one hb).symm⟩
    · obtain ⟨rest, hrest, hfits⟩ :=
        hfits.exists_append (low_le_high hlead) (lead.need - more.length)
      refine ⟨_, rest, (lead.utf8EncodeChar_eq hlead ?_ hfits).symm⟩
      rw [List.length_append, hrest, Nat.add_sub_cancel' hlen]

/-- Bytes that are replaced together where they stand before others: no character stands there, and
either they are the longest run that a character begins with or, if there is none, a single byte. -/
structure Group (group rest : Bytes) : Prop where
  no_char : ∀ c, ¬ String.utf8EncodeChar c <+: group ++ rest
  longest : ∀ front, front <+: group ++ rest → Begins front → front.length ≤ group.length
  begins : Begins group ∨ group.length = 1
  ne_nil : group ≠ []

/-- The characters that bytes are read as when those that belong to no character are replaced. -/
inductive Lossy : Bytes → List Char → Prop where
  | nil : Lossy [] []
  | char {rest : Bytes} {chars : List Char} (c : Char) (h : Lossy rest chars) :
      Lossy (String.utf8EncodeChar c ++ rest) (c :: chars)
  | replaced {group rest : Bytes} {chars : List Char} (hgroup : Group group rest)
      (h : Lossy rest chars) : Lossy (group ++ rest) ('\uFFFD' :: chars)

/-- Where a lead byte is not followed by all that it needs, the bytes that fit are replaced. -/
theorem Group.of_lead {b : UInt8} {lead : Lead} {more rest : Bytes} (hlead : lead? b = some lead)
    (hlen : more.length < lead.need) (hfits : Fits lead.low lead.high more)
    (hrest : ∀ b' rest', rest = b' :: rest' → ¬ Fits lead.low lead.high (more ++ [b'])) :
    Group (b :: more) rest := by
  have hlongest : ∀ front, front <+: b :: more ++ rest → Begins front →
      front.length ≤ (b :: more).length := by
    intro front hfront hbegins
    by_contra hlt
    -- a longer run goes on with the first byte of the rest, which does not fit
    obtain ⟨rest', rfl⟩ := List.prefix_of_prefix_length_le (List.prefix_append (b :: more) rest)
      hfront (Nat.le_of_not_le hlt)
    cases rest' with
    | nil =>
      rw [List.append_nil] at hlt
      exact hlt (Nat.le_refl _)
    | cons b' rest' =>
      obtain ⟨behind, hbehind⟩ := (List.prefix_append_right_inj _).1 hfront
      refine hrest b' (rest' ++ behind) hbehind.symm ?_
      rcases begins_cons_iff.1 hbegins with ⟨hb, -⟩ | ⟨lead', hlead', -, hfits'⟩
      · rw [lead?_of_lt hb] at hlead
        exact nomatch hlead
      · obtain rfl := Option.some.inj (hlead.symm.trans hlead')
        rw [List.append_eq, List.append_cons] at hfits'
        exact hfits'.of_append
  refine ⟨fun c hc => ?_, hlongest, Or.inl ?_, List.cons_ne_nil _ _⟩
  · -- a character would take all that is needed
    have hle := hlongest _ hc ⟨c, List.prefix_rfl⟩
    rcases utf8EncodeChar_cases c with ⟨b', hb, henc⟩ | ⟨b', lead', more', hlead', hlen', -, henc⟩
    · rw [henc, List.cons_append, List.cons_prefix_cons] at hc
      rw [← hc.1, lead?_of_lt hb] at hlead
      exact nomatch hlead
    · rw [henc, List.cons_append, List.cons_prefix_cons] at hc
      rw [← hc.1, hlead'] at hlead
      obtain rfl := Option.some.inj hlead
      rw [henc, List.length_cons, List.length_cons, hlen'] at hle
      exact Nat.not_lt_of_le (Nat.le_of_succ_le_succ hle) hlen
  · exact begins_cons_iff.2 (Or.inr ⟨lead, hlead, Nat.le_of_lt hlen, hfits⟩)

/-- A byte that no character begins with is replaced alone. -/
theorem Group.single {b : UInt8} (hb : ¬ b < 0x80) (hlead : lead? b = none) (rest : Bytes) :
    Group [b] rest := by
  have hnone : ∀ more, ¬ Begins (b :: more) := by
    intro more hbegins
    rcases begins_cons_iff.1 hbegins with ⟨hlt, -⟩ | ⟨lead, hsome, -⟩
    · exact hb hlt
    · rw [hlead] at hsome
      exact nomatch hsome
  have hlongest : ∀ front, front <+: [b] ++ rest → Begins front → front = [] := by
    intro front hfront hbegins
    cases front with
    | nil => rfl
    | cons b' more =>
      rw [List.cons_append, List.cons_prefix_cons] at hfront
      obtain ⟨rfl, -⟩ := hfront
      exact absurd hbegins (hnone more)
  refine ⟨fun c hc => ?_, fun front hfront hbegins => ?_, Or.inr rfl, List.cons_ne_nil _ _⟩
  · exact String.utf8EncodeChar_ne_nil (hlongest _ hc ⟨c, List.prefix_rfl⟩)
  · rw [hlongest front hfront hbegins]
    exact Nat.zero_le _

/-- **The front of some bytes** is a character or a group that is replaced. -/
theorem head_spec (b : UInt8) (tail : Bytes) :
    match head b tail with
    | .char c rest => b :: tail = String.utf8EncodeChar c ++ rest
    | .invalid _ rest => ∃ group, b :: tail = group ++ rest ∧ Group group rest
    | .incomplete => Group (b :: tail) [] := by
  rw [head_eq]
  by_cases hb : b < 0x80
  · rw [if_pos hb]
    show b :: tail = String.utf8EncodeChar (Char.ofNat b.toNat) ++ tail
    rw [utf8EncodeChar_one hb]
    rfl
  rw [if_neg hb]
  cases hlead : lead? b with
  | none => exact ⟨[b], rfl, Group.single hb hlead tail⟩
  | some lead =>
    have hspec := continuation_spec lead.need lead.low lead.high lead.value 1 tail
    dsimp only
    revert hspec
    cases continuation lead.need lead.low lead.high lead.value 1 tail with
    | char c rest =>
      rintro ⟨more, hlen, hfits, rfl, rfl⟩
      show b :: (more ++ rest) = _
      rw [lead.utf8EncodeChar_eq hlead hlen hfits]
      rfl
    | invalid n rest =>
      rintro ⟨more, b', rest', hlen, hfits, rfl, -, hrest, hnot⟩
      refine ⟨b :: more, rfl, Group.of_lead hlead hlen hfits fun b'' rest'' h => ?_⟩
      obtain ⟨rfl, -⟩ := List.cons.inj (hrest.symm.trans h)
      exact hnot
    | incomplete =>
      rintro ⟨hlen, hfits⟩
      exact Group.of_lead hlead hlen hfits fun _ _ h => nomatch h

theorem lossy_charsLossy (bs : Bytes) : Lossy bs (charsLossy bs) := by
  fun_induction charsLossy bs with
  | case1 => exact .nil
  | case2 b tail c rest hhead _ ih =>
    have hspec := head_spec b tail
    rw [hhead] at hspec
    dsimp only at hspec
    rw [hspec]
    exact .char c ih
  | case3 b tail n rest hhead _ ih =>
    have hspec := head_spec b tail
    rw [hhead] at hspec
    obtain ⟨group, hsplit, hgroup⟩ := hspec
    rw [hsplit]
    exact .replaced hgroup ih
  | case4 b tail hhead =>
    have hspec := head_spec b tail
    rw [hhead] at hspec
    rw [← List.append_nil (b :: tail)]
    exact .replaced hspec .nil

/-- The first byte of a character tells how many there are. -/
theorem length_eq_of_head {c d : Char} {b : UInt8} {more more' : Bytes}
    (hc : String.utf8EncodeChar c = b :: more) (hd : String.utf8EncodeChar d = b :: more') :
    more.length = more'.length := by
  have hmore : ∀ {x : Char} {rest : Bytes}, String.utf8EncodeChar x = b :: rest →
      b < 0x80 ∧ rest = [] ∨ ∃ lead, lead? b = some lead ∧ rest.length = lead.need := by
    intro x rest hx
    rcases utf8EncodeChar_cases x with ⟨b', hb, henc⟩ | ⟨b', lead, rest', hlead, hlen, -, henc⟩
    · obtain ⟨rfl, rfl⟩ := List.cons.inj (henc.symm.trans hx)
      exact Or.inl ⟨hb, rfl⟩
    · obtain ⟨rfl, rfl⟩ := List.cons.inj (henc.symm.trans hx)
      exact Or.inr ⟨lead, hlead, hlen⟩
  rcases hmore hc with ⟨hb, rfl⟩ | ⟨lead, hlead, hlen⟩
  · rcases hmore hd with ⟨-, rfl⟩ | ⟨lead, hlead, -⟩
    · rfl
    · rw [lead?_of_lt hb] at hlead
      exact nomatch hlead
  · rcases hmore hd with ⟨hb, -⟩ | ⟨lead', hlead', hlen'⟩
    · rw [lead?_of_lt hb] at hlead
      exact nomatch hlead
    · obtain rfl := Option.some.inj (hlead.symm.trans hlead')
      rw [hlen, hlen']

/-- No two characters stand at the front of the same bytes. -/
theorem eq_of_append {c d : Char} {rest rest' : Bytes}
    (h : String.utf8EncodeChar c ++ rest = String.utf8EncodeChar d ++ rest') :
    c = d ∧ rest = rest' := by
  cases hc : String.utf8EncodeChar c with
  | nil => exact absurd hc String.utf8EncodeChar_ne_nil
  | cons b more =>
    cases hd : String.utf8EncodeChar d with
    | nil => exact absurd hd String.utf8EncodeChar_ne_nil
    | cons b' more' =>
      rw [hc, hd] at h
      obtain ⟨rfl, hmore⟩ := List.cons.inj h
      obtain ⟨rfl, rfl⟩ := List.append_inj hmore (length_eq_of_head hc hd)
      exact ⟨utf8EncodeChar_inj (hc.trans hd.symm), rfl⟩

/-- Bytes are read in one way only. -/
theorem Lossy.unique {bs : Bytes} {xs ys : List Char} (hx : Lossy bs xs) (hy : Lossy bs ys) :
    xs = ys := by
  induction hx generalizing ys with
  | nil =>
    generalize hbs : ([] : Bytes) = bs at hy
    cases hy with
    | nil => rfl
    | char c h => exact absurd (List.append_eq_nil_iff.1 hbs.symm).1 String.utf8EncodeChar_ne_nil
    | replaced hgroup h => exact absurd (List.append_eq_nil_iff.1 hbs.symm).1 hgroup.ne_nil
  | @char rest chars c hx ih =>
    generalize hbs : String.utf8EncodeChar c ++ rest = bs at hy
    cases hy with
    | nil => exact absurd (List.append_eq_nil_iff.1 hbs).1 String.utf8EncodeChar_ne_nil
    | @char rest' chars' d h =>
      obtain ⟨rfl, rfl⟩ := eq_of_append hbs
      rw [ih h]
    | @replaced group rest' chars' hgroup h => exact absurd ⟨rest, hbs⟩ (hgroup.no_char c)
  | @replaced group rest chars hgroup hx ih =>
    generalize hbs : group ++ rest = bs at hy
    cases hy with
    | nil => exact absurd (List.append_eq_nil_iff.1 hbs).1 hgroup.ne_nil
    | @char rest' chars' d h => exact absurd ⟨rest', hbs.symm⟩ (hgroup.no_char d)
    | @replaced group' rest' chars' hgroup' h =>
      have hlen : ∀ {g g' r r' : Bytes}, Group g r → Group g' r' → g ++ r = g' ++ r' →
          g.length ≤ g'.length := by
        intro g g' r r' hg hg' heq
        rcases hg.begins with hbegins | hone
        · exact hg'.longest g ⟨r, heq⟩ hbegins
        · rw [hone]
          exact List.length_pos_iff.2 hg'.ne_nil
      obtain ⟨rfl, rfl⟩ := List.append_inj hbs
        (Nat.le_antisymm (hlen hgroup hgroup' hbs) (hlen hgroup' hgroup hbs.symm))
      rw [ih h]

/-- **Reading with replacement** is what `Lossy` describes. -/
theorem lossy_iff {bs : Bytes} {chars : List Char} :
    Lossy bs chars ↔ (decodeLossy bs).toList = chars := by
  have hread : Lossy bs (decodeLossy bs).toList := by
    rw [decodeLossy, String.toList_ofList]
    exact lossy_charsLossy bs
  exact ⟨fun h => hread.unique h, fun h => h ▸ hread⟩

theorem encode_eq (s : String) : encode s = s.toList.flatMap String.utf8EncodeChar := by
  conv_lhs => rw [← String.ofList_toList (s := s)]
  rw [encode, String.toByteArray_ofList, List.utf8Encode, List.data_toByteArray]

/-- **Text in front of any bytes** is read as itself. -/
theorem decodeLossy_append (s : String) (rest : Bytes) :
    decodeLossy (encode s ++ rest) = s ++ decodeLossy rest := by
  have hfront : ∀ cs : List Char, Lossy (cs.flatMap String.utf8EncodeChar ++ rest)
      (cs ++ (decodeLossy rest).toList) := by
    intro cs
    induction cs with
    | nil => exact lossy_iff.2 rfl
    | cons c cs ih =>
      rw [List.flatMap_cons, List.append_assoc]
      exact .char c ih
  have h := hfront s.toList
  rw [← encode_eq, lossy_iff] at h
  rw [← String.toList_inj, h, String.toList_append]

theorem decodeLossy_encode (s : String) : decodeLossy (encode s) = s := by
  have h := decodeLossy_append s []
  rw [List.append_nil] at h
  rw [h, decodeLossy, charsLossy, String.ofList_nil, String.append_empty]

end IpAtlas.Utf8
