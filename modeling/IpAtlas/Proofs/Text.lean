import IpAtlas.Text.Blank
import IpAtlas.Text.Decimal
import Mathlib.Data.List.DropRight

/-!
# Trimmed texts and decimal numbers

What a column of a table says is its text without the blanks around it, and what a number in it is
worth is told by its digits.  Both are computed from the front; here they are told from what the
text consists of.

## What is here

* `Text.Trimmed`, `Text.trim_eq_iff` — what is between the blanks.
* `Text.Spells`, `Text.unsigned?_eq_some_iff` — the numbers that can be read.
* `Text.spells_toString`, `Text.Spells.eq` — every number has a text, and a text one number at most.
-/

set_option autoImplicit false

namespace IpAtlas.Text

/-! ## Blanks around a text -/

/-- Characters are blanks, then `ds`, then blanks again, and `ds` has none at either end. -/
def Trimmed (cs ds : List Char) : Prop :=
  ∃ front back, cs = front ++ ds ++ back ∧
    (∀ c ∈ front, isBlank c = true) ∧ (∀ c ∈ back, isBlank c = true) ∧
    (∀ c ∈ ds.head?, isBlank c = false) ∧ ∀ c ∈ ds.getLast?, isBlank c = false

theorem trimmed_trimChars (cs : List Char) : Trimmed cs (trimChars cs) := by
  have hback : trimChars cs = (cs.dropWhile isBlank).rdropWhile isBlank := rfl
  refine ⟨cs.takeWhile isBlank, (cs.dropWhile isBlank).rtakeWhile isBlank, ?_, ?_, ?_, ?_, ?_⟩
  · rw [hback, List.append_assoc, List.rdropWhile_append_rtakeWhile,
      List.takeWhile_append_dropWhile]
  · intro c hc
    exact List.mem_takeWhile_imp hc
  · intro c hc
    exact List.mem_rtakeWhile_imp hc
  · -- the first character that is left was left by the cut at the front
    intro c hc
    obtain ⟨back, hsplit⟩ := List.rdropWhile_prefix isBlank (cs.dropWhile isBlank)
    have hhead : (cs.dropWhile isBlank).head? = some c := by
      rw [← hsplit, ← hback, List.head?_append, Option.mem_def.mp hc]
      rfl
    have hnot := List.head?_dropWhile_not isBlank cs
    rwa [hhead] at hnot
  · intro c hc
    have hne : (cs.dropWhile isBlank).rdropWhile isBlank ≠ [] := by
      intro hnil
      rw [hback, hnil] at hc
      simp at hc
    have hlast := List.rdropWhile_last_not isBlank _ hne
    rw [hback, List.getLast?_eq_getLast_of_ne_nil hne, Option.mem_some_iff] at hc
    rw [← hc]
    simpa using hlast

theorem trimChars_eq_of_trimmed {cs ds : List Char} (h : Trimmed cs ds) : trimChars cs = ds := by
  obtain ⟨front, back, rfl, hfront, hback, hhead, hlast⟩ := h
  have hreverse : ∀ c ∈ back.reverse, isBlank c = true := by simpa using hback
  rw [trimChars, List.append_assoc, List.dropWhile_append_of_pos hfront]
  cases ds with
  | nil => simp [List.dropWhile_eq_nil_iff.2 hback]
  | cons d ds =>
    rw [List.cons_append, List.dropWhile_cons_of_neg (by simp [hhead d rfl]), ← List.cons_append,
      List.reverse_append, List.dropWhile_append_of_pos hreverse]
    have hstop : ((d :: ds).reverse).dropWhile isBlank = (d :: ds).reverse := by
      rw [List.dropWhile_eq_self_iff]
      intro hpos
      have hget := hlast ((d :: ds).reverse[0]) (by
        rw [← List.head?_reverse, Option.mem_def, List.head?_eq_getElem?,
          List.getElem?_eq_getElem hpos])
      rw [hget]
      exact Bool.false_ne_true
    rw [hstop, List.reverse_reverse]

/-- **Trimming leaves what is between the blanks.** -/
theorem trimChars_eq_iff {cs ds : List Char} : trimChars cs = ds ↔ Trimmed cs ds :=
  ⟨fun h => h ▸ trimmed_trimChars cs, trimChars_eq_of_trimmed⟩

theorem trim_eq_iff {s t : String} : trim s = t ↔ Trimmed s.toList t.toList := by
  rw [← trimChars_eq_iff, trim, ← String.toList_inj, String.toList_ofList]

/-! ## Decimal numbers -/

/-- A text is one or more decimal digits that are worth `n`, possibly with a plus sign in front. -/
def Spells (s : String) (n : Nat) : Prop :=
  ∃ sign ds, s.toList = sign ++ ds ∧ (sign = [] ∨ sign = ['+']) ∧ ds ≠ [] ∧
    (∀ c ∈ ds, c.isDigit = true) ∧ Nat.ofDigitChars 10 ds 0 = n

theorem digit?_eq_some_iff {c : Char} {d : Nat} :
    digit? c = some d ↔ c.isDigit = true ∧ c.toNat - '0'.toNat = d := by
  have hdigit : c.isDigit = true ↔ '0' ≤ c ∧ c ≤ '9' := Char.isDigit_iff_toNat
  rw [digit?, hdigit]
  split <;> simp [*]

theorem digitsFrom?_eq_some_iff {acc n : Nat} {ds : List Char} :
    digitsFrom? acc ds = some n ↔
      (∀ c ∈ ds, c.isDigit = true) ∧ Nat.ofDigitChars 10 ds acc = n := by
  induction ds generalizing acc with
  | nil => simp [digitsFrom?]
  | cons c ds ih =>
    rw [digitsFrom?, Option.bind_eq_some_iff]
    simp only [digit?_eq_some_iff, ih, List.forall_mem_cons, Nat.ofDigitChars_cons]
    constructor
    · rintro ⟨d, ⟨hc, rfl⟩, hds, hn⟩
      exact ⟨⟨hc, hds⟩, hn⟩
    · rintro ⟨⟨hc, hds⟩, hn⟩
      exact ⟨_, ⟨hc, rfl⟩, hds, hn⟩

theorem digitsValue?_eq_some_iff {n : Nat} {ds : List Char} :
    digitsValue? ds = some n ↔
      ds ≠ [] ∧ (∀ c ∈ ds, c.isDigit = true) ∧ Nat.ofDigitChars 10 ds 0 = n := by
  cases ds with
  | nil => simp [digitsValue?]
  | cons c ds => simp [digitsValue?, digitsFrom?_eq_some_iff]

/-- **Exactly the numbers that a text spells are read from it**, as far as they lie below the
bound. -/
theorem unsigned?_eq_some_iff {bound n : Nat} {s : String} :
    unsigned? bound s = some n ↔ Spells s n ∧ n < bound := by
  rw [unsigned?, Option.filter_eq_some_iff, decide_eq_true_eq]
  refine and_congr_left fun _ => ?_
  rw [Spells]
  split
  · rename_i cs hs
    rw [digitsValue?_eq_some_iff, hs]
    constructor
    · exact fun h => ⟨['+'], cs, rfl, Or.inr rfl, h⟩
    · rintro ⟨sign, ds, hsplit, rfl | rfl, hne, hdigits, hn⟩
      · rw [List.nil_append] at hsplit
        subst hsplit
        exact absurd (hdigits '+' (by simp)) (by decide)
      · obtain rfl : cs = ds := by simpa using hsplit
        exact ⟨hne, hdigits, hn⟩
  · rename_i hplus
    rw [digitsValue?_eq_some_iff]
    constructor
    · exact fun h => ⟨[], _, rfl, Or.inl rfl, h⟩
    · rintro ⟨sign, ds, hsplit, rfl | rfl, h⟩
      · rw [hsplit]
        exact h
      · exact absurd hsplit (hplus ds)

theorem unsigned?_eq_none_iff {bound : Nat} {s : String} :
    unsigned? bound s = none ↔ ∀ n, Spells s n → bound ≤ n := by
  rw [Option.eq_none_iff_forall_ne_some]
  simp only [ne_eq, unsigned?_eq_some_iff, not_and, Nat.not_lt]

/-- A text spells one number at most. -/
theorem Spells.eq {s : String} {m n : Nat} (hm : Spells s m) (hn : Spells s n) : m = n := by
  have hm' : unsigned? (max m n + 1) s = some m := unsigned?_eq_some_iff.2 ⟨hm, by omega⟩
  have hn' : unsigned? (max m n + 1) s = some n := unsigned?_eq_some_iff.2 ⟨hn, by omega⟩
  exact Option.some_inj.1 (hm'.symm.trans hn')

/-- The text of a number spells it. -/
theorem spells_toString (n : Nat) : Spells (toString n) n := by
  refine ⟨[], Nat.toDigits 10 n, ?_, Or.inl rfl, Nat.toDigits_ne_nil, fun c hc => ?_,
    Nat.ofDigitChars_ten_toDigits⟩
  · rw [Nat.toString_eq_ofList_toDigits, String.toList_ofList, List.nil_append]
  · exact Nat.isDigit_of_mem_toDigits (by decide) (by decide) hc

/-- What spells a number has digits and a plus sign only. -/
theorem Spells.mem {s : String} {n : Nat} (h : Spells s n) {c : Char} (hc : c ∈ s.toList) :
    c = '+' ∨ c.isDigit = true := by
  obtain ⟨sign, ds, hs, rfl | rfl, -, hdigits, -⟩ := h
  · rw [hs, List.nil_append] at hc
    exact Or.inr (hdigits c hc)
  · rw [hs, List.singleton_append, List.mem_cons] at hc
    exact hc.imp_right (hdigits c)

end IpAtlas.Text
