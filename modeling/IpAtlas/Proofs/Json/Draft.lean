import IpAtlas.Json.Decode
import Mathlib.Tactic.IntervalCases

/-!
# Written JSON is read back

A string is written with escapes for some of its characters, and reading takes one escape or one
plain character at a time; so a string is read back character by character, in front of anything.

A value is read back if its text gives its draft wherever the text stands.  Strings are, and so is
an object of values that are.  Reading counts down as it goes into a value and along an object; the
length of the text is always enough to count down from.

## What is here

* `Draft.piece_escapeChar`, `Draft.readString_escaped` — strings.
* `ReadsBack`, `readsBack_text`, `readsBack_object` — values.
* `ReadsBack.runText` — a decoder of a text has the draft of the value to work on.
-/

set_option autoImplicit false

namespace IpAtlas.Json

namespace Draft

/-! ## Strings -/

theorem escapeChar_ne_nil (c : Char) : escapeChar c ≠ [] := by
  rw [escapeChar]
  split_ifs <;> simp

theorem piece_control : ∀ n < 0x20, ∀ rest,
    piece (escapeChar (Char.ofNat n) ++ rest) = .char (Char.ofNat n) rest := by
  intro n hn rest
  interval_cases n <;> rfl

/-- **What a character is written as is read as it.** -/
theorem piece_escapeChar (c : Char) (rest : List Char) :
    piece (escapeChar c ++ rest) = .char c rest := by
  by_cases hcontrol : c.toNat < 0x20
  · have h := piece_control c.toNat hcontrol rest
    rwa [Char.ofNat_toNat] at h
  · by_cases hquote : c = '"'
    · subst hquote
      rfl
    · by_cases hslash : c = '\\'
      · subst hslash
        rfl
      · have hplain : escapeChar c = [c] := by
          rw [escapeChar]
          have hne : ∀ d : Char, d.toNat < 0x20 → c ≠ d := by
            rintro d hd rfl
            exact hcontrol hd
          simp [hquote, hslash, hcontrol, hne '\n' (by decide), hne '\r' (by decide),
            hne '\t' (by decide), hne '\x08' (by decide), hne '\x0C' (by decide)]
        simp [hplain, piece, hquote, hslash, hcontrol]

theorem readStringFrom_escaped (front cs rest : List Char) {fuel : Nat} (hfuel : cs.length < fuel) :
    readStringFrom (.ok front) fuel (cs.flatMap escapeChar ++ '"' :: rest) =
      (⟨.ok (String.ofList (front.reverse ++ cs)), none⟩, rest) := by
  induction cs generalizing front fuel with
  | nil =>
    obtain ⟨fuel, rfl⟩ : ∃ n, fuel = n + 1 := ⟨fuel - 1, by omega⟩
    simp [readStringFrom, piece, Except.map]
  | cons c cs ih =>
    obtain ⟨fuel, rfl⟩ : ∃ n, fuel = n + 1 := ⟨fuel - 1, by omega⟩
    rw [List.flatMap_cons, List.append_assoc, readStringFrom, piece_escapeChar]
    have hcount : cs.length < fuel := by simpa using hfuel
    have h := ih (c :: front) hcount
    simpa [Except.map] using h

/-- **A string is read back from what stands between its quotes.** -/
theorem readString_escaped (s : String) (rest : List Char) :
    readString (s.toList.flatMap escapeChar ++ '"' :: rest) = (⟨.ok s, none⟩, rest) := by
  have hlen : s.toList.length ≤ (s.toList.flatMap escapeChar).length := by
    induction s.toList with
    | nil => simp
    | cons c cs ih =>
      have := List.length_pos_iff.2 (escapeChar_ne_nil c)
      simp only [List.flatMap_cons, List.length_append, List.length_cons]
      omega
  rw [readString, readStringFrom_escaped [] s.toList rest (by
    simp only [List.length_append, List.length_cons]
    omega)]
  simp

end Draft

/-! ## Values -/

theorem toList_quote (s : String) :
    (quote s).toList = '"' :: (s.toList.flatMap escapeChar ++ ['"']) := by
  simp [quote]

/-- The text of a value gives its draft, whatever follows, if reading may count down from the length
of the text. -/
def ReadsBack (x : Json) : Prop :=
  ∀ (fuel : Nat) (rest : List Char), x.toText.toList.length ≤ fuel →
    Draft.readValue fuel (x.toText.toList ++ rest) = (x.draft, rest)

/-- **Strings are read back.** -/
theorem readsBack_text (s : String) : ReadsBack (.text s) := by
  intro fuel rest hfuel
  rw [toText, toList_quote] at hfuel ⊢
  obtain ⟨fuel, rfl⟩ : ∃ n, fuel = n + 1 := ⟨fuel - 1, by simp at hfuel; omega⟩
  simp only [List.cons_append, List.append_assoc, List.nil_append]
  simp [Draft.readValue, Draft.skipBlanks, Draft.isBlank, Draft.readString_escaped, draft]

/-! ## Objects -/

/-- The characters of a member. -/
def memberChars (m : String × Json) : List Char := (quote m.1).toList ++ ':' :: m.2.toText.toList

/-- The characters of members that follow another. -/
def moreChars (ms : List (String × Json)) : List Char := ms.flatMap fun m => ',' :: memberChars m

theorem intercalate_memberTexts (m : String × Json) (ms : List (String × Json)) :
    [','].intercalate ((memberTexts (m :: ms)).map String.toList) =
      memberChars m ++ moreChars ms := by
  induction ms generalizing m with
  | nil => simp [memberTexts, memberChars, moreChars]
  | cons n ms ih =>
    have h := ih n
    simp only [memberTexts, List.map_cons, List.intercalate_cons_cons] at h ⊢
    rw [h]
    simp [memberChars, moreChars]

theorem toList_toText_object (ms : List (String × Json)) :
    (toText (.object ms)).toList =
      '\x7b' :: ([','].intercalate ((memberTexts ms).map String.toList) ++ ['\x7d']) := by
  simp [toText, String.toList_intercalate]

theorem readColon_colon (cs : List Char) : Draft.readColon (':' :: cs) = (none, cs) := rfl

/-- **Members are read back**, of the first of which the quote is read, up to the brace. -/
theorem readMember_members {m : String × Json} {ms : List (String × Json)}
    (hback : ∀ n ∈ m :: ms, ReadsBack n.2) {fuel : Nat}
    (hfuel : (memberChars m).length + (moreChars ms).length ≤ fuel) (rest : List Char) :
    Draft.readMember fuel (m.1.toList.flatMap escapeChar ++ '"' :: ':' ::
        (m.2.toText.toList ++ (moreChars ms ++ '\x7d' :: rest))) =
      (draftMembers (m :: ms), rest) := by
  induction ms generalizing m fuel with
  | nil =>
    simp only [memberChars, toList_quote, moreChars, List.length_append, List.length_cons,
      List.flatMap_nil, List.length_nil] at hfuel
    obtain ⟨fuel, rfl⟩ : ∃ n, fuel = n + 2 := ⟨fuel - 2, by omega⟩
    rw [Draft.readMember, Draft.readString_escaped]
    simp only [readColon_colon]
    rw [hback m List.mem_cons_self (fuel + 1) _ (by omega)]
    rfl
  | cons n ms ih =>
    simp only [memberChars, toList_quote, moreChars, List.length_append, List.length_cons,
      List.flatMap_cons] at hfuel
    obtain ⟨fuel, rfl⟩ : ∃ k, fuel = k + 2 := ⟨fuel - 2, by omega⟩
    have hmore : moreChars (n :: ms) ++ '\x7d' :: rest = ',' :: '"' ::
        (n.1.toList.flatMap escapeChar ++ '"' :: ':' ::
          (n.2.toText.toList ++ (moreChars ms ++ '\x7d' :: rest))) := by
      simp [moreChars, memberChars, toList_quote]
    have hcount : (memberChars n).length + (moreChars ms).length ≤ fuel := by
      simp only [memberChars, toList_quote, moreChars, List.length_append, List.length_cons]
      omega
    have hrec := ih (fun k hk => hback k (List.mem_cons_of_mem _ hk)) hcount
    have hnext : Draft.readMoreMembers (fuel + 1) (moreChars (n :: ms) ++ '\x7d' :: rest) =
        (draftMembers (n :: ms), rest) := by
      rw [hmore, ← hrec]
      rfl
    rw [Draft.readMember, Draft.readString_escaped]
    simp only [readColon_colon]
    rw [hback m List.mem_cons_self (fuel + 1) _ (by omega)]
    simp only [hnext]
    rfl

/-- **An object is read back if the values of its members are.** -/
theorem readsBack_object {ms : List (String × Json)} (h : ∀ m ∈ ms, ReadsBack m.2) :
    ReadsBack (.object ms) := by
  intro fuel rest hfuel
  rw [toList_toText_object] at hfuel ⊢
  simp only [List.length_cons, List.length_append, List.length_nil] at hfuel
  obtain ⟨fuel, rfl⟩ : ∃ n, fuel = n + 2 := ⟨fuel - 2, by omega⟩
  cases ms with
  | nil => rfl
  | cons m ms =>
    rw [intercalate_memberTexts] at hfuel ⊢
    have hcount : (memberChars m).length + (moreChars ms).length ≤ fuel := by
      simp only [List.length_append] at hfuel
      omega
    have hmembers := readMember_members h hcount rest
    have hchars : memberChars m ++ (moreChars ms ++ '\x7d' :: rest) = '"' ::
        (m.1.toList.flatMap escapeChar ++ '"' :: ':' ::
          (m.2.toText.toList ++ (moreChars ms ++ '\x7d' :: rest))) := by
      simp [memberChars, toList_quote]
    have hfirst : Draft.readFirstMember (fuel + 1)
        (memberChars m ++ (moreChars ms ++ '\x7d' :: rest)) =
          (draftMembers (m :: ms), rest) := by
      rw [hchars, ← hmembers]
      rfl
    simp only [List.cons_append, List.append_assoc, List.nil_append]
    simp [Draft.readValue, Draft.skipBlanks, Draft.isBlank, Draft.isDigit, hfirst, draft]

/-! ## Decoders -/

/-- What a decoder makes of the draft of a value it makes of its text. -/
theorem ReadsBack.runText {α : Type} {decode : Decoder α} {x : Json} (h : ReadsBack x) :
    decode.runText x.toText = decode { origin := .text } x.draft := by
  have hread := h (3 * x.toText.toList.length + 3) [] (by omega)
  rw [List.append_nil] at hread
  rw [Decoder.runText, Draft.ofText, Draft.ofChars, hread]
  simp only [Draft.skipBlanks, List.dropWhile_nil, List.isEmpty_nil, Bool.not_true]
  cases decode { origin := .text } x.draft <;> rfl

end IpAtlas.Json
