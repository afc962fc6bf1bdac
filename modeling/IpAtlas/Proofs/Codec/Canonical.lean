import IpAtlas.Proofs.Codec

/-!
# Writing and reading are each other's inverse

A location has one spelling, up to a bit that means nothing.  What was written is read back whatever
follows it, a part of what was written is not read at all, and what is read is spelt as it would be
written.

A step of a walk knows only the bytes up to where it goes.  Given more of them it succeeds with the
same value, and it fails for the same reason unless the reason was that there were too few; so a
step that takes certain bytes to the last can only run out on fewer.  The other way round, every
step takes a spelling of the value it gives, and the spellings are appended as the steps are taken.

## What is here

* `Read.Local`, `Read.local_location` — steps that know only the bytes up to where they go.
* `Read.Yields.overrun_of_front` — a step runs out on a front of the bytes it takes.
* `Read.rest_of_address`, `Read.rest_of_string`, `Read.rest_of_field` — what each step takes.
* `decodeLocation_eq_ok_iff`, `decodeAddress_eq_ok_iff` — the buffers that are read as a location
  or an address.
* `decodeLocation_of_front`, `decodeLocation_of_not_valid` — how too few bytes, and a span that is no
  range, are told.
* `written_and_read` — writing and reading, in both directions.
-/

set_option autoImplicit false

namespace IpAtlas

theorem Flag.tag_of_ofTag? {b : UInt8} {flag : Flag} (h : Flag.ofTag? b = some flag) :
    flag.tag = b := by
  rw [Flag.ofTag?] at h
  split_ifs at h with h₀ h₁ h₂ <;> cases h
  exacts [h₀.symm, h₁.symm, h₂.symm]

theorem Utf8.encode_of_decode {bs : Bytes} {s : String} (h : Utf8.decode bs = .ok s) :
    Utf8.encode s = bs := by
  rw [Utf8.decode] at h
  split at h
  · rename_i hs
    cases h
    rw [String.fromUTF8?] at hs
    split at hs
    · cases hs
      rfl
    · cases hs
  · cases h

theorem Address.bytes_of_ofBytes? {bs : Bytes} {a : Address} (h : Address.ofBytes? bs = some a) :
    a.bytes = bs := by
  have hbytes : ∀ (family : Family) (hlen : bs.length = family.byteCount),
      (Address.ofFamilyBytes family bs hlen).bytes = bs := by
    intro family hlen
    rw [Address.bytes, Address.ofFamilyBytes]
    dsimp only
    rw [← hlen, Bytes.ofNatBE_toNatBE]
  rw [Address.ofBytes?] at h
  split at h
  · cases h
    exact hbytes .v4 _
  split at h
  · cases h
    exact hbytes .v6 _
  · cases h

namespace Codec

/-- **The presence bytes of a location** are its own and the one with the top bit set. -/
theorem and_eq_presenceByte_iff {flags : UInt8} {l : Location} :
    flags &&& 0x7F = presenceByte l ↔
      ∀ i < 7, flags.toNat.testBit i = (presence l).getD i false := by
  have hmask : ∀ i, (flags &&& 0x7F).toNat.testBit i =
      (flags.toNat.testBit i && decide (i < 7)) := by
    intro i
    rw [UInt8.toNat_and, Nat.testBit_and, show (0x7F : UInt8).toNat = 2 ^ 7 - 1 from rfl,
      Nat.testBit_two_pow_sub_one]
  constructor
  · intro h i hi
    rw [← testBit_presenceByte, ← h, hmask, decide_eq_true hi, Bool.and_true]
  · intro h
    refine UInt8.toNat_inj.mp (Nat.eq_of_testBit_eq fun i => ?_)
    rw [hmask, testBit_presenceByte]
    by_cases hi : i < 7
    · rw [decide_eq_true hi, Bool.and_true, h i hi]
    · rw [decide_eq_false hi, Bool.and_false,
        List.getD_eq_getElem?_getD, List.getElem?_eq_none (Nat.le_of_not_lt hi), Option.getD_none]

namespace Read

variable {α β : Type}

/-! ## Steps that know only the bytes up to where they go -/

/-- A failure for want of bytes. -/
def Overrun (e : Error) : Prop := ∃ length offset size, e = .codec (.overrun length offset size)

/-- A step that fails, and not for want of bytes, fails so whatever more there is to read. -/
def Firm (read : Read α) : Prop :=
  ∀ position bs e r, read ⟨position, bs⟩ = .error e r →
    Overrun e ∨ ∀ more, ∃ r', read ⟨position, bs ++ more⟩ = .error e r'

/-- More to read changes neither a success nor, but for want of bytes, a failure. -/
structure Local (read : Read α) : Prop where
  steady : Steady read
  firm : Firm read

theorem error_of_bind {read : Read α} {next : α → Read β} {r r' : Reader} {e : Error}
    (h : (read >>= next) r = .error e r') :
    read r = .error e r' ∨ ∃ x r₁, read r = .ok x r₁ ∧ next x r₁ = .error e r' := by
  change EStateM.bind read next r = _ at h
  rw [EStateM.bind] at h
  split at h
  · rename_i x r₁ hx
    exact Or.inr ⟨x, r₁, hx, h⟩
  · rename_i e' r₁ hx
    obtain ⟨rfl, rfl⟩ := EStateM.Result.error.inj h
    exact Or.inl hx

theorem local_pure (x : α) : Local (pure x : Read α) :=
  ⟨steady_pure x, fun _ _ _ _ h => nomatch h⟩

/-- A failure that tells no more than how far the walk has come. -/
theorem local_fail (e : Nat → Error) : Local (do throw (e (← get).position) : Read α) := by
  refine ⟨fun _ _ _ _ h => (nomatch h), fun position bs e' r h => Or.inr fun more => ?_⟩
  obtain ⟨rfl, rfl⟩ := EStateM.Result.error.inj h
  exact ⟨_, rfl⟩

theorem local_throw (e : Error) : Local (throw e : Read α) := local_fail fun _ => e

theorem local_take (count : Nat) : Local (take count) := by
  refine ⟨steady_take count, fun position bs e r h => Or.inl ?_⟩
  rw [take] at h
  split at h
  · cases h
  · obtain ⟨rfl, rfl⟩ := EStateM.Result.error.inj h
    exact ⟨_, _, _, rfl⟩

theorem local_byte : Local byte := by
  refine ⟨steady_byte, fun position bs e r h => Or.inl ?_⟩
  cases bs with
  | nil =>
    obtain ⟨rfl, rfl⟩ := EStateM.Result.error.inj h
    exact ⟨_, _, _, rfl⟩
  | cons b rest => cases h

theorem Local.bind {read : Read α} {next : α → Read β} (h : Local read)
    (hnext : ∀ x, Local (next x)) : Local (read >>= next) := by
  refine ⟨h.steady.bind fun x => (hnext x).steady, fun position bs e r hread => ?_⟩
  rcases error_of_bind hread with hread | ⟨x, r₁, hx, hread⟩
  · refine (h.firm _ _ _ _ hread).imp_right fun hmore more => ?_
    obtain ⟨r', hr⟩ := hmore more
    refine ⟨r', ?_⟩
    change EStateM.bind read next _ = _
    rw [EStateM.bind, hr]
  · refine ((hnext x).firm _ _ _ _ hread).imp_right fun hmore more => ?_
    obtain ⟨r', hr⟩ := hmore more
    refine ⟨r', ?_⟩
    change EStateM.bind read next _ = _
    rw [EStateM.bind, h.steady _ _ _ _ hx more]
    exact hr

theorem local_word : Local word := (local_take 4).bind fun _ => local_pure _

theorem local_address : Local address := by
  refine local_byte.bind fun length => ?_
  dsimp only
  split
  · refine (local_take _).bind fun bytes => ?_
    split
    · exact local_pure _
    · exact local_throw _
  · exact local_throw _

theorem local_string : Local string := by
  refine local_word.bind fun count => (local_take count).bind fun bytes => ?_
  split
  · exact local_pure _
  · rename_i fault _
    exact local_fail fun position => .codec (.text position fault)

theorem local_field {read : Read α} (flags : UInt8) (bit : Nat) (h : Local read) :
    Local (field flags bit read) := by
  rw [field]
  split
  · rw [map_eq_pure_bind]
    exact h.bind fun x => local_pure (some x)
  · exact local_pure none

theorem local_location : Local location := by
  refine local_address.bind fun first => local_address.bind fun last =>
    local_byte.bind fun flags => local_byte.bind fun tag => ?_
  have htext : ∀ bit, Local (field flags bit string) := fun bit =>
    local_field flags bit local_string
  split
  · split
    · exact (htext 0).bind fun _ => (local_field flags 1 local_word).bind fun _ =>
        (htext 2).bind fun _ => (htext 3).bind fun _ => (htext 4).bind fun _ =>
          (htext 5).bind fun _ => (htext 6).bind fun _ => local_pure _
    · exact local_throw _
  · exact local_throw _

/-- **A step runs out on a front of the bytes it takes.** -/
theorem Yields.overrun_of_front {read : Read α} {bs cs more : Bytes} {x : α} (h : Yields read bs x)
    (hlocal : Local read) (hsplit : bs = cs ++ more) (hmore : more ≠ []) (position : Nat) :
    ∃ e r, read ⟨position, cs⟩ = .error e r ∧ Overrun e := by
  have hall := h position []
  rw [List.append_nil, hsplit] at hall
  cases hcs : read ⟨position, cs⟩ with
  | ok y r =>
    -- then it leaves `more` where it left nothing
    rw [hlocal.steady _ _ _ _ hcs more] at hall
    obtain ⟨-, hr⟩ := EStateM.Result.ok.inj hall
    exact absurd (List.append_eq_nil_iff.mp (congrArg Reader.rest hr)).2 hmore
  | error e r =>
    refine ⟨e, r, rfl, (hlocal.firm _ _ _ _ hcs).resolve_right fun hfails => ?_⟩
    obtain ⟨r', hr⟩ := hfails more
    rw [hr] at hall
    cases hall

/-! ## What a step takes -/

theorem rest_of_take {count : Nat} {r r' : Reader} {bs : Bytes} (h : take count r = .ok bs r') :
    bs.length = count ∧ r.rest = bs ++ r'.rest := by
  rw [take] at h
  split at h
  · rename_i hle
    obtain ⟨rfl, rfl⟩ := EStateM.Result.ok.inj h
    exact ⟨List.length_take_of_le hle, (List.take_append_drop _ _).symm⟩
  · cases h

theorem rest_of_byte {r r' : Reader} {b : UInt8} (h : byte r = .ok b r') :
    r.rest = [b] ++ r'.rest := by
  obtain ⟨position, bs⟩ := r
  cases bs with
  | nil => cases h
  | cons c rest =>
    obtain ⟨rfl, rfl⟩ := EStateM.Result.ok.inj h
    rfl

theorem rest_of_word {r r' : Reader} {n : Nat} (h : word r = .ok n r') :
    n < 2 ^ 32 ∧ r.rest = encodeWord n ++ r'.rest := by
  obtain ⟨bs, r₁, hbs, h⟩ := exists_of_bind h
  obtain ⟨rfl, rfl⟩ := EStateM.Result.ok.inj h
  obtain ⟨hlen, hrest⟩ := rest_of_take hbs
  constructor
  · have hlt := Bytes.toNatLE_lt bs
    rwa [hlen] at hlt
  · rw [hrest, encodeWord, ← hlen, Bytes.ofNatLE_toNatLE]

theorem rest_of_address {r r' : Reader} {a : Address} (h : address r = .ok a r') :
    r.rest = encodeAddress a ++ r'.rest := by
  obtain ⟨b, r₁, hb, h⟩ := exists_of_bind h
  dsimp only at h
  split at h
  · obtain ⟨bs, r₂, hbs, h⟩ := exists_of_bind h
    cases ha : Address.ofBytes? bs with
    | none =>
      rw [ha] at h
      cases h
    | some a' =>
      rw [ha] at h
      obtain ⟨rfl, rfl⟩ := EStateM.Result.ok.inj h
      obtain ⟨hlen, hrest⟩ := rest_of_take hbs
      have hbytes := Address.bytes_of_ofBytes? ha
      have hcount : UInt8.ofNat a'.family.byteCount = b := by
        rw [← Address.length_bytes, hbytes, hlen, UInt8.ofNat_toNat]
      rw [rest_of_byte hb, hrest, encodeAddress, hbytes, hcount]
      rfl
  · cases h

theorem rest_of_string {r r' : Reader} {s : String} (h : string r = .ok s r') :
    Countable s ∧ r.rest = encodeString s ++ r'.rest := by
  obtain ⟨count, r₁, hcount, h⟩ := exists_of_bind h
  obtain ⟨bs, r₂, hbs, h⟩ := exists_of_bind h
  cases hs : Utf8.decode bs with
  | error fault =>
    rw [hs] at h
    cases h
  | ok s' =>
    rw [hs] at h
    obtain ⟨rfl, rfl⟩ := EStateM.Result.ok.inj h
    obtain ⟨hlt, hword⟩ := rest_of_word hcount
    obtain ⟨hlen, hrest⟩ := rest_of_take hbs
    have hbytes := Utf8.encode_of_decode hs
    refine ⟨by rwa [Countable, hbytes, hlen], ?_⟩
    rw [hword, hrest, encodeString, hbytes, hlen, List.append_assoc]

/-- A field is taken if its bit is set. -/
theorem rest_of_field {read : Read α} {encode : α → Bytes} {P : α → Prop} {flags : UInt8}
    {bit : Nat} {r r' : Reader} {o : Option α}
    (hread : ∀ {r x r'}, read r = .ok x r' → P x ∧ r.rest = encode x ++ r'.rest)
    (h : field flags bit read r = .ok o r') :
    flags.toNat.testBit bit = o.isSome ∧ (∀ x ∈ o, P x) ∧
      r.rest = encodeField encode o ++ r'.rest := by
  rw [field] at h
  split at h
  · rename_i hbit
    rw [map_eq_pure_bind] at h
    obtain ⟨x, r₁, hx, h⟩ := exists_of_bind h
    obtain ⟨rfl, rfl⟩ := EStateM.Result.ok.inj h
    obtain ⟨hP, hrest⟩ := hread hx
    exact ⟨hbit, fun y hy => Option.some.inj hy ▸ hP, hrest⟩
  · rename_i hbit
    obtain ⟨rfl, rfl⟩ := EStateM.Result.ok.inj h
    refine ⟨Bool.eq_false_iff.mpr hbit, fun _ hy => ?_, rfl⟩
    cases hy

theorem encodeField_ofNat {o : Option Nat} (h : ∀ n ∈ o, n < 2 ^ 32) :
    encodeField (fun n => encodeWord n.toNat) (o.map UInt32.ofNat) = encodeField encodeWord o := by
  cases o with
  | none => rfl
  | some n =>
    have hn : (UInt32.ofNat n).toNat = n := by
      rw [UInt32.toNat_ofNat', Nat.mod_eq_of_lt (h n rfl)]
    show encodeWord (UInt32.ofNat n).toNat = encodeWord n
    rw [hn]

/-- **A location is taken from its spelling** under some presence byte. -/
theorem rest_of_location {r r' : Reader} {l : Location} (h : location r = .ok l r') :
    l.span.Valid ∧ Brief l ∧ ∃ flags : UInt8, flags &&& 0x7F = presenceByte l ∧
      r.rest = spelling flags l ++ r'.rest := by
  obtain ⟨first, r₁, hfirst, h⟩ := exists_of_bind h
  obtain ⟨last, r₂, hlast, h⟩ := exists_of_bind h
  obtain ⟨flags, r₃, hflags, h⟩ := exists_of_bind h
  obtain ⟨tag, r₄, htag, h⟩ := exists_of_bind h
  cases hvpn : Flag.ofTag? tag with
  | none =>
    rw [hvpn] at h
    cases h
  | some vpn =>
    rw [hvpn] at h
    dsimp only at h
    split at h
    · rename_i hspan
      obtain ⟨countryCode, r₅, h₀, h⟩ := exists_of_bind h
      obtain ⟨geonameId, r₆, h₁, h⟩ := exists_of_bind h
      obtain ⟨city, r₇, h₂, h⟩ := exists_of_bind h
      obtain ⟨mostSpecificDivision, r₈, h₃, h⟩ := exists_of_bind h
      obtain ⟨leastSpecificDivision, r₉, h₄, h⟩ := exists_of_bind h
      obtain ⟨postalCode, r₁₀, h₅, h⟩ := exists_of_bind h
      obtain ⟨sourceText, r₁₁, h₆, h⟩ := exists_of_bind h
      obtain ⟨rfl, rfl⟩ := EStateM.Result.ok.inj h
      obtain ⟨b₀, c₀, e₀⟩ := rest_of_field rest_of_string h₀
      obtain ⟨b₁, c₁, e₁⟩ := rest_of_field rest_of_word h₁
      obtain ⟨b₂, c₂, e₂⟩ := rest_of_field rest_of_string h₂
      obtain ⟨b₃, c₃, e₃⟩ := rest_of_field rest_of_string h₃
      obtain ⟨b₄, c₄, e₄⟩ := rest_of_field rest_of_string h₄
      obtain ⟨b₅, c₅, e₅⟩ := rest_of_field rest_of_string h₅
      obtain ⟨b₆, c₆, e₆⟩ := rest_of_field rest_of_string h₆
      refine ⟨hspan, ⟨c₀, c₂, c₃, c₄, c₅, c₆⟩, flags, and_eq_presenceByte_iff.mpr ?_, ?_⟩
      · intro i hi
        match i, hi with
        | 0, _ => exact b₀
        | 1, _ => exact b₁.trans Option.isSome_map.symm
        | 2, _ => exact b₂
        | 3, _ => exact b₃
        | 4, _ => exact b₄
        | 5, _ => exact b₅
        | 6, _ => exact b₆
      · rw [rest_of_address hfirst, rest_of_address hlast, rest_of_byte hflags, rest_of_byte htag,
          e₀, e₁, e₂, e₃, e₄, e₅, e₆, spelling, encodeFields, encodeField_ofNat c₁,
          Flag.tag_of_ofTag? hvpn]
        simp only [List.append_assoc, List.append_nil]
    · cases h

end Read

/-! ## Whole buffers -/

variable {l : Location} {bs : Bytes}

/-- **The buffers that are read as a location** begin with its spelling under a presence byte that
differs from its own in the top bit at most. -/
theorem decodeLocation_eq_ok_iff :
    decodeLocation bs = .ok l ↔ l.span.Valid ∧ Brief l ∧
      ∃ (flags : UInt8) (rest : Bytes), flags &&& 0x7F = presenceByte l ∧
        bs = spelling flags l ++ rest := by
  constructor
  · intro h
    rw [decodeLocation, Read.runOn] at h
    split at h
    · rename_i x r hread
      cases h
      obtain ⟨hspan, hbrief, flags, hflags, hrest⟩ := Read.rest_of_location hread
      exact ⟨hspan, hbrief, flags, r.rest, hflags, hrest⟩
    · cases h
  · rintro ⟨hspan, hbrief, flags, rest, hflags, rfl⟩
    have hread := Read.yields_spelling (and_eq_presenceByte_iff.mp hflags) hspan hbrief
    rw [decodeLocation, hread.runOn rest]
    rfl

/-- What is read as a location holds the addresses of a range. -/
theorem valid_of_decodeLocation (h : decodeLocation bs = .ok l) : l.span.Valid :=
  (decodeLocation_eq_ok_iff.mp h).1

/-- A location is read back whatever follows it. -/
theorem decodeLocation_append (hspan : l.span.Valid) (hbrief : Brief l) (rest : Bytes) :
    decodeLocation (encodeLocation l ++ rest) = .ok l :=
  decodeLocation_eq_ok_iff.mpr ⟨hspan, hbrief, presenceByte l, rest,
    and_eq_presenceByte_iff.mpr fun i _ => testBit_presenceByte l i, by rw [encodeLocation_eq]⟩

/-- **A part of a location is not read**: the walk runs out of bytes. -/
theorem decodeLocation_of_front (hspan : l.span.Valid) (hbrief : Brief l)
    (hfront : bs <+: encodeLocation l) (hne : bs ≠ encodeLocation l) :
    ∃ length offset size, decodeLocation bs = .error (.codec (.overrun length offset size)) := by
  obtain ⟨more, hmore⟩ := hfront
  have hnil : more ≠ [] := by
    rintro rfl
    exact hne (by rw [← hmore, List.append_nil])
  obtain ⟨e, r, hread, length, offset, size, rfl⟩ :=
    (Read.yields_location hspan hbrief).overrun_of_front Read.local_location hmore.symm hnil 0
  refine ⟨length, offset, size, ?_⟩
  rw [decodeLocation, Read.runOn, Reader.start, hread]
  rfl

/-- **A span that is no range is told as such**, before any field is looked at. -/
theorem decodeLocation_of_not_valid (hspan : ¬ l.span.Valid) (rest : Bytes) :
    decodeLocation (encodeLocation l ++ rest) = .error (.invalidRange l.span) := by
  rw [decodeLocation, Read.runOn, Reader.start, encodeLocation_eq, spelling, Read.location]
  simp only [List.append_assoc]
  rw [(Read.yields_address _).bind_apply, (Read.yields_address _).bind_apply,
    (Read.yields_byte _).bind_apply, (Read.yields_byte _).bind_apply, Flag.ofTag?_tag]
  simp only [hspan, if_false]
  rfl

/-- A buffer with the top bit of its presence byte cleared, which stands after two keys. -/
def clearTopBit (s : Span) (bs : Bytes) : Bytes :=
  bs.modify (s.first.family.byteCount + 1 + (s.last.family.byteCount + 1)) (· &&& 0x7F)

theorem clearTopBit_spelling (flags : UInt8) (l : Location) (rest : Bytes) :
    clearTopBit l.span (spelling flags l ++ rest) = spelling (flags &&& 0x7F) l ++ rest := by
  have hlen : l.span.first.family.byteCount + 1 + (l.span.last.family.byteCount + 1) =
      (encodeAddress l.span.first ++ encodeAddress l.span.last).length := by
    rw [List.length_append, length_encodeAddress, length_encodeAddress]
  rw [clearTopBit, hlen, spelling, spelling]
  simp only [← List.append_assoc (encodeAddress l.span.first) (encodeAddress l.span.last)]
  simp only [List.append_assoc (_ ++ _)]
  rw [List.modify_eq_take_drop, List.take_left, List.drop_left]
  rfl

/-- What is read as a location is spelt as it would be written, but for the top bit of its presence
byte. -/
theorem encodeLocation_prefix (h : decodeLocation bs = .ok l) :
    encodeLocation l <+: clearTopBit l.span bs := by
  obtain ⟨-, -, flags, rest, hflags, rfl⟩ := decodeLocation_eq_ok_iff.mp h
  rw [clearTopBit_spelling, hflags, ← encodeLocation_eq]
  exact List.prefix_append _ _

/-- **An address is read from its bytes** and from nothing else, and uses all of them. -/
theorem decodeAddress_eq_ok_iff {a : Address} {n : Nat} :
    decodeAddress bs = .ok (a, n) ↔
      n = 1 + a.family.byteCount ∧ ∃ rest, bs = encodeAddress a ++ rest := by
  have hread : ∀ a' rest, decodeAddress (encodeAddress a' ++ rest) =
      .ok (a', 1 + a'.family.byteCount) := by
    intro a' rest
    rw [decodeAddress, (Read.yields_address a').runOn rest, length_encodeAddress, Nat.add_comm]
  constructor
  · intro h
    have hsplit : ∃ rest, bs = encodeAddress a ++ rest := by
      rw [decodeAddress, Read.runOn] at h
      split at h
      · rename_i x r hx
        cases h
        exact ⟨r.rest, Read.rest_of_address hx⟩
      · cases h
    obtain ⟨rest, rfl⟩ := hsplit
    rw [hread] at h
    cases h
    exact ⟨rfl, rest, rfl⟩
  · rintro ⟨rfl, rest, rfl⟩
    exact hread a rest

/-- **Writing and reading undo each other.**  A location over a range whose strings can be counted
is read back whatever follows it, and of less than all of its bytes nothing is read; one over mixed
or crossed bounds is told as such.  What is read as a location is spelt as it would be written but
for the top bit of the presence byte.  An address is read back with the number of its bytes, and
what is read as one is its bytes. -/
theorem written_and_read :
    (∀ (l : Location) (rest : Bytes), l.span.Valid → Brief l →
      decodeLocation (encodeLocation l ++ rest) = .ok l ∧
      ∀ bs, bs <+: encodeLocation l → bs ≠ encodeLocation l →
        ∃ fault, decodeLocation bs = .error (.codec fault)) ∧
    (∀ (l : Location) (rest : Bytes),
      l.span.last < l.span.first ∨ l.span.first.family ≠ l.span.last.family →
      decodeLocation (encodeLocation l ++ rest) = .error (.invalidRange l.span)) ∧
    (∀ (bs : Bytes) (l : Location), decodeLocation bs = .ok l →
      l.span.Valid ∧ Brief l ∧ encodeLocation l <+: clearTopBit l.span bs) ∧
    (∀ (a : Address) (rest : Bytes),
      decodeAddress (encodeAddress a ++ rest) = .ok (a, 1 + a.family.byteCount)) ∧
    ∀ (bs : Bytes) (a : Address) (n : Nat), decodeAddress bs = .ok (a, n) →
      n ≤ bs.length ∧ bs.take n = encodeAddress a := by
  refine ⟨fun l rest hspan hbrief => ⟨decodeLocation_append hspan hbrief rest, ?_⟩, ?_, ?_, ?_, ?_⟩
  · intro bs hfront hne
    obtain ⟨length, offset, size, h⟩ := decodeLocation_of_front hspan hbrief hfront hne
    exact ⟨_, h⟩
  · rintro l rest hcrossed
    refine decodeLocation_of_not_valid (fun hvalid => ?_) rest
    rcases hcrossed with hlt | hne
    · exact Nat.not_lt_of_le hvalid.2 hlt
    · exact hne hvalid.1
  · intro bs l h
    obtain ⟨hspan, hbrief, -⟩ := decodeLocation_eq_ok_iff.mp h
    exact ⟨hspan, hbrief, encodeLocation_prefix h⟩
  · intro a rest
    exact decodeAddress_eq_ok_iff.mpr ⟨rfl, rest, rfl⟩
  · intro bs a n h
    obtain ⟨rfl, rest, rfl⟩ := decodeAddress_eq_ok_iff.mp h
    have hlen : 1 + a.family.byteCount = (encodeAddress a).length := by
      rw [length_encodeAddress, Nat.add_comm]
    rw [hlen, List.length_append, List.take_left]
    exact ⟨Nat.le_add_right _ _, rfl⟩

/-- A location with an empty country code and a place number: it is read back in front of another
byte and not from its first thirteen bytes; crossing its bounds or setting the top bit of its
presence byte has the effect that is told; and its first address is read back. -/
theorem written_and_read_empty_country :
    ∃ (l : Location) (crossed : Span), l.countryCode = some "" ∧ l.city = none ∧
      decodeLocation (encodeLocation l ++ [0xFF]) = .ok l ∧
      (∃ fault, decodeLocation ((encodeLocation l).take 13) = .error (.codec fault)) ∧
      decodeLocation (encodeLocation (l.rebind crossed)) = .error (.invalidRange crossed) ∧
      decodeLocation (spelling 0x83 l) = .ok l ∧
      encodeLocation l <+: clearTopBit l.span (spelling 0x83 l) ∧
      (encodeAddress l.span.first ++ [9]).take 5 = encodeAddress l.span.first := by
  let four (n : Fin 100) : Address := ⟨.v4, n, Nat.lt_trans n.isLt (by decide)⟩
  let l : Location :=
    { span := ⟨four 10, four 20⟩, countryCode := some "", geonameId := some 7 }
  have hspan : l.span.Valid := by decide
  have hbrief : Brief l := by constructor <;> decide
  obtain ⟨hback, hcrossed, hspelt, haddress, htaken⟩ := written_and_read
  have htop : decodeLocation (spelling 0x83 l) = .ok l :=
    decodeLocation_eq_ok_iff.mpr ⟨hspan, hbrief, 0x83, [], by decide, (List.append_nil _).symm⟩
  refine ⟨l, ⟨four 20, four 10⟩, rfl, rfl, (hback l [0xFF] hspan hbrief).1,
    (hback l [] hspan hbrief).2 _ (List.take_prefix _ _) (by decide), ?_, htop,
    (hspelt _ _ htop).2.2, (htaken _ _ _ (haddress (four 10) [9])).2⟩
  have h := hcrossed (l.rebind ⟨four 20, four 10⟩) [] (Or.inl (by decide))
  rwa [List.append_nil] at h

end Codec

end IpAtlas
