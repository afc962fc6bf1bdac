import IpAtlas.Codec
import Mathlib.Algebra.Group.Nat.Defs
import Mathlib.Data.List.Basic

/-!
# Reading back what was written

Writing appends one field to the next, and reading takes one field after the other.  The two meet in
`Read.Yields`: a step yields a value for some bytes if it takes exactly these bytes, at any place of
any buffer, and gives the value.  Steps that yield compose just as bytes are appended, so the
reading of a location follows its writing field by field.

## What is here

* `Read.Yields`, `Read.Yields.bind` — the bytes of a step, and of two steps.
* `Brief` — a location none of whose strings is too long for its length field.
* `spelling`, `encodeLocation_eq` — the bytes of a location in the order they are read.
* `Read.yields_address`, `Read.yields_string`, `Read.yields_field` — the parts.
* `Read.yields_location`, `decodeLocation_encodeLocation` — a location whose span is a range and
  whose strings can be counted is read back.
* `Read.Steady`, `Read.Yields.of_front` — steps that do not look ahead give the same on a front of
  their bytes as on all of them, if anything.
* `Read.span_of_location` — whatever a front of the bytes of a location is read as has its span.
-/

set_option autoImplicit false

namespace IpAtlas

theorem Flag.ofTag?_tag (flag : Flag) : Flag.ofTag? flag.tag = some flag := by
  cases flag <;> rfl

theorem Utf8.decode_encode (s : String) : Utf8.decode (Utf8.encode s) = .ok s := by
  have hs : String.fromUTF8? ⟨(Utf8.encode s).toArray⟩ = some s := by
    rw [String.fromUTF8?, Utf8.encode, Array.toArray_toList, dif_pos s.isValidUTF8]
    rfl
  rw [Utf8.decode, hs]

namespace Codec

/-! ## Presence bits -/

theorem packBits_lt (bits : List Bool) : packBits bits < 2 ^ bits.length := by
  induction bits with
  | nil => simp [packBits]
  | cons b bits ih =>
    have := Bool.toNat_le b
    rw [packBits, List.length_cons, Nat.pow_succ]
    omega

theorem testBit_packBits (bits : List Bool) (i : Nat) :
    (packBits bits).testBit i = bits.getD i false := by
  induction bits generalizing i with
  | nil => simp [packBits]
  | cons b bits ih =>
    have hb := Bool.toNat_le b
    rw [packBits]
    cases i with
    | zero => cases b <;> simp [Nat.testBit_zero, Nat.add_mod]
    | succ i =>
      rw [Nat.testBit_succ, show (b.toNat + 2 * packBits bits) / 2 = packBits bits by omega, ih,
        List.getD_cons_succ]

/-- The presence byte of a location. -/
def presenceByte (l : Location) : UInt8 := UInt8.ofNat (packBits (presence l))

theorem testBit_presenceByte (l : Location) (i : Nat) :
    (presenceByte l).toNat.testBit i = (presence l).getD i false := by
  have h : packBits (presence l) < 128 := packBits_lt (presence l)
  rw [presenceByte, UInt8.toNat_ofNat', Nat.mod_eq_of_lt (by omega), testBit_packBits]

/-! ## The bytes of a location -/

theorem length_encodeAddress (a : Address) : (encodeAddress a).length = a.family.byteCount + 1 := by
  rw [encodeAddress, List.length_cons, Address.length_bytes]

/-- A string whose length fits the four bytes in front of it. -/
def Countable (s : String) : Prop := (Utf8.encode s).length < 2 ^ 32

instance (s : String) : Decidable (Countable s) :=
  inferInstanceAs (Decidable ((Utf8.encode s).length < 2 ^ 32))

/-- A location whose strings can all be counted. -/
structure Brief (l : Location) : Prop where
  countryCode : ∀ s ∈ l.countryCode, Countable s
  city : ∀ s ∈ l.city, Countable s
  mostSpecificDivision : ∀ s ∈ l.mostSpecificDivision, Countable s
  leastSpecificDivision : ∀ s ∈ l.leastSpecificDivision, Countable s
  postalCode : ∀ s ∈ l.postalCode, Countable s
  sourceText : ∀ s ∈ l.sourceText, Countable s

/-- The fields of a location, appended from the right as they are read. -/
def encodeFields (l : Location) : Bytes :=
  encodeField encodeString l.countryCode ++
    (encodeField (fun n => encodeWord n.toNat) l.geonameId ++
      (encodeField encodeString l.city ++
        (encodeField encodeString l.mostSpecificDivision ++
          (encodeField encodeString l.leastSpecificDivision ++
            (encodeField encodeString l.postalCode ++
              (encodeField encodeString l.sourceText ++ []))))))

/-- The bytes of a location under a presence byte that may not be its own. -/
def spelling (flags : UInt8) (l : Location) : Bytes :=
  encodeAddress l.span.first ++ (encodeAddress l.span.last ++
    ([flags] ++ ([l.vpn.tag] ++ encodeFields l)))

theorem encodeLocation_eq (l : Location) : encodeLocation l = spelling (presenceByte l) l := by
  simp only [encodeLocation, spelling, encodeFields, presenceByte, List.append_assoc,
    List.append_nil, List.cons_append, List.nil_append]

/-- The strings of a location that is short enough as a whole can be counted. -/
theorem Brief.of_length {l : Location} (h : (encodeLocation l).length < 2 ^ 32) : Brief l := by
  have hcount : ∀ field : Option String,
      (encodeField encodeString field).length ≤ (encodeLocation l).length →
      ∀ s ∈ field, Countable s := by
    intro field hle s hs
    rw [Option.mem_def.mp hs, encodeField, encodeString, List.length_append] at hle
    exact Nat.lt_of_le_of_lt (Nat.le_of_add_left_le hle) h
  have hlen := congrArg List.length (encodeLocation_eq l)
  simp only [spelling, encodeFields, List.length_append] at hlen
  constructor <;> exact hcount _ (by omega)

namespace Read

variable {α β : Type}

/-! ## Steps that yield -/

/-- A step takes exactly these bytes, wherever they stand and whatever follows, and gives `x`. -/
def Yields (read : Read α) (bs : Bytes) (x : α) : Prop :=
  ∀ position rest, read ⟨position, bs ++ rest⟩ = .ok x ⟨position + bs.length, rest⟩

theorem yields_pure (x : α) : Yields (pure x) [] x := fun _ _ => rfl

/-- The walk goes on behind the bytes of its first step. -/
theorem Yields.bind_apply {read : Read α} {next : α → Read β} {bs : Bytes} {x : α}
    (hx : Yields read bs x) (position : Nat) (rest : Bytes) :
    (read >>= next) ⟨position, bs ++ rest⟩ = next x ⟨position + bs.length, rest⟩ := by
  show EStateM.bind read next _ = _
  rw [EStateM.bind, hx]

/-- **Two steps take the bytes of both.** -/
theorem Yields.bind {read : Read α} {next : α → Read β} {bs cs : Bytes} {x : α} {y : β}
    (hx : Yields read bs x) (hy : Yields (next x) cs y) : Yields (read >>= next) (bs ++ cs) y := by
  intro position rest
  rw [List.append_assoc, hx.bind_apply, hy, List.length_append, Nat.add_assoc]

/-- A step after which nothing more is taken. -/
theorem Yields.last {read : Read α} {next : α → Read β} {bs : Bytes} {x : α} {y : β}
    (hx : Yields read bs x) (hy : Yields (next x) [] y) : Yields (read >>= next) bs y := by
  have := hx.bind hy
  rwa [List.append_nil] at this

theorem Yields.map {read : Read α} {bs : Bytes} {x : α} (f : α → β) (h : Yields read bs x) :
    Yields (f <$> read) bs (f x) := by
  intro position rest
  show EStateM.map f read _ = _
  rw [EStateM.map, h]

theorem Yields.seqRight {first : Read α} {second : Read β} {bs cs : Bytes} {x : α} {y : β}
    (hx : Yields first bs x) (hy : Yields second cs y) : Yields (first *> second) (bs ++ cs) y :=
  hx.bind hy

theorem Yields.runOn {read : Read α} {bs : Bytes} {x : α} (h : Yields read bs x) (rest : Bytes) :
    read.runOn (bs ++ rest) = .ok (x, bs.length) := by
  rw [Read.runOn, Reader.start, h]
  simp

/-! ## The parts of a location -/

theorem yields_take {count : Nat} {bs : Bytes} (h : bs.length = count) :
    Yields (take count) bs bs := by
  intro position rest
  subst h
  rw [take, if_pos (by simp)]
  simp

theorem yields_byte (b : UInt8) : Yields byte [b] b := fun _ _ => rfl

/-- A number is read back as far as four bytes hold it. -/
theorem yields_word_mod (n : Nat) : Yields word (encodeWord n) (n % Bytes.capacity 4) := by
  refine (yields_take (Bytes.length_ofNatLE 4 n)).last ?_
  rw [Bytes.toNatLE_ofNatLE]
  exact yields_pure _

theorem yields_word {n : Nat} (h : n < 2 ^ 32) : Yields word (encodeWord n) n := by
  have hword := yields_word_mod n
  have hmod : n % Bytes.capacity 4 = n := Nat.mod_eq_of_lt h
  rwa [hmod] at hword

theorem yields_address (a : Address) : Yields address (encodeAddress a) a := by
  have hlen : (UInt8.ofNat a.family.byteCount).toNat = a.family.byteCount := by
    cases a.family <;> rfl
  have hcount : a.family.byteCount = 4 ∨ a.family.byteCount = 16 := by
    cases a.family
    · exact Or.inl rfl
    · exact Or.inr rfl
  refine (yields_byte _).bind ?_
  rw [hlen, if_pos hcount]
  refine (yields_take a.length_bytes).last ?_
  rw [Address.ofBytes?_bytes]
  exact yields_pure a

theorem yields_string {s : String} (h : Countable s) : Yields string (encodeString s) s := by
  refine (yields_word h).bind ?_
  refine (yields_take rfl).last ?_
  rw [Utf8.decode_encode]
  exact yields_pure s

/-- A field is read if and only if it was written. -/
theorem yields_field {γ : Type} {flags : UInt8} {bit : Nat} {read : Read β} {encode : γ → Bytes}
    {value : γ → β} {field : Option γ} (hbit : flags.toNat.testBit bit = field.isSome)
    (h : ∀ x, field = some x → Yields read (encode x) (value x)) :
    Yields (Read.field flags bit read) (encodeField encode field) (field.map value) := by
  rw [Read.field, hbit]
  cases field with
  | none => exact yields_pure none
  | some x => exact (h x rfl).map some

/-! ## Locations -/

/-- A location is read from its bytes under any presence byte that has its seven bits. -/
theorem yields_spelling {flags : UInt8} {l : Location}
    (hflags : ∀ i < 7, flags.toNat.testBit i = (presence l).getD i false) (hspan : l.span.Valid)
    (hbrief : Brief l) : Yields location (spelling flags l) l := by
  have htext : ∀ {bit : Nat} {field : Option String}, bit < 7 →
      (presence l).getD bit false = field.isSome → (∀ s ∈ field, Countable s) →
      Yields (Read.field flags bit string) (encodeField encodeString field) field := by
    intro bit field hlt hb hcount
    have hfield : Yields (Read.field flags bit string) (encodeField encodeString field)
        (field.map id) :=
      yields_field ((hflags bit hlt).trans hb) fun s hs => yields_string (hcount s hs)
    rwa [Option.map_id_fun] at hfield
  have hword : Yields (Read.field flags 1 word)
      (encodeField (fun n => encodeWord n.toNat) l.geonameId) (l.geonameId.map UInt32.toNat) :=
    yields_field (hflags 1 (by decide)) fun n _ => yields_word n.toNat_lt
  refine (yields_address _).bind ((yields_address _).bind ((yields_byte _).bind
    ((yields_byte _).bind ?_)))
  rw [Flag.ofTag?_tag]
  simp only [hspan]
  refine (htext (by decide) rfl hbrief.countryCode).bind (hword.bind
    ((htext (by decide) rfl hbrief.city).bind
      ((htext (by decide) rfl hbrief.mostSpecificDivision).bind
        ((htext (by decide) rfl hbrief.leastSpecificDivision).bind
          ((htext (by decide) rfl hbrief.postalCode).bind
            ((htext (by decide) rfl hbrief.sourceText).bind ?_))))))
  have hid : (l.geonameId.map UInt32.toNat).map UInt32.ofNat = l.geonameId := by
    cases l.geonameId <;> simp
  rw [hid]
  exact yields_pure l

/-- **A location is read back** if its span is a range and its strings can be counted. -/
theorem yields_location {l : Location} (hspan : l.span.Valid) (hbrief : Brief l) :
    Yields location (encodeLocation l) l := by
  rw [encodeLocation_eq]
  exact yields_spelling (fun i _ => testBit_presenceByte l i) hspan hbrief

/-! ## Steps that do not look ahead -/

/-- A step that succeeds does so whatever more there is to read, which it leaves. -/
def Steady (read : Read α) : Prop :=
  ∀ position bs x r, read ⟨position, bs⟩ = .ok x r →
    ∀ more, read ⟨position, bs ++ more⟩ = .ok x ⟨r.position, r.rest ++ more⟩

theorem exists_of_bind {read : Read α} {next : α → Read β} {r r' : Reader} {y : β}
    (h : (read >>= next) r = .ok y r') : ∃ x r₁, read r = .ok x r₁ ∧ next x r₁ = .ok y r' := by
  change EStateM.bind read next r = _ at h
  rw [EStateM.bind] at h
  split at h
  · rename_i x r₁ hx
    exact ⟨x, r₁, hx, h⟩
  · exact nomatch h

theorem steady_pure (x : α) : Steady (pure x : Read α) := by
  intro position bs y r h more
  obtain ⟨rfl, rfl⟩ := EStateM.Result.ok.inj h
  rfl

theorem steady_throw (e : Error) : Steady (throw e : Read α) := fun _ _ _ _ h => nomatch h

theorem steady_take (count : Nat) : Steady (take count) := by
  intro position bs x r h more
  rw [take] at h ⊢
  split at h
  · rename_i hle
    obtain ⟨rfl, rfl⟩ := EStateM.Result.ok.inj h
    rw [if_pos (by rw [List.length_append]; exact Nat.le_add_right_of_le hle),
      List.take_append_of_le_length hle, List.drop_append_of_le_length hle]
  · exact nomatch h

theorem steady_byte : Steady byte := by
  intro position bs x r h more
  cases bs with
  | nil => exact nomatch h
  | cons b rest =>
    obtain ⟨rfl, rfl⟩ := EStateM.Result.ok.inj h
    rfl

theorem Steady.bind {read : Read α} {next : α → Read β} (h : Steady read)
    (hnext : ∀ x, Steady (next x)) : Steady (read >>= next) := by
  intro position bs y r hread more
  obtain ⟨x, r₁, hx, hy⟩ := exists_of_bind hread
  change EStateM.bind read next _ = _
  rw [EStateM.bind, h _ _ _ _ hx more]
  exact hnext x _ _ _ _ hy more

theorem steady_address : Steady address := by
  refine steady_byte.bind fun length => ?_
  dsimp only
  split
  · refine (steady_take _).bind fun bytes => ?_
    split
    · exact steady_pure _
    · exact steady_throw _
  · exact steady_throw _

/-- A step that succeeds on the front of what it takes elsewhere gives the same there. -/
theorem Yields.of_front {read : Read α} {bs rest cs more : Bytes} {x y : α} {position : Nat}
    {r : Reader} (h : Yields read bs x) (hsteady : Steady read) (hsplit : bs ++ rest = cs ++ more)
    (hread : read ⟨position, cs⟩ = .ok y r) : y = x ∧ rest = r.rest ++ more := by
  have hmore := hsteady _ _ _ _ hread more
  rw [← hsplit, h] at hmore
  obtain ⟨rfl, hr⟩ := EStateM.Result.ok.inj hmore
  exact ⟨rfl, congrArg Reader.rest hr⟩

/-- The span of a location is read from the front of its bytes, however many of them there are. -/
theorem span_of_location {l l' : Location} {cs more : Bytes} {position : Nat} {r : Reader}
    (hsplit : encodeLocation l = cs ++ more) (h : location ⟨position, cs⟩ = .ok l' r) :
    l'.span = l.span := by
  rw [encodeLocation_eq, spelling] at hsplit
  obtain ⟨first, r₁, hfirst, h⟩ := exists_of_bind h
  obtain ⟨rfl, hrest⟩ := (yields_address _).of_front steady_address hsplit hfirst
  obtain ⟨last, r₂, hlast, h⟩ := exists_of_bind h
  obtain ⟨rfl, -⟩ := (yields_address _).of_front steady_address hrest hlast
  obtain ⟨flags, r₃, -, h⟩ := exists_of_bind h
  obtain ⟨tag, r₄, -, h⟩ := exists_of_bind h
  cases hvpn : Flag.ofTag? tag with
  | none =>
    rw [hvpn] at h
    exact nomatch h
  | some vpn =>
    rw [hvpn] at h
    dsimp only at h
    split at h
    · iterate 7 obtain ⟨_, _, -, h⟩ := exists_of_bind h
      obtain ⟨rfl, -⟩ := EStateM.Result.ok.inj h
      rfl
    · exact nomatch h

end Read

theorem decodeLocation_encodeLocation {l : Location} (hspan : l.span.Valid)
    (hlen : (encodeLocation l).length < 2 ^ 32) : decodeLocation (encodeLocation l) = .ok l := by
  have h := (Read.yields_location hspan (Brief.of_length hlen)).runOn []
  rw [List.append_nil] at h
  rw [decodeLocation, h]
  rfl

/-- How long a location is does not depend on its flag, and on its span only by the families. -/
theorem length_encodeLocation_eq {l l' : Location}
    (hfirst : l'.span.first.family = l.span.first.family)
    (hlast : l'.span.last.family = l.span.last.family)
    (hrest : l' = { l with span := l'.span, vpn := l'.vpn }) :
    (encodeLocation l').length = (encodeLocation l).length := by
  rw [hrest]
  simp only [encodeLocation, List.length_append, length_encodeAddress, hfirst, hlast]
  rfl

end Codec

end IpAtlas
