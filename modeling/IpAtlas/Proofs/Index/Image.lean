import IpAtlas.Index.Image
import Mathlib.Data.List.Basic

/-!
# Where things are in an image

The image of some entries is a header, the records one behind the other, and a slot for every
record.  A place in it is the length of what stands before, so every statement here is about entries
split in three: those before a record, the record, and those after it.

## What is here

* `body`, `table`, `image_eq` — the sections of an image.
* `numberAt_append` — reading a number that was written.
* `numberAt_slot`, `records_from` — the slot of a record leads to the record.
* `Header.read_image`, `Header.eq_of_read_image` — the header of an image tells its sections, and it
  is accepted if and only if the places in it fit their slots.
-/

set_option autoImplicit false

namespace IpAtlas.Index

/-! ## Sections -/

/-- The records of some entries, one behind the other. -/
def body (entries : List Entry) : Bytes := (entries.map encodeEntry).flatten

/-- The header of some entries. -/
def headerOf (entries : List Entry) : Header := ⟨entries.length, headerSize + (body entries).length⟩

/-- The slots of some entries. -/
def table (entries : List Entry) : Bytes :=
  (places headerSize (entries.map encodeEntry)).flatMap encodeSlot

theorem image_eq (entries : List Entry) :
    image entries = (headerOf entries).encode ++ body entries ++ table entries := rfl

theorem body_append (before after : List Entry) :
    body (before ++ after) = body before ++ body after := by
  rw [body, List.map_append, List.flatten_append]
  rfl

theorem body_cons (e : Entry) (after : List Entry) :
    body (e :: after) = encodeEntry e ++ body after :=
  rfl

theorem length_encode (h : Header) : h.encode.length = headerSize := by
  simp only [Header.encode, encodeSlot, List.length_append, Bytes.length_ofNatLE]
  rfl

theorem places_append (start : Nat) (before after : List Bytes) :
    places start (before ++ after) =
      places start before ++ places (start + before.flatten.length) after := by
  induction before generalizing start with
  | nil => rfl
  | cons record before ih =>
    rw [List.cons_append, places, places, ih, List.cons_append, List.flatten_cons,
      List.length_append, Nat.add_assoc]

theorem length_places (start : Nat) (records : List Bytes) :
    (places start records).length = records.length := by
  induction records generalizing start with
  | nil => rfl
  | cons record records ih => rw [places, List.length_cons, ih, List.length_cons]

theorem length_slots (numbers : List Nat) :
    (numbers.flatMap encodeSlot).length = slotSize * numbers.length := by
  induction numbers with
  | nil => rfl
  | cons n numbers ih =>
    rw [List.flatMap_cons, List.length_append, ih, encodeSlot, Bytes.length_ofNatLE,
      List.length_cons, Nat.mul_succ, Nat.add_comm]

theorem length_table (entries : List Entry) :
    (table entries).length = slotSize * entries.length := by
  rw [table, length_slots, length_places, List.length_map]

theorem length_image (entries : List Entry) :
    (image entries).length =
      headerSize + (body entries).length + slotSize * entries.length := by
  rw [image_eq, List.length_append, List.length_append, length_encode, length_table]

/-! ## Numbers -/

/-- A number is read where it was written. -/
theorem numberAt_append (before after : Bytes) (count n : Nat) :
    numberAt (before ++ (Bytes.ofNatLE count n ++ after)) before.length count =
      n % Bytes.capacity count := by
  have hlen := Bytes.length_ofNatLE count n
  rw [numberAt, List.drop_left, List.take_append_of_le_length (by omega),
    List.take_of_length_le (by omega), Bytes.toNatLE_ofNatLE]

/-- **The slot of a record tells where the record begins.** -/
theorem numberAt_slot (before after : List Entry) (e : Entry) :
    numberAt (image (before ++ e :: after))
        ((headerOf (before ++ e :: after)).table + slotSize * before.length) slotSize =
      (headerOf before).table % Bytes.capacity slotSize := by
  have htable : table (before ++ e :: after) = table before ++
      (encodeSlot (headerOf before).table ++
        (places ((headerOf before).table + (encodeEntry e).length)
          (after.map encodeEntry)).flatMap encodeSlot) := by
    rw [table, List.map_append, places_append, List.map_cons, places, List.flatMap_append,
      List.flatMap_cons]
    rfl
  have hplace : (headerOf (before ++ e :: after)).table + slotSize * before.length =
      ((headerOf (before ++ e :: after)).encode ++ body (before ++ e :: after) ++
        table before).length := by
    rw [List.length_append, List.length_append, length_encode, length_table]
    rfl
  rw [image_eq, htable, ← List.append_assoc, hplace]
  exact numberAt_append _ _ _ _

/-- The records from the place of a record on. -/
theorem records_from (before after : List Entry) (e : Entry) :
    ((image (before ++ e :: after)).take (headerOf (before ++ e :: after)).table).drop
      (headerOf before).table = encodeEntry e ++ body after := by
  have hsections : ((headerOf (before ++ e :: after)).encode ++
      body (before ++ e :: after)).length = (headerOf (before ++ e :: after)).table := by
    rw [List.length_append, length_encode]
    rfl
  have hbefore : ((headerOf (before ++ e :: after)).encode ++ body before).length =
      (headerOf before).table := by
    rw [List.length_append, length_encode]
    rfl
  rw [image_eq, List.take_append_of_le_length (Nat.le_of_eq hsections.symm),
    List.take_of_length_le (Nat.le_of_eq hsections), body_append, ← List.append_assoc,
    ← hbefore, List.drop_left, body_cons]

/-! ## The header -/

/-- The numbers in the header of an image, as far as they fit. -/
theorem numberAt_header (entries : List Entry) :
    numberAt (image entries) 16 8 = entries.length % Bytes.capacity 8 ∧
      numberAt (image entries) 32 8 = (headerOf entries).table % Bytes.capacity 8 := by
  have himage : image entries = magic ++ Bytes.ofNatLE 4 version ++ Bytes.ofNatLE 4 0 ++
      (Bytes.ofNatLE 8 entries.length ++ (encodeSlot headerSize ++
        (Bytes.ofNatLE 8 (headerOf entries).table ++ (body entries ++ table entries)))) := by
    rw [image_eq, Header.encode]
    simp only [List.append_assoc]
    rfl
  constructor
  · rw [himage]
    exact numberAt_append (magic ++ Bytes.ofNatLE 4 version ++ Bytes.ofNatLE 4 0) _ 8 _
  · rw [himage, ← List.append_assoc (Bytes.ofNatLE 8 entries.length),
      ← List.append_assoc (magic ++ Bytes.ofNatLE 4 version ++ Bytes.ofNatLE 4 0)]
    exact numberAt_append (magic ++ Bytes.ofNatLE 4 version ++ Bytes.ofNatLE 4 0 ++
      (Bytes.ofNatLE 8 entries.length ++ encodeSlot headerSize)) _ 8 _

/-- The rest of the header of an image: the magic word, the version, and where the records begin. -/
theorem numberAt_format (entries : List Entry) :
    (image entries).take 8 = magic ∧ numberAt (image entries) 8 4 = version ∧
      numberAt (image entries) 24 8 = headerSize := by
  have himage : image entries = magic ++ (Bytes.ofNatLE 4 version ++ (Bytes.ofNatLE 4 0 ++
      (encodeSlot entries.length ++ (Bytes.ofNatLE 8 headerSize ++
        (encodeSlot (headerOf entries).table ++ (body entries ++ table entries)))))) := by
    rw [image_eq, Header.encode]
    simp only [List.append_assoc]
    rfl
  refine ⟨?_, ?_, ?_⟩
  · rw [himage]
    exact List.take_left' rfl
  · rw [himage]
    exact numberAt_append magic _ 4 _
  · rw [himage, ← List.append_assoc magic, ← List.append_assoc (magic ++ _),
      ← List.append_assoc (magic ++ _ ++ _)]
    exact numberAt_append (magic ++ Bytes.ofNatLE 4 version ++ Bytes.ofNatLE 4 0 ++
      encodeSlot entries.length) _ 8 _

/-- A record takes some room. -/
theorem length_le_length_body (entries : List Entry) : entries.length ≤ (body entries).length := by
  induction entries with
  | nil => exact Nat.le_refl _
  | cons e entries ih =>
    rw [body_cons, encodeEntry, Codec.encodeAddress, List.cons_append, List.cons_append,
      List.cons_append, List.cons_append, List.length_cons, List.length_cons, List.length_append]
    omega

/-- An image is accepted if the places in it fit their slots. -/
theorem Header.read_image {entries : List Entry}
    (hsmall : (headerOf entries).table < Bytes.capacity slotSize) :
    Header.read (image entries) = .ok (headerOf entries) := by
  obtain ⟨hmagic, hversion, hrecords⟩ := numberAt_format entries
  obtain ⟨hcount, htable⟩ := numberAt_header entries
  have hsize := length_image entries
  have hle := length_le_length_body entries
  have htab : (headerOf entries).table = headerSize + (body entries).length := rfl
  change (headerOf entries).table < Bytes.capacity 8 at hsmall
  rw [Nat.mod_eq_of_lt (by omega)] at hcount
  rw [Nat.mod_eq_of_lt hsmall] at htable
  rw [Header.read, if_neg (by omega), if_neg (not_not_intro hmagic),
    if_neg (not_not_intro hversion)]
  simp only [hcount, htable, hrecords]
  rw [if_pos ⟨trivial, by omega, by omega⟩]
  rfl

/-- **An image that is accepted tells its sections.**  Its size is compared with numbers that may
have lost their upper bytes, so acceptance also shows that they have not. -/
theorem Header.eq_of_read_image {entries : List Entry} {h : Header}
    (hread : Header.read (image entries) = .ok h) :
    h = headerOf entries ∧ (headerOf entries).table < Bytes.capacity slotSize := by
  obtain ⟨hcount, htable⟩ := numberAt_header entries
  have hsize := length_image entries
  rw [Header.read] at hread
  split at hread
  · exact absurd hread (by simp)
  split at hread
  · exact absurd hread (by simp)
  split at hread
  · exact absurd hread (by simp)
  dsimp only at hread
  split at hread
  · rename_i hsections
    rw [Except.ok.injEq] at hread
    obtain ⟨-, -, hlen⟩ := hsections
    have hcap : Bytes.capacity slotSize = 18446744073709551616 := rfl
    have hcap' : Bytes.capacity 8 = 18446744073709551616 := rfl
    have hslot : slotSize = 8 := rfl
    have htab : (headerOf entries).table = headerSize + (body entries).length := rfl
    rw [hcount, htable, hsize, hslot, hcap'] at hlen
    rw [hcap'] at hcount htable
    have h1 : entries.length % 18446744073709551616 = entries.length := by omega
    have h2 : (headerOf entries).table % 18446744073709551616 = (headerOf entries).table := by omega
    refine ⟨?_, by omega⟩
    rw [← hread, hcount, htable, h1, h2]
    rfl
  · exact absurd hread (by simp)

end IpAtlas.Index
