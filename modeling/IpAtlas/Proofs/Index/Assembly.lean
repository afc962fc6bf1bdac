import IpAtlas.Proofs.Index.Image
import Mathlib.Data.List.Induction

/-!
# An image as it is written

The image of some entries is said in one go, but a writer is given the entries one by one and keeps
no more of them than two places: where the next record will begin, and how many there are.  It
leaves room for the header, puts one record behind the other, and notes in a second file where each
of them begins.  The length of a location stands before the location and is known only behind it, so
it is written over four bytes that were kept for it.  At the end the second file is appended, and the
header is written over the room that was left.

None of these places is read back by the writer, so one that is off by a byte would go unnoticed.
They are right: what is put together like this is the image.

## What is here

* `Bytes.overwrite_room` — writing over a room that was kept.
* `Assembly`, `Assembly.append`, `Assembly.finish` — a file that is being written.
* `Assembly.foldl_append` — what is written after any number of entries.
* `Assembly.finish_foldl_append` — the whole file is the image.
-/

set_option autoImplicit false

namespace IpAtlas

/-- What is written over a room of its size takes the place of the room. -/
theorem Bytes.overwrite_room (before after : Bytes) {patch room : Bytes}
    (h : patch.length = room.length) :
    Bytes.overwrite before.length patch (before ++ (room ++ after)) = before ++ (patch ++ after) := by
  have hpad : before.length - (before ++ (room ++ after)).length = 0 := by
    rw [List.length_append]
    omega
  rw [overwrite, hpad, List.replicate_zero, List.append_nil, List.take_left, h, ← List.drop_drop,
    List.drop_left, List.drop_left, List.append_assoc]

namespace Index

/-- A file that is being written. -/
structure Assembly where
  /-- The room for the header, and the records behind it. -/
  records : Bytes := List.replicate headerSize 0
  /-- The second file: where each record begins. -/
  slots : Bytes := []
  /-- Where the next record will begin. -/
  position : Nat := headerSize
  /-- How many records there are. -/
  count : Nat := 0

namespace Assembly

/-- A record, whose length was written over the room that was kept for it. -/
def record (e : Entry) : Bytes :=
  let keys := Codec.encodeAddress e.span.first ++ Codec.encodeAddress e.span.last
  let draft := keys ++ (List.replicate 4 0 ++ Codec.encodeLocation e.location)
  Bytes.overwrite keys.length (Codec.encodeWord (draft.length - keys.length - 4)) draft

/-- The file with one more record. -/
def append (a : Assembly) (e : Entry) : Assembly where
  records := a.records ++ record e
  slots := a.slots ++ encodeSlot a.position
  position := a.position + (record e).length
  count := a.count + 1

/-- The whole file: the second one is appended, and the header takes its place. -/
def finish (a : Assembly) : Bytes :=
  Bytes.overwrite 0 (Header.encode ⟨a.count, a.position⟩) (a.records ++ a.slots)

/-- **A record is right though its length is written last.** -/
theorem record_eq (e : Entry) : record e = encodeEntry e := by
  have hroom : ∀ n, (Codec.encodeWord n).length = (List.replicate 4 (0 : UInt8)).length :=
    fun n => Bytes.length_ofNatLE 4 n
  simp only [record]
  rw [Bytes.overwrite_room _ _ (hroom _)]
  simp only [encodeEntry, List.length_append, List.length_replicate, List.append_assoc]
  congr 4
  omega

/-- **What is written after any number of entries**: their records in order, and the places where
they begin. -/
theorem foldl_append (entries : List Entry) :
    entries.foldl append {} =
      { records := List.replicate headerSize 0 ++ body entries
        slots := table entries
        position := (headerOf entries).table
        count := entries.length } := by
  -- from the last entry: the place noted for it is the end of those before
  induction entries using List.reverseRecOn with
  | nil => rfl
  | append_singleton entries e ih =>
    have hslots : table (entries ++ [e]) = table entries ++ encodeSlot (headerOf entries).table := by
      rw [table, List.map_append, places_append, List.flatMap_append]
      exact congrArg _ (List.append_nil _)
    have hbody : body (entries ++ [e]) = body entries ++ encodeEntry e := by
      rw [body_append, body_cons]
      exact congrArg _ (List.append_nil _)
    rw [List.foldl_append, ih, List.foldl_cons, List.foldl_nil, append, record_eq, hslots, hbody,
      List.length_append, List.append_assoc]
    simp only [headerOf, hbody, List.length_append, Nat.add_assoc]
    rfl

/-- **What is put together like this is the image.** -/
theorem finish_foldl_append (entries : List Entry) :
    (entries.foldl append {}).finish = image entries := by
  have hroom : (headerOf entries).encode.length = (List.replicate headerSize (0 : UInt8)).length := by
    rw [length_encode, List.length_replicate]
  have hwritten := Bytes.overwrite_room [] (body entries ++ table entries) hroom
  rw [List.nil_append, List.nil_append, List.length_nil] at hwritten
  rw [foldl_append, finish, image_eq, List.append_assoc, List.append_assoc]
  exact hwritten

end Assembly

end Index

end IpAtlas
