import IpAtlas.Proofs.Disk.Volume.Spares
import IpAtlas.Proofs.Index.Cached

/-!
# Index files that are mapped into memory

Whoever opens an index file maps the file itself into memory, and reads in it what it holds at the
moment of reading.  Somebody who wrote into the file would be noticed at once.  Somebody who puts
another file in its place is not: the file loses its name, and stays what it is for those who have
it.

## What is here

* `Mapping`, `Mapping.open`, `Mapping.lookup` — a file that is mapped, and lookups in it.
* `Mapping.reader`, `Mapping.map_reader_open`, `Mapping.reader_lookup` — the reader it amounts to.
* `Mapping.content_write` — what is written into the file is read.
-/

set_option autoImplicit false

namespace IpAtlas

namespace Index

/-- An index file that is mapped into memory: the file, what its header said when it was opened, and
what is remembered of it. -/
structure Mapping where
  node : Nat
  header : Header
  cache : Option (Cache Location) := none

namespace Mapping

variable {m : Mapping} {v v' : Volume} {p : Path}

/-- The reader of what the file holds at the moment. -/
def reader (m : Mapping) (v : Volume) : Reader where
  content := (v.node m.node).contents
  header := m.header
  cache := m.cache

/-- Maps the file at a path. -/
def «open» (v : Volume) (p : Path) : Except Error Mapping :=
  match v.map p with
  | .ok node =>
    match Header.read (v.node node).contents with
    | .ok header => .ok { node, header }
    | .error fault => .error (.index fault)
  | .error e => .error (.io e)

/-- The mapping with room for some decoded locations. -/
def withCache (capacity : Nat) (m : Mapping) : Mapping :=
  { m with cache := Cache.empty? capacity }

/-- A lookup, which reads in the file. -/
def lookup (m : Mapping) (v : Volume) (a : Address) : Except Error (Option Location) × Mapping :=
  let (answer, r) := (m.reader v).lookup a
  (answer, { m with cache := r.cache })

/-! ## The reader it amounts to -/

/-- **To map a file is to open it.** -/
theorem map_reader_open (v : Volume) (p : Path) :
    (Mapping.open v p).map (·.reader v) = Reader.open v.disk p := by
  rw [Mapping.open, Reader.open, ← v.disk_map]
  cases v.map p with
  | error e => rfl
  | ok node =>
    dsimp only [Except.map]
    rw [Reader.ofBytes]
    cases Header.read (v.node node).contents <;> rfl

/-- Of a reader nothing but its cache is used up by a lookup. -/
theorem lookup_snd (r : Reader) (a : Address) :
    (r.lookup a).2 = { r with cache := (r.lookup a).2.cache } := by
  rw [Reader.lookup]
  split
  · rfl
  · rfl
  · split
    · rfl
    · split <;> rfl

/-- **A lookup in the file is one of the reader.** -/
theorem reader_lookup (m : Mapping) (v : Volume) (a : Address) :
    (m.lookup v a).2.reader v = ((m.reader v).lookup a).2 := (lookup_snd (m.reader v) a).symm

theorem reader_congr (h : v'.node m.node = v.node m.node) : m.reader v' = m.reader v := by
  rw [reader, reader, h]

/-- **What is written into the file is read.** -/
theorem content_write (h : m.node < v.nodes.length) (contents : Bytes) :
    (m.reader (v.write m.node contents)).content = contents := by
  rw [reader, Volume.node_write h]

/-- The file of a mapping is the one that is at the path when it is opened. -/
theorem holds_of_open (h : Mapping.open v p = .ok m) : v.Holds p m.node := by
  rw [Mapping.open] at h
  split at h
  · rename_i node hmap
    split at h
    · obtain rfl := Except.ok.inj h
      obtain ⟨place, hfollow, hmap⟩ := exists_of_bind_eq_ok hmap
      rcases place with _ | names
      · exact nomatch hmap
      dsimp only at hmap
      split at hmap
      · rename_i n hlink
        obtain rfl := Except.ok.inj hmap
        exact ⟨names, hfollow, hlink⟩
      · exact nomatch hmap
      · exact nomatch hmap
    · exact nomatch h
  · exact nomatch h

end Mapping

end Index

end IpAtlas
