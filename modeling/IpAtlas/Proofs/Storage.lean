import IpAtlas.Storage
import IpAtlas.Proofs.Database
import IpAtlas.Proofs.Disk

/-!
# Drafts and the databases they are frozen to

A draft keeps the entries it is given, in memory or for a file, and the database it is frozen to
holds them.  On disk this goes by way of the file: what was written is read back, and a reader that
accepts the header of an image shows the entries of the image.

## What is here

* `Draft.entries_of_open`, `Draft.entries_append` — the entries of a draft.
* `Index.Reader.shows_of_open` — a reader of a written file.
* `Draft.holds_of_freeze` — the database of a draft.
-/

set_option autoImplicit false

namespace IpAtlas

theorem eq_ok_of_toOption {ε α : Type} {x : Except ε α} {y : α} (h : x.toOption = some y) :
    x = .ok y := by
  cases x with
  | error e => exact nomatch h
  | ok z => exact congrArg Except.ok (Option.some_inj.1 h)

theorem Index.Reader.shows_of_open {disk : Disk} {path : Path} {entries : List Entry}
    {r : Reader} (hmap : disk.map path = .ok (image entries))
    (h : Reader.open disk path = .ok r) : r.Shows entries := by
  rw [Reader.open, hmap] at h
  simp only [ofBytes] at h
  split at h
  · rename_i header hread
    obtain rfl := Except.ok.inj h
    obtain ⟨hheader, hsmall⟩ := Header.eq_of_read_image hread
    exact ⟨rfl, hheader, hsmall⟩
  · exact nomatch h

namespace Draft

theorem entries_of_open {disk disk' : Disk} {storage : Storage} {draft : Draft}
    (h : Draft.open disk storage = (.ok draft, disk')) : draft.entries = [] := by
  cases storage with
  | memory =>
    obtain rfl := Except.ok.inj (Prod.mk.inj h).1
    rfl
  | file path capacity =>
    simp only [Draft.open, Index.Writer.create] at h
    split at h
    · obtain rfl := Except.ok.inj (Prod.mk.inj h).1
      rfl
    · exact nomatch (Prod.mk.inj h).1

@[simp]
theorem entries_append (draft : Draft) (e : Entry) :
    (draft.append e).entries = draft.entries ++ [e] := by
  cases draft with
  | memory ranges => simp [append, entries, Memory.push]
  | file writer capacity => simp [append, entries, Index.Writer.append]

/-- **The database of a draft holds its entries.** -/
theorem holds_of_freeze {draft : Draft} {disk disk' : Disk} {database : Database}
    {remarks : Journal} (h : draft.freeze disk = (.ok database, disk', remarks)) :
    database.Holds draft.entries := by
  cases draft with
  | memory ranges =>
    obtain rfl := Except.ok.inj (Prod.mk.inj h).1
    exact .memory rfl
  | file writer capacity =>
    rw [freeze, Index.Writer.finish] at h
    cases hcomplete : writer.complete disk with
    | error e =>
      rw [hcomplete] at h
      exact nomatch (Prod.mk.inj h).1
    | ok written =>
      rw [hcomplete] at h
      have hopen := (Prod.mk.inj h).1
      cases hreader : Index.Reader.open written writer.path with
      | error e =>
        simp only [hreader] at hopen
        exact nomatch hopen
      | ok reader =>
        simp only [hreader] at hopen
        obtain rfl := Except.ok.inj hopen
        have hmap := Index.Writer.map_of_complete hcomplete
        exact .file ((Index.Reader.shows_of_open hmap hreader).serves_withCache capacity)

end Draft

end IpAtlas
