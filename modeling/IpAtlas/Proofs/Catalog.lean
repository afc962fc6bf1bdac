import IpAtlas.Catalog
import IpAtlas.Proofs.Path
import Mathlib.Data.List.Nodup

/-!
# Registrations that are rejected

Before anything is read, a catalogue compares the index file of every registration with those of the
registrations before it.  It compares how their paths are spelled.  Two line sources with one index
file are rejected if the two paths have the same components, which is all there is to it for straight
paths that start at the same place.  But `ranges.idx` and `./ranges.idx` are one file, and pass.

## What is here

* `Registration.SpelledApart`, `Registration.FilesApart` — index files that do not look the same, and
  that are not.
* `Registration.conflict?_eq_none_iff_compatible` — when nothing is wrong with registrations.
* `Registration.exists_fault_of_conflict?` — what is wrong otherwise.
* `Catalog.build_sharedIndex` — which registrations are rejected, and how.
* `Catalog.build_sharedIndex_dot` — some that should be and are not.
-/

set_option autoImplicit false

namespace IpAtlas

namespace Registration

variable {σ : Type} {earlier registrations : List (Registration σ)} {r s : Registration σ}

/-- No two paths of index files that the registrations write have the same components. -/
def SpelledApart (r s : Registration σ) : Prop :=
  ∀ p ∈ r.indexPath?, ∀ q ∈ s.indexPath?, ¬ p.same q = true

/-- No two paths of index files that the registrations write lead to the same names. -/
def FilesApart (cwd : List String) (r s : Registration σ) : Prop :=
  ∀ p ∈ r.indexPath?, ∀ q ∈ s.indexPath?, p.resolve cwd ≠ q.resolve cwd

/-- Files that are not the same never look so. -/
theorem FilesApart.spelledApart {cwd : List String} (h : r.FilesApart cwd s) : r.SpelledApart s := by
  intro p hp q hq hsame
  exact h p hp q hq (Path.resolve_eq_of_same hsame cwd)

/-- Registrations that may stand together: of two providers, with index files that do not look the
same. -/
structure Compatible (r s : Registration σ) : Prop where
  providers : r.provider ≠ s.provider
  spelled : r.SpelledApart s

/-- What is wrong with a registration after earlier ones: its provider is that of one of them, or
else its index file looks the same as that of one of them. -/
inductive Fault (earlier : List (Registration σ)) (s : Registration σ) : Error → Prop where
  | duplicate {r : Registration σ} (hr : r ∈ earlier) (h : r.provider = s.provider) :
      Fault earlier s (.duplicateProvider s.provider)
  | shared {r : Registration σ} {p q : Path} (hkey : ∀ r ∈ earlier, r.provider ≠ s.provider)
      (hr : r ∈ earlier) (hp : r.indexPath? = some p) (hq : s.indexPath? = some q)
      (h : p.same q = true) :
      Fault earlier s (.config (.sharedIndex r.provider s.provider q))

/-! ## One registration after others -/

theorem owner?_eq_none_iff {q : Path} :
    owner? earlier q = none ↔ ∀ r ∈ earlier, ∀ p ∈ r.indexPath?, ¬ p.same q = true := by
  simp only [owner?, List.find?_eq_none, Option.any_eq_true, not_exists, not_and,
    Path.same_comm q, Option.mem_def]

theorem any_provider_iff :
    earlier.any (·.provider = s.provider) = true ↔ ∃ r ∈ earlier, r.provider = s.provider := by
  simp only [List.any_eq_true, decide_eq_true_eq]

/-- The error for a registration of a provider that was not registered before. -/
theorem fault?_eq (hkey : ∀ r ∈ earlier, r.provider ≠ s.provider) :
    s.fault? earlier = s.indexPath?.bind fun q => (owner? earlier q).map fun owner =>
      .config (.sharedIndex owner.provider s.provider q) := by
  rw [fault?, if_neg fun hany => ?_]
  · cases s.indexPath? with
    | none => rfl
    | some q => cases howner : owner? earlier q <;> simp [howner]
  · obtain ⟨r, hr, heq⟩ := any_provider_iff.1 hany
    exact hkey r hr heq

theorem fault?_eq_none_iff : s.fault? earlier = none ↔ ∀ r ∈ earlier, r.Compatible s := by
  by_cases hany : ∃ r ∈ earlier, r.provider = s.provider
  · obtain ⟨r, hr, heq⟩ := hany
    rw [fault?, if_pos (any_provider_iff.2 ⟨r, hr, heq⟩)]
    exact iff_of_false (Option.some_ne_none _) fun hall => (hall r hr).providers heq
  · have hkey : ∀ r ∈ earlier, r.provider ≠ s.provider := fun r hr heq => hany ⟨r, hr, heq⟩
    rw [fault?_eq hkey]
    simp only [Option.bind_eq_none_iff, Option.map_eq_none_iff, owner?_eq_none_iff]
    constructor
    · exact fun h r hr => ⟨hkey r hr, fun p hp q hq => h q hq r hr p hp⟩
    · exact fun h q hq r hr p hp => (h r hr).spelled p hp q hq

theorem fault_of_fault? {e : Error} (h : s.fault? earlier = some e) : Fault earlier s e := by
  by_cases hkeys : ∃ r ∈ earlier, r.provider = s.provider
  · obtain ⟨r, hr, heq⟩ := hkeys
    rw [fault?, if_pos (any_provider_iff.2 ⟨r, hr, heq⟩)] at h
    obtain rfl := Option.some_inj.1 h
    exact .duplicate hr heq
  · have hkey : ∀ r ∈ earlier, r.provider ≠ s.provider := fun r hr heq => hkeys ⟨r, hr, heq⟩
    rw [fault?_eq hkey] at h
    obtain ⟨q, hq, h⟩ := Option.bind_eq_some_iff.1 h
    obtain ⟨owner, howner, rfl⟩ := Option.map_eq_some_iff.1 h
    rw [owner?] at howner
    have hany := List.find?_some howner
    obtain ⟨p, hp, hsame⟩ := (Option.any_eq_true _ _).1 hany
    rw [Path.same_comm] at hsame
    exact .shared hkey (List.mem_of_find?_eq_some howner) hp hq hsame

/-! ## All registrations -/

/-- **When nothing is wrong** with registrations. -/
theorem conflict?_eq_none_iff_compatible (hearlier : earlier.Pairwise Compatible) :
    conflict? earlier registrations = none ↔ (earlier ++ registrations).Pairwise Compatible := by
  induction registrations generalizing earlier with
  | nil => simpa [conflict?] using hearlier
  | cons s registrations ih =>
    rw [conflict?, Option.or_eq_none_iff, fault?_eq_none_iff]
    have hcat : earlier ++ s :: registrations = (earlier ++ [s]) ++ registrations := by simp
    rw [hcat]
    constructor
    · rintro ⟨hs, hrest⟩
      refine (ih ?_).1 hrest
      exact List.pairwise_append.2 ⟨hearlier, List.pairwise_singleton _ _, by simpa using hs⟩
    · intro hall
      have hfront := (List.pairwise_append.1 hall).1
      exact ⟨by simpa using (List.pairwise_append.1 hfront).2.2, (ih hfront).2 hall⟩

/-- **What is wrong otherwise** is wrong with one of them, and nothing with those before it. -/
theorem exists_fault_of_conflict? {e : Error} (h : conflict? earlier registrations = some e) :
    ∃ before s after, registrations = before ++ s :: after ∧ conflict? earlier before = none ∧
      Fault (earlier ++ before) s e := by
  induction registrations generalizing earlier with
  | nil => exact nomatch h
  | cons s registrations ih =>
    rw [conflict?, Option.or_eq_some_iff] at h
    rcases h with h | ⟨hnone, h⟩
    · refine ⟨[], s, registrations, rfl, rfl, ?_⟩
      rw [List.append_nil]
      exact fault_of_fault? h
    · obtain ⟨before, t, after, rfl, hbefore, hfault⟩ := ih h
      rw [List.append_assoc, List.singleton_append] at hfault
      exact ⟨s :: before, t, after, rfl, Option.or_eq_none_iff.2 ⟨hnone, hbefore⟩, hfault⟩

/-! ## Registrations of distinct providers -/

/-- They may stand together if their index files do not look the same. -/
theorem pairwise_compatible_iff (hkeys : (registrations.map Registration.provider).Nodup) :
    registrations.Pairwise Compatible ↔ registrations.Pairwise SpelledApart := by
  refine ⟨List.Pairwise.imp Compatible.spelled, fun hapart => ?_⟩
  exact ((List.pairwise_map.1 hkeys).and hapart).imp fun h => ⟨h.1, h.2⟩

theorem provider_ne_of_nodup
    (hkeys : ((earlier ++ s :: registrations).map Registration.provider).Nodup) :
    ∀ r ∈ earlier, r.provider ≠ s.provider := by
  intro r hr heq
  rw [List.map_append, List.map_cons] at hkeys
  exact (List.nodup_append.1 hkeys).2.2 r.provider (List.mem_map_of_mem hr) s.provider (by simp) heq

theorem nodup_earlier (hkeys : ((earlier ++ registrations).map Registration.provider).Nodup) :
    (earlier.map Registration.provider).Nodup := by
  rw [List.map_append] at hkeys
  exact (List.nodup_append.1 hkeys).1

theorem conflict?_eq_none_iff (earlier : List (Registration σ))
    (hkeys : ((earlier ++ registrations).map Registration.provider).Nodup)
    (hearlier : earlier.Pairwise SpelledApart) :
    conflict? earlier registrations = none ↔ (earlier ++ registrations).Pairwise SpelledApart := by
  have hcompatible := (pairwise_compatible_iff (nodup_earlier hkeys)).2 hearlier
  rw [conflict?_eq_none_iff_compatible hcompatible, pairwise_compatible_iff hkeys]

/-- What is wrong with them otherwise: a registration writes the index file of an earlier one. -/
theorem exists_of_conflict? (earlier : List (Registration σ))
    (hkeys : ((earlier ++ registrations).map Registration.provider).Nodup) {e : Error}
    (h : conflict? earlier registrations = some e) : ∃ before s after q owner,
      registrations = before ++ s :: after ∧ s.indexPath? = some q ∧ owner ∈ earlier ++ before ∧
      (∃ p ∈ owner.indexPath?, p.same q = true) ∧
      e = .config (.sharedIndex owner.provider s.provider q) := by
  obtain ⟨before, s, after, rfl, -, hfault⟩ := exists_fault_of_conflict? h
  cases hfault with
  | duplicate hr heq =>
    rw [← List.append_assoc] at hkeys
    exact absurd heq (provider_ne_of_nodup hkeys _ hr)
  | shared _ hr hp hq hsame => exact ⟨before, s, after, _, _, rfl, hq, hr, ⟨_, hp, hsame⟩, rfl⟩

end Registration

namespace Catalog

open Registration

variable {σ : Type}

/-- **Which registrations are rejected for an index file they share.**  Of distinct providers, those
of which two have index paths with the same components are: the error names both, nothing is read,
and the disk stays as it is.  All others are built.  Paths with the same components lead to the same
file, so nothing is rejected without need; and of straight paths that all start at the root, or all
at the working directory, those that lead to the same file have the same components. -/
theorem build_sharedIndex (registrations : List (Registration σ))
    (hkeys : (registrations.map Registration.provider).Nodup) (cwd : List String) :
    (¬ registrations.Pairwise SpelledApart → ∃ before s after q owner,
      registrations = before ++ s :: after ∧ s.indexPath? = some q ∧ owner ∈ before ∧
      (∃ p ∈ owner.indexPath?, p.same q = true) ∧
      ∀ interrupted disk, build registrations interrupted disk =
        { result := .error (.config (.sharedIndex owner.provider s.provider q)), disk }) ∧
    (registrations.Pairwise SpelledApart → registrations ≠ [] → ∀ interrupted disk,
      (build registrations interrupted disk).result =
          (collect (buildAll interrupted disk registrations).1).map Catalog.mk ∧
        (build registrations interrupted disk).disk =
          (buildAll interrupted disk registrations).2.1) ∧
    (registrations.Pairwise (FilesApart cwd) → registrations.Pairwise SpelledApart) ∧
    ∀ absolute : Bool,
      (∀ r ∈ registrations, ∀ p ∈ r.indexPath?, p.Straight ∧ p.isAbsolute = absolute) →
        registrations.Pairwise SpelledApart → registrations.Pairwise (FilesApart cwd) := by
  have hnone := conflict?_eq_none_iff [] hkeys List.Pairwise.nil
  refine ⟨fun hshared => ?_, fun hapart hne interrupted disk => ?_,
    List.Pairwise.imp FilesApart.spelledApart, fun absolute hstraight hapart => ?_⟩
  · cases hconflict : conflict? [] registrations with
    | none => exact absurd (hnone.1 hconflict) hshared
    | some e =>
      obtain ⟨before, s, after, q, owner, hsplit, hq, howner, hsame, rfl⟩ :=
        exists_of_conflict? [] hkeys hconflict
      refine ⟨before, s, after, q, owner, hsplit, hq, howner, hsame, fun interrupted disk => ?_⟩
      have hne : ¬ registrations.isEmpty = true := by simp [hsplit]
      rw [build, if_neg hne, hconflict]
  · have hne' : ¬ registrations.isEmpty = true := by simpa using hne
    rw [build, if_neg hne', hnone.2 hapart]
    exact ⟨rfl, rfl⟩
  · refine hapart.imp_of_mem fun {r s} hr hs hrs p hp q hq hfile => hrs p hp q hq ?_
    obtain ⟨hp, hpabs⟩ := hstraight r hr p hp
    obtain ⟨hq, hqabs⟩ := hstraight s hs q hq
    exact Path.same_of_resolve_eq hp hq (hpabs.trans hqabs.symm) hfile

/-- The same file with a dot in front of its name: both sources are built, one over the other. -/
theorem build_sharedIndex_dot :
    ∃ (registrations : List (Registration Unit)) (disk : Disk),
      (registrations.map Registration.provider).Nodup ∧
        (∀ cwd, ¬ registrations.Pairwise (FilesApart cwd)) ∧
        (∃ c, (build registrations false disk).result = .ok c) ∧
        (build registrations false disk).disk.entries.map Prod.fst =
          [["ranges.idx"], ["lines.csv"]] := by
  let source (path : Path) : Source Unit := .lines
    { path := ⟨"lines.csv"⟩, reader := LineReader.singleAddress, listener := .failFast, state := ()
      settings := { storage := .file path 0 } }
  let registrations : List (Registration Unit) :=
    [⟨⟨"a"⟩, source ⟨"ranges.idx"⟩⟩, ⟨⟨"b"⟩, source ⟨"./ranges.idx"⟩⟩]
  let disk : Disk := { entries := [(["lines.csv"], .file [])] }
  have hplain : Path.components ⟨"ranges.idx"⟩ = [.normal "ranges.idx"] := by decide
  have hdot : Path.components ⟨"./ranges.idx"⟩ = [.current, .normal "ranges.idx"] := by decide
  have hpaths (r : Path → Path → Prop) :
      registrations.Pairwise (fun s t => ∀ p ∈ s.indexPath?, ∀ q ∈ t.indexPath?, r p q) ↔
        r ⟨"ranges.idx"⟩ ⟨"./ranges.idx"⟩ := by
    simp [registrations, source, Registration.indexPath?]
  have hkeys : (registrations.map Registration.provider).Nodup := by decide
  have hbuilds := (build_sharedIndex registrations hkeys []).2.1 ((hpaths _).2 (by decide))
    (by simp [registrations]) false disk
  have hrun : (collect (buildAll false disk registrations).1).toOption.isSome = true ∧
      (buildAll false disk registrations).2.1.entries.map Prod.fst =
        [["ranges.idx"], ["lines.csv"]] := by
    decide +kernel
  obtain ⟨databases, hdatabases⟩ := Option.isSome_iff_exists.1 hrun.1
  refine ⟨registrations, disk, hkeys, fun cwd hapart => (hpaths _).1 hapart ?_, ⟨⟨databases⟩, ?_⟩, ?_⟩
  · rw [Path.resolve, Path.resolve, hplain, hdot]
    rfl
  · rw [hbuilds.1]
    cases hcollect : collect (buildAll false disk registrations).1 with
    | error e => simp [hcollect, Except.toOption] at hdatabases
    | ok found =>
      obtain rfl : found = databases := by simpa [hcollect, Except.toOption] using hdatabases
      rfl
  · rw [hbuilds.2]
    exact hrun.2

end Catalog

end IpAtlas
