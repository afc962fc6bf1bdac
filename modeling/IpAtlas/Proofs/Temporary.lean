import IpAtlas.Proofs.Path
import IpAtlas.Proofs.Result

/-!
# Names of files that are being written

A writer writes two files beside the path of its index, whose names are what the path ends in with
the numbers of the process and of the writer written behind.  The latter can be read off such a name
again, so two writers with different numbers have no name in common, wherever their indexes are to
be; and nobody comes upon such a name by following a path that is not one of them.

## What is here

* `Disk.buildingSuffix`, `Disk.tableSuffix` — what is written behind a path.
* `Disk.Temporary` — the names of the files of a number.
* `Disk.Temporary.number_eq` — they tell the number.
* `Disk.exists_stem_of_follow` — where a path with something written behind it leads.
* `Path.IsTemporary` — paths that lead to such names.
-/

set_option autoImplicit false

namespace IpAtlas

namespace Path

/-! ## Segments -/

/-- What is written behind a text without a separator goes to the last piece. -/
theorem splitSlash_append (cs : List Char) {ds : List Char} (h : '/' ∉ ds) :
    ∃ front last, splitSlash cs = front ++ [last] ∧
      splitSlash (cs ++ ds) = front ++ [last ++ ds] := by
  induction cs with
  | nil =>
    refine ⟨[], [], rfl, ?_⟩
    simp only [List.nil_append]
    induction ds with
    | nil => rfl
    | cons d ds ih =>
      simp only [List.mem_cons, not_or] at h
      rw [splitSlash, if_neg (Ne.symm h.1), ih h.2]
  | cons c cs ih =>
    obtain ⟨front, last, hcs, happend⟩ := ih
    rw [List.cons_append, splitSlash, splitSlash, hcs, happend]
    by_cases hc : c = '/'
    · rw [if_pos hc, if_pos hc]
      exact ⟨[] :: front, last, rfl, rfl⟩
    · rw [if_neg hc, if_neg hc]
      cases front with
      | nil => exact ⟨[], c :: last, rfl, rfl⟩
      | cons seg segs => exact ⟨(c :: seg) :: segs, last, rfl, rfl⟩

theorem segments_appended (p : Path) {suffix : String} (h : '/' ∉ suffix.toList) :
    ∃ front stem, (p.appended suffix).segments = front ++ [stem ++ suffix] := by
  obtain ⟨front, last, -, happend⟩ := splitSlash_append p.text.toList h
  refine ⟨front.map String.ofList, String.ofList last, ?_⟩
  rw [segments, appended, String.toList_append, happend, List.map_append, List.map_singleton,
    String.ofList_append, String.ofList_toList]

end Path

namespace Disk

variable {disk : Disk}

/-! ## Suffixes -/

/-- What is written behind the path of an index, for the file that will take its place. -/
def buildingSuffix (process number : Nat) : String := s!".{process}.{number}.building"

/-- What is written behind it for the file of the table. -/
def tableSuffix (process number : Nat) : String := buildingSuffix process number ++ ".offsets.tmp"

theorem toList_buildingSuffix (process number : Nat) :
    (buildingSuffix process number).toList =
      '.' :: Nat.toDigits 10 process ++ '.' :: Nat.toDigits 10 number ++ ".building".toList := by
  have htext : buildingSuffix process number =
      "." ++ process.repr ++ "." ++ number.repr ++ ".building" := rfl
  rw [htext, String.toList_append, String.toList_append, String.toList_append,
    String.toList_append, Nat.toList_repr, Nat.toList_repr, List.append_assoc _ ".".toList]
  rfl

theorem not_mem_digits {number : Nat} {c : Char} (h : c.isDigit = false) :
    c ∉ Nat.toDigits 10 number := by
  intro hc
  have hdigit := Nat.isDigit_of_mem_toDigits (by decide) (by decide) hc
  rw [h] at hdigit
  exact nomatch hdigit

theorem slash_not_mem_buildingSuffix (process number : Nat) :
    '/' ∉ (buildingSuffix process number).toList := by
  have hdigits : ∀ n, '/' ∉ Nat.toDigits 10 n := fun _ => not_mem_digits (by decide)
  rw [toList_buildingSuffix]
  simp [hdigits]

theorem slash_not_mem_tableSuffix (process number : Nat) :
    '/' ∉ (tableSuffix process number).toList := by
  rw [tableSuffix, String.toList_append, List.mem_append, not_or]
  exact ⟨slash_not_mem_buildingSuffix process number, by decide⟩

/-- What stands behind the last dot does not depend on what stands before it. -/
theorem eq_of_append_dot {xs ys ds es : List Char} (hds : '.' ∉ ds) (hes : '.' ∉ es)
    (h : xs ++ '.' :: ds = ys ++ '.' :: es) : ds = es := by
  induction xs generalizing ys with
  | nil =>
    cases ys with
    | nil => exact (List.cons.inj h).2
    | cons y ys =>
      have hmem : ds = ys ++ '.' :: es := (List.cons.inj h).2
      exact absurd (by simp [hmem]) hds
  | cons x xs ih =>
    cases ys with
    | nil =>
      have hmem : xs ++ '.' :: ds = es := (List.cons.inj h).2
      exact absurd (by simp [← hmem]) hes
    | cons y ys => exact ih (List.cons.inj h).2

/-- **The number can be read off a name.** -/
theorem number_eq_of_building {stem stem' : String} {process process' number number' : Nat}
    (h : stem ++ buildingSuffix process number = stem' ++ buildingSuffix process' number') :
    number = number' := by
  have hlist := congrArg String.toList h
  simp only [String.toList_append, toList_buildingSuffix, ← List.append_assoc] at hlist
  rw [List.append_cancel_right_eq] at hlist
  have hdigits := eq_of_append_dot (not_mem_digits (by decide)) (not_mem_digits (by decide)) hlist
  rw [← Nat.ofDigitChars_ten_toDigits (n := number), hdigits, Nat.ofDigitChars_ten_toDigits]

theorem number_eq_of_table {stem stem' : String} {process process' number number' : Nat}
    (h : stem ++ tableSuffix process number = stem' ++ tableSuffix process' number') :
    number = number' := by
  rw [tableSuffix, tableSuffix, ← String.append_assoc, ← String.append_assoc] at h
  refine @number_eq_of_building stem stem' process process' number number' ?_
  generalize stem ++ buildingSuffix process number = name at h ⊢
  generalize stem' ++ buildingSuffix process' number' = name' at h ⊢
  have hlist := congrArg String.toList h
  rw [String.toList_append, String.toList_append, List.append_cancel_right_eq] at hlist
  exact String.toList_inj.1 hlist

/-- The two names of a writer end in different letters. -/
theorem getLast?_building (stem : String) (process number : Nat) :
    (stem ++ buildingSuffix process number).toList.getLast? = some 'g' := by
  have hlast : ".building".toList.getLast? = some 'g' := by decide
  rw [String.toList_append, toList_buildingSuffix, ← List.append_assoc, List.getLast?_append, hlast]
  rfl

theorem getLast?_table (stem : String) (process number : Nat) :
    (stem ++ tableSuffix process number).toList.getLast? = some 'p' := by
  have hlast : ".offsets.tmp".toList.getLast? = some 'p' := by decide
  rw [tableSuffix, ← String.append_assoc, String.toList_append, List.getLast?_append, hlast]
  rfl

theorem building_ne_table (stem stem' : String) (process process' number number' : Nat) :
    stem ++ buildingSuffix process number ≠ stem' ++ tableSuffix process' number' := by
  intro h
  have hlast := congrArg (fun s : String => s.toList.getLast?) h
  simp only [getLast?_building, getLast?_table] at hlast
  exact absurd hlast (by decide)

/-- The names of the two files of a number, in whatever process and behind whatever leads to them. -/
def Temporary (number : Nat) (names : List String) : Prop :=
  ∃ process stem, names.getLast? = some (stem ++ buildingSuffix process number) ∨
    names.getLast? = some (stem ++ tableSuffix process number)

/-- Two numbers have no names in common. -/
theorem Temporary.number_eq {names : List String} {number number' : Nat}
    (h : Temporary number names) (h' : Temporary number' names) : number = number' := by
  obtain ⟨process, stem, h⟩ := h
  obtain ⟨process', stem', h'⟩ := h'
  rcases h with h | h <;> rcases h' with h' | h' <;>
    have heq := Option.some_inj.1 (h.symm.trans h')
  · exact number_eq_of_building heq
  · exact absurd heq (building_ne_table _ _ _ _ _ _)
  · exact absurd heq.symm (building_ne_table _ _ _ _ _ _)
  · exact number_eq_of_table heq

/-! ## Following -/

/-- A step along a segment that is no dots and not empty leads to a name in a directory. -/
theorem inside_of_step_name {place place' : Place} {segment : String}
    (hlong : 2 < segment.toList.length) (h : disk.step place segment = .ok place') :
    ∃ names, place = .inside names ∧ place' = .inside (names ++ [segment]) := by
  have hne : segment ≠ "" ∧ segment ≠ "." ∧ segment ≠ ".." := by
    refine ⟨?_, ?_, ?_⟩ <;>
    · rintro rfl
      exact absurd hlong (by decide)
  rw [step.eq_def] at h
  split at h
  · cases h
  · cases h
  rw [if_neg (by simp [hne.1, hne.2.1])] at h
  split at h
  · rw [if_neg hne.2.2] at h
    cases h
  · rename_i names _
    rw [if_neg hne.2.2] at h
    split at h
    · cases h
    · exact ⟨names, rfl, (Except.ok.inj h).symm⟩

/-- **Where a path leads that something is written behind**: to a name that ends so, in whatever
directory. -/
theorem exists_stem_of_follow {p : Path} {suffix : String} {place : Place}
    (hslash : '/' ∉ suffix.toList) (hlong : 2 < suffix.toList.length)
    (h : disk.follow (p.appended suffix) = .ok place) :
    ∃ names stem, place = .inside (names ++ [stem ++ suffix]) := by
  obtain ⟨front, stem, hsegments⟩ := p.segments_appended hslash
  rw [follow] at h
  split at h
  · cases h
  split at h
  · cases h
  have hname : 2 < (stem ++ suffix).toList.length := by
    rw [String.toList_append, List.length_append]
    omega
  rw [hsegments, List.foldlM_append] at h
  obtain ⟨before, -, hlast⟩ := exists_of_bind_eq_ok h
  obtain ⟨before', hstep, hplace⟩ := exists_of_bind_eq_ok hlast
  obtain rfl : before' = place := Except.ok.inj hplace
  obtain ⟨names, -, rfl⟩ := inside_of_step_name hname hstep
  exact ⟨names, stem, rfl⟩

/-- The first file of a number is nowhere but at the end of such names. -/
theorem inside_of_follow_building {p : Path} {process number : Nat} {place : Place}
    (h : disk.follow (p.appended (buildingSuffix process number)) = .ok place) :
    ∃ names stem, place = .inside (names ++ [stem ++ buildingSuffix process number]) := by
  refine exists_stem_of_follow (slash_not_mem_buildingSuffix process number) ?_ h
  simp [toList_buildingSuffix]
  omega

/-- Nor is its table. -/
theorem inside_of_follow_table {p : Path} {process number : Nat} {place : Place}
    (h : disk.follow (p.appended (tableSuffix process number)) = .ok place) :
    ∃ names stem, place = .inside (names ++ [stem ++ tableSuffix process number]) := by
  refine exists_stem_of_follow (slash_not_mem_tableSuffix process number) ?_ h
  simp [tableSuffix, toList_buildingSuffix]
  omega

end Disk

/-- A path that leads to the names of a file that is being written. -/
def Path.IsTemporary (p : Path) : Prop := ∃ number, Disk.Temporary number (p.resolve [])

/-- Nobody comes upon such a file who does not follow such a path. -/
theorem Path.not_temporary_of_follow {p : Path} {disk : Disk} {names : List String}
    (hp : ¬ p.IsTemporary) (h : disk.follow p = .ok (.inside names)) (number : Nat) :
    ¬ Disk.Temporary number names := by
  have hresolve := Disk.resolve_of_follow h []
  rw [List.nil_append] at hresolve
  rw [← hresolve]
  exact fun htemporary => hp ⟨number, htemporary⟩

end IpAtlas
