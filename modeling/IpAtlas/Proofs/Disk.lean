import IpAtlas.Index.Writer
import Mathlib.Data.List.Basic

/-!
# What a change of the disk leaves

A path is followed through directories only, so it leads to the same place as long as every
directory stays one.  Filling a file, removing one and moving one all do that, which is why the path
of an index still leads to the same place when the file that was written beside it takes that place.

## What is here

* `Disk.entry?_set`, `Disk.entry?_update` — what is where after a change.
* `Disk.follow_of_directories` — a path leads to the same place while the directories stay.
* `Disk.exists_of_rename`, `Disk.map_of_rename` — what moving a file comes to.
* `Index.Writer.map_of_complete` — the file that a writer leaves at its path.
-/

set_option autoImplicit false

namespace IpAtlas

namespace Disk

/-! ## Entries -/

theorem lookup_filter_ne (entries : List (List String × Entry)) (names other : List String) :
    (entries.filter fun e => e.1 ≠ names).lookup other =
      if other = names then none else entries.lookup other := by
  induction entries with
  | nil => simp
  | cons e entries ih =>
    obtain ⟨key, entry⟩ := e
    by_cases hk : key = names
    · rw [List.filter_cons_of_neg (by simpa using hk), ih, hk]
      split
      · rfl
      · rename_i hne
        rw [List.lookup_cons, show (other == names) = false by simpa using hne]
    · rw [List.filter_cons_of_pos (by simpa using hk), List.lookup_cons, List.lookup_cons, ih]
      by_cases ho : other = key
      · have hn : ¬ other = names := fun hn => hk (ho.symm.trans hn)
        have hother : (other == key) = true := by simpa using ho
        simp only [hother, if_neg hn]
      · have hother : (other == key) = false := by simpa using ho
        simp only [hother]

theorem entry?_set {disk : Disk} {names : List String} (hne : names ≠ []) (entry : Option Entry)
    (other : List String) :
    Disk.entry? (disk.set names entry) other = if other = names then entry else disk.entry? other := by
  rw [ entry?, entry?]
  by_cases ho : other = []
  · rw [if_pos ho, if_pos ho, if_neg]
    rw [ho]
    exact Ne.symm hne
  · rw [if_neg ho, if_neg ho, set, List.lookup_append, lookup_filter_ne]
    by_cases hn : other = names
    · rw [if_pos hn, if_pos hn, hn]
      cases entry <;> simp
    · rw [if_neg hn, if_neg hn]
      cases entry with
      | none => simp
      | some entry =>
        have hother : (other == names) = false := by simpa using hn
        simp [List.lookup_cons, hother]

theorem lookup_update (entries : List (List String × Entry)) (names : List String)
    (contents : Bytes) (other : List String) :
    (entries.map fun e => if e.1 = names then (names, Entry.file contents) else e).lookup other =
      if other = names then (entries.lookup names).map fun _ => .file contents
      else entries.lookup other := by
  induction entries with
  | nil => simp
  | cons e entries ih =>
    obtain ⟨key, entry⟩ := e
    rw [List.map_cons, List.lookup_cons, List.lookup_cons, List.lookup_cons, ih]
    by_cases hk : key = names
    · subst hk
      simp only [if_true]
      by_cases ho : other = key
      · simp [ho]
      · simp only [show (other == key) = false by simpa using ho, if_neg ho]
    · simp only [if_neg hk]
      by_cases ho : other = names
      · have hother : (other == key) = false := by simpa [ho] using Ne.symm hk
        have hname : (names == key) = false := by simpa using Ne.symm hk
        simp only [if_pos ho, hother, hname]
      · simp only [if_neg ho]

/-- What is where when a file was given other contents. -/
theorem entry?_update {disk : Disk} {names : List String} {old : Bytes} {fault : Option IoError}
    (h : disk.entry? names = some (.file old fault)) (contents : Bytes) (other : List String) :
    Disk.entry? (disk.update names contents) other =
      if other = names then some (.file contents) else disk.entry? other := by
  have hne : names ≠ [] := by
    rintro rfl
    unfold entry? at h
    rw [if_pos rfl] at h
    exact nomatch h
  unfold entry? at h
  rw [if_neg hne] at h
  rw [ entry?, entry?, update, lookup_update, h]
  by_cases ho : other = []
  · rw [if_pos ho, if_pos ho, if_neg]
    rw [ho]
    exact Ne.symm hne
  · rw [if_neg ho, if_neg ho]
    rfl

theorem ne_nil_of_not_directory {disk : Disk} {names : List String}
    (h : disk.entry? names ≠ some .directory) : names ≠ [] :=
  fun hn => h (by rw [hn, entry?, if_pos rfl])

/-! ## Paths -/

section

variable {disk disk' : Disk}

theorem step_of_directories
    (hdir : ∀ names, disk.entry? names = some .directory → disk'.entry? names = some .directory)
    {place place' : Place} {segment : String} (h : disk.step place segment = .ok place') :
    disk'.step place segment = .ok place' := by
  have hat : disk.at? place = some .directory := by
    rw [step.eq_def] at h
    split at h
    · exact nomatch h
    · exact nomatch h
    · assumption
  have hat' : disk'.at? place = some .directory := by
    cases place with
    | outside => rfl
    | inside names => exact hdir names hat
  rw [step.eq_def, hat] at h
  rw [step.eq_def, hat']
  exact h

theorem foldlM_of_directories
    (hdir : ∀ names, disk.entry? names = some .directory → disk'.entry? names = some .directory)
    {segments : List String} {place place' : Place}
    (h : segments.foldlM (fun place segment => disk.step place segment) place = .ok place') :
    segments.foldlM (fun place segment => disk'.step place segment) place = .ok place' := by
  induction segments generalizing place with
  | nil => exact h
  | cons segment segments ih =>
    rw [List.foldlM_cons] at h ⊢
    cases hs : disk.step place segment with
    | error e =>
      rw [hs] at h
      exact absurd h (by simp [bind, Except.bind])
    | ok next =>
      rw [hs] at h
      rw [step_of_directories hdir hs]
      exact ih h

/-- **A path leads to the same place while the directories stay.** -/
theorem follow_of_directories
    (hdir : ∀ names, disk.entry? names = some .directory → disk'.entry? names = some .directory)
    {path : Path} {place : Place} (h : disk.follow path = .ok place) :
    disk'.follow path = .ok place := by
  rw [follow] at h ⊢
  split at h
  · exact nomatch h
  rename_i hempty
  rw [if_neg hempty]
  split at h
  · exact nomatch h
  rename_i hzero
  rw [if_neg hzero]
  exact foldlM_of_directories hdir h

theorem map_eq_ok {path : Path} {names : List String} {contents : Bytes} {fault : Option IoError}
    (hfollow : disk.follow path = .ok (.inside names))
    (hentry : disk.entry? names = some (.file contents fault)) : disk.map path = .ok contents := by
  rw [map, find, hfollow]
  simp only [bind, Except.bind, at?, hentry]
  rfl

/-! ## Moving a file -/

/-- What it takes to move a file, and what comes of it. -/
theorem exists_of_rename {source target : Path} (h : disk.rename source target = .ok disk') :
    ∃ names goal contents fault, disk.follow source = .ok (.inside names) ∧
      disk.entry? names = some (.file contents fault) ∧ disk.follow target = .ok (.inside goal) ∧
      disk.entry? goal ≠ some .directory ∧
      disk' = (disk.set names none).set goal (some (.file contents fault)) := by
  simp only [rename, bind, Except.bind] at h
  split at h
  · exact nomatch h
  rename_i place hsource
  split at h
  · exact nomatch h
  rename_i names
  split at h
  · rename_i contents fault hfile
    split at h
    · exact nomatch h
    rename_i place htarget
    split at h
    · exact nomatch h
    split at h
    · exact nomatch h
    split at h
    · exact nomatch h
    rename_i goal
    split at h
    · exact nomatch h
    rename_i hgoal
    exact ⟨names, goal, contents, fault, hsource, hfile, htarget, hgoal, (Except.ok.inj h).symm⟩
  · exact nomatch h
  · exact nomatch h

/-- **Where a file was moved to, it can be read.** -/
theorem map_of_rename {source target : Path} (h : disk.rename source target = .ok disk') :
    ∃ names contents fault, disk.follow source = .ok (.inside names) ∧
      disk.entry? names = some (.file contents fault) ∧ disk'.map target = .ok contents := by
  obtain ⟨names, goal, contents, fault, hsource, hfile, htarget, hgoal, rfl⟩ := exists_of_rename h
  have hnames : disk.entry? names ≠ some .directory := by
    rw [hfile]
    simp
  have hentry : ∀ other,
      Disk.entry? ((disk.set names none).set goal (some (.file contents fault))) other =
        if other = goal then some (.file contents fault)
        else if other = names then none else disk.entry? other := by
    intro other
    rw [entry?_set (ne_nil_of_not_directory hgoal), entry?_set (ne_nil_of_not_directory hnames)]
  have hmoved := (hentry goal).trans (if_pos rfl)
  refine ⟨names, contents, fault, hsource, hfile,
    map_eq_ok (follow_of_directories (fun other hdir => ?_) htarget) hmoved⟩
  have hg : other ≠ goal := fun ho => hgoal (by rw [← ho]; exact hdir)
  have hn : other ≠ names := fun ho => hnames (by rw [← ho]; exact hdir)
  rw [hentry, if_neg hg, if_neg hn]
  exact hdir

theorem refill_of_file {path : Path} {names : List String} {old : Bytes} {fault : Option IoError}
    (contents : Bytes) (hfollow : disk.follow path = .ok (.inside names))
    (hentry : disk.entry? names = some (.file old fault)) :
    disk.refill path contents = disk.update names contents := by
  rw [refill, hfollow]
  simp only [hentry]

theorem refill_of_not_file {path : Path} (contents : Bytes)
    (h : ∀ names old fault, disk.follow path = .ok (.inside names) →
      disk.entry? names ≠ some (.file old fault)) : disk.refill path contents = disk := by
  rw [refill]
  split
  · rename_i names hfollow
    split
    · rename_i old fault hentry
      exact absurd hentry (h names old fault hfollow)
    · rfl
  · rfl

/-- A file that was filled holds what it was filled with. -/
theorem eq_of_refill {path : Path} {names : List String} {contents found : Bytes}
    {fault : Option IoError}
    (hfollow : (disk.refill path contents).follow path = .ok (.inside names))
    (hentry : Disk.entry? (disk.refill path contents) names = some (.file found fault)) :
    found = contents := by
  by_cases hfile : ∃ names old fault, disk.follow path = .ok (.inside names) ∧
      disk.entry? names = some (.file old fault)
  · obtain ⟨names', old, fault', hfollow', hold⟩ := hfile
    rw [refill_of_file contents hfollow' hold] at hfollow hentry
    have hsame : (disk.update names' contents).follow path = .ok (.inside names') :=
      follow_of_directories (fun other hdir => by
        have ho : other ≠ names' := by
          rintro rfl
          exact nomatch hold.symm.trans hdir
        rw [entry?_update hold, if_neg ho]
        exact hdir) hfollow'
    obtain rfl : names' = names := by
      simpa using hsame.symm.trans hfollow
    rw [entry?_update hold, if_pos rfl, Option.some_inj, Entry.file.injEq] at hentry
    exact hentry.1.symm
  · have hnone := refill_of_not_file contents fun names old fault hf he =>
      hfile ⟨names, old, fault, hf, he⟩
    rw [hnone] at hfollow hentry
    exact absurd ⟨names, found, fault, hfollow, hentry⟩ hfile

end

end Disk

/-! ## Finishing an index file -/

/-- **A writer that completes its file leaves the image of its entries at its path.** -/
theorem Index.Writer.map_of_complete {w : Writer} {disk disk' : Disk}
    (h : w.complete disk = .ok disk') : disk'.map w.path = .ok (image w.entries.toList) := by
  rw [complete] at h
  cases hremove : disk.remove w.sidecar with
  | error e =>
    rw [hremove] at h
    exact nomatch h
  | ok cleared =>
    rw [hremove] at h
    obtain ⟨names, contents, fault, hfollow, hentry, hmap⟩ := Disk.map_of_rename h
    rw [hmap, Disk.eq_of_refill hfollow hentry]

end IpAtlas
