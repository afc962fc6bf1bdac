import IpAtlas.Proofs.Disk

/-!
# What a change of the disk does not touch

Files are created, filled, moved and removed, and every directory stays what it is.  So a path leads
to the same place before and after, and what it leads to is the same unless it is one of the names
that were touched.

## What is here

* `Disk.content`, `Disk.place?` — what a path leads to, and where.
* `Disk.Agrees` — disks that differ in some names at most.
* `Disk.Agrees.follow_iff`, `Disk.Agrees.content_eq` — what they have in common.
* `Disk.agrees_of_create`, `Disk.agrees_of_remove`, `Disk.agrees_of_rename` — what each change
  touches.
* `Disk.Receives`, `Disk.rename_isOk_iff` — the paths that a file can be moved to.
* `Index.Writer.agrees_removePartial`, `Index.Writer.abort_eq` — removing what may be there.
-/

set_option autoImplicit false

namespace IpAtlas

namespace Disk

variable {disk disk' disk'' : Disk} {p : Path} {names : List String} {place : Place}

/-! ## What a path leads to -/

/-- What a path leads to, if it leads to anything. -/
def content (disk : Disk) (p : Path) : Option Entry := (disk.find p).toOption

theorem content_of_follow (h : disk.follow p = .ok place) : disk.content p = disk.at? place := by
  rw [content, find, h]
  simp only [bind, Except.bind]
  cases disk.at? place <;> rfl

theorem content_of_error {e : IoError} (h : disk.follow p = .error e) : disk.content p = none := by
  rw [content, find, h]
  rfl

theorem content_eq_file_iff {contents : Bytes} {fault : Option IoError} :
    disk.content p = some (.file contents fault) ↔ ∃ names,
      disk.follow p = .ok (.inside names) ∧ disk.entry? names = some (.file contents fault) := by
  constructor
  · intro h
    cases hfollow : disk.follow p with
    | error e =>
      rw [content_of_error hfollow] at h
      exact nomatch h
    | ok place =>
      rw [content_of_follow hfollow] at h
      cases place with
      | outside => exact absurd h (by simp [at?])
      | inside names => exact ⟨names, rfl, h⟩
  · rintro ⟨names, hfollow, hentry⟩
    rw [content_of_follow hfollow]
    exact hentry

/-- A path that leads to a file. -/
def HasFile (disk : Disk) (p : Path) : Prop :=
  ∃ contents fault, disk.content p = some (.file contents fault)

theorem HasFile.ne_directory (h : disk.HasFile p) : disk.content p ≠ some .directory := by
  obtain ⟨contents, fault, h⟩ := h
  rw [h]
  simp

theorem ne_directory_of_none (h : disk.content p = none) : disk.content p ≠ some .directory := by
  rw [h]
  simp

theorem HasFile.exists_names (h : disk.HasFile p) : ∃ names contents fault,
    disk.follow p = .ok (.inside names) ∧ disk.entry? names = some (.file contents fault) := by
  obtain ⟨contents, fault, h⟩ := h
  obtain ⟨names, hfollow, hentry⟩ := content_eq_file_iff.1 h
  exact ⟨names, contents, fault, hfollow, hentry⟩

/-! ## Disks that agree -/

/-- Disks with the same directories, that differ in the names that were touched at most. -/
structure Agrees (touched : List String → Prop) (disk disk' : Disk) : Prop where
  directory_iff : ∀ names,
    disk'.entry? names = some .directory ↔ disk.entry? names = some .directory
  elsewhere : ∀ names, ¬ touched names → disk'.entry? names = disk.entry? names

theorem agrees_refl (touched : List String → Prop) (disk : Disk) : disk.Agrees touched disk :=
  ⟨fun _ => Iff.rfl, fun _ _ => rfl⟩

theorem Agrees.mono {touched touched' : List String → Prop} (h : disk.Agrees touched disk')
    (hsub : ∀ names, touched names → touched' names) : disk.Agrees touched' disk' :=
  ⟨h.directory_iff, fun names hnot => h.elsewhere names fun ht => hnot (hsub names ht)⟩

theorem Agrees.trans {touched : List String → Prop} (h : disk.Agrees touched disk')
    (h' : disk'.Agrees touched disk'') : disk.Agrees touched disk'' :=
  ⟨fun names => (h'.directory_iff names).trans (h.directory_iff names),
    fun names hnot => (h'.elsewhere names hnot).trans (h.elsewhere names hnot)⟩

theorem Agrees.symm {touched : List String → Prop} (h : disk.Agrees touched disk') :
    disk'.Agrees touched disk :=
  ⟨fun names => (h.directory_iff names).symm, fun names hnot => (h.elsewhere names hnot).symm⟩

theorem Agrees.ne_directory {touched : List String → Prop} (h : disk.Agrees touched disk')
    (hnames : disk.entry? names ≠ some .directory) : disk'.entry? names ≠ some .directory :=
  fun hdir => hnames ((h.directory_iff names).1 hdir)

/-- A change at names where there is no directory and will be none. -/
theorem agrees_of_change (hnames : disk.entry? names ≠ some .directory) {entry : Option Entry}
    (hentry : entry ≠ some .directory)
    (h : ∀ other, disk'.entry? other = if other = names then entry else disk.entry? other) :
    disk.Agrees (· = names) disk' := by
  refine ⟨fun other => ?_, fun other hne => ?_⟩
  · rw [h]
    by_cases ho : other = names
    · rw [if_pos ho, ho]
      exact ⟨fun h => absurd h hentry, fun h => absurd h hnames⟩
    · rw [if_neg ho]
  · rw [h, if_neg hne]

theorem agrees_set (hnames : disk.entry? names ≠ some .directory) (entry : Option Entry)
    (hentry : entry ≠ some .directory) : disk.Agrees (· = names) (disk.set names entry) :=
  agrees_of_change hnames hentry (entry?_set (ne_nil_of_not_directory hnames) entry)

theorem agrees_update {old : Bytes} {fault : Option IoError}
    (h : disk.entry? names = some (.file old fault)) (contents : Bytes) :
    disk.Agrees (· = names) (disk.update names contents) :=
  agrees_of_change (by simp [h]) (by simp) (entry?_update h contents)

/-- Where a path leads, if it can be followed. -/
def place? (disk : Disk) (p : Path) : Option Place := (disk.follow p).toOption

theorem place?_eq_some_iff : disk.place? p = some place ↔ disk.follow p = .ok place := by
  rw [place?]
  cases disk.follow p <;> simp [Except.toOption]

section

variable {touched : List String → Prop}

/-- **A path leads to the same place on disks that agree.** -/
theorem Agrees.follow_iff (h : disk.Agrees touched disk') :
    disk'.follow p = .ok place ↔ disk.follow p = .ok place :=
  ⟨follow_of_directories fun names => (h.directory_iff names).1,
    follow_of_directories fun names => (h.directory_iff names).2⟩

theorem Agrees.place?_eq (h : disk.Agrees touched disk') (p : Path) :
    disk'.place? p = disk.place? p :=
  Option.ext fun _ => place?_eq_some_iff.trans (h.follow_iff.trans place?_eq_some_iff.symm)

/-- **And to the same thing**, unless it leads to names that were touched. -/
theorem Agrees.content_eq (h : disk.Agrees touched disk')
    (hp : ∀ names, disk.follow p = .ok (.inside names) → ¬ touched names) :
    disk'.content p = disk.content p := by
  cases hfollow : disk.follow p with
  | ok place =>
    rw [content_of_follow hfollow, content_of_follow (h.follow_iff.2 hfollow)]
    cases place with
    | outside => rfl
    | inside names => exact h.elsewhere names (hp names hfollow)
  | error e =>
    cases hfollow' : disk'.follow p with
    | ok place =>
      rw [h.follow_iff.1 hfollow'] at hfollow
      exact nomatch hfollow
    | error e' => rw [content_of_error hfollow, content_of_error hfollow']

theorem Agrees.content_ne_directory (h : disk.Agrees touched disk')
    (hp : disk.content p ≠ some .directory) : disk'.content p ≠ some .directory := by
  intro hdir
  cases hfollow : disk'.follow p with
  | error e =>
    rw [content_of_error hfollow] at hdir
    exact nomatch hdir
  | ok place =>
    rw [content_of_follow hfollow] at hdir
    rw [content_of_follow (h.follow_iff.1 hfollow)] at hp
    cases place with
    | outside => exact hp rfl
    | inside names => exact hp ((h.directory_iff names).1 hdir)

end

/-! ## Changes -/

/-- Nothing is lost by removing nothing. -/
theorem set_none_of_absent (h : disk.entry? names = none) : disk.set names none = disk := by
  have hne : names ≠ [] := by
    rintro rfl
    exact nomatch h
  rw [ entry?, if_neg hne, List.lookup_eq_none_iff] at h
  have hothers : (disk.entries.filter fun e => e.1 ≠ names) = disk.entries :=
    List.filter_eq_self.2 fun e he => by simpa using Ne.symm (by simpa using h e he)
  rw [set, hothers]
  rfl

/-- To hand out a name changes nothing. -/
theorem agrees_freshPath (disk : Disk) (p : Path) :
    disk.Agrees (fun _ => False) (disk.freshPath p).2 :=
  ⟨fun _ => Iff.rfl, fun _ _ => rfl⟩

theorem content_freshPath (disk : Disk) (p q : Path) :
    (disk.freshPath p).2.content q = disk.content q :=
  (agrees_freshPath disk p).content_eq fun _ _ => not_false

/-- The names that a path leads to. -/
def Leads (disk : Disk) (p : Path) (names : List String) : Prop :=
  disk.follow p = .ok (.inside names)

/-- A change of what a path leads to, from one thing that is no directory to another. -/
theorem agrees_of_leads (hfollow : disk.follow p = .ok (.inside names))
    (hnames : disk.entry? names ≠ some .directory) {entry : Option Entry}
    (hentry : entry ≠ some .directory)
    (h : ∀ other, disk'.entry? other = if other = names then entry else disk.entry? other) :
    disk.Agrees (disk.Leads p) disk' ∧ disk'.content p = entry := by
  have hagrees := agrees_of_change hnames hentry h
  refine ⟨hagrees.mono ?_, ?_⟩
  · rintro other rfl
    exact hfollow
  · rw [content_of_follow (hagrees.follow_iff.2 hfollow)]
    exact (h names).trans (if_pos rfl)

theorem agrees_set_of_leads (hfollow : disk.follow p = .ok (.inside names))
    (hnames : disk.entry? names ≠ some .directory) (entry : Option Entry)
    (hentry : entry ≠ some .directory) :
    disk.Agrees (disk.Leads p) (disk.set names entry) ∧
      (disk.set names entry).content p = entry :=
  agrees_of_leads hfollow hnames hentry (entry?_set (ne_nil_of_not_directory hnames) entry)

theorem agrees_update_of_leads {old : Bytes} {fault : Option IoError}
    (hfollow : disk.follow p = .ok (.inside names))
    (hentry : disk.entry? names = some (.file old fault)) (contents : Bytes) :
    disk.Agrees (disk.Leads p) (disk.update names contents) ∧
      (disk.update names contents).content p = some (.file contents) :=
  agrees_of_leads hfollow (by simp [hentry]) (by simp) (entry?_update hentry contents)

theorem exists_of_create {contents : Bytes} (h : disk.create p contents = .ok disk') :
    ∃ names, disk.follow p = .ok (.inside names) ∧ disk.entry? names = none ∧
      disk' = disk.set names (some (.file contents)) := by
  simp only [create, bind, Except.bind] at h
  split at h
  · exact nomatch h
  rename_i place hfollow
  split at h
  · exact nomatch h
  rename_i names
  split at h
  · exact nomatch h
  · rename_i hnone
    exact ⟨names, hfollow, hnone, (Except.ok.inj h).symm⟩

/-- **A file that was created is there**, and nothing else is another. -/
theorem agrees_of_create {contents : Bytes} (h : disk.create p contents = .ok disk') :
    disk.Agrees (disk.Leads p) disk' ∧ disk'.content p = some (.file contents) := by
  obtain ⟨names, hfollow, hnone, rfl⟩ := exists_of_create h
  exact agrees_set_of_leads hfollow (by simp [hnone]) _ (by simp)

/-- What it takes to begin a file anew, and what comes of it. -/
theorem exists_of_recreate (h : disk.recreate p = .ok disk') :
    ∃ names, disk.follow p = .ok (.inside names) ∧
      (disk.entry? names = none ∧ disk' = disk.set names (some (.file [])) ∨
        (∃ old fault, disk.entry? names = some (.file old fault)) ∧
          disk' = disk.update names []) := by
  simp only [recreate, bind, Except.bind] at h
  split at h
  · exact nomatch h
  rename_i place hfollow
  split at h
  · exact nomatch h
  rename_i names
  split at h
  · exact nomatch h
  · rename_i old fault hfile
    exact ⟨names, hfollow, Or.inr ⟨⟨old, fault, hfile⟩, (Except.ok.inj h).symm⟩⟩
  · rename_i hnone
    exact ⟨names, hfollow, Or.inl ⟨hnone, (Except.ok.inj h).symm⟩⟩

/-- **A file that was begun anew is there and empty**, and nothing else is another. -/
theorem agrees_of_recreate (h : disk.recreate p = .ok disk') :
    disk.Agrees (disk.Leads p) disk' ∧ disk'.content p = some (.file []) := by
  obtain ⟨names, hfollow, ⟨hnone, rfl⟩ | ⟨⟨old, fault, hfile⟩, rfl⟩⟩ := exists_of_recreate h
  · exact agrees_set_of_leads hfollow (by simp [hnone]) _ (by simp)
  · exact agrees_update_of_leads hfollow hfile []

theorem exists_of_remove (h : disk.remove p = .ok disk') :
    ∃ names contents fault, disk.follow p = .ok (.inside names) ∧
      disk.entry? names = some (.file contents fault) ∧ disk' = disk.set names none := by
  simp only [remove, bind, Except.bind] at h
  split at h
  · exact nomatch h
  rename_i place hfollow
  split at h
  · exact nomatch h
  rename_i names
  split at h
  · rename_i contents fault hfile
    exact ⟨names, contents, fault, hfollow, hfile, (Except.ok.inj h).symm⟩
  · exact nomatch h
  · exact nomatch h

theorem remove_of_file {contents : Bytes} {fault : Option IoError}
    (hfollow : disk.follow p = .ok (.inside names))
    (hentry : disk.entry? names = some (.file contents fault)) :
    disk.remove p = .ok (disk.set names none) := by
  simp only [remove, hfollow, bind, Except.bind, hentry]
  rfl

/-- **A file that was removed is gone**, and nothing else is another. -/
theorem agrees_of_remove (h : disk.remove p = .ok disk') :
    disk.Agrees (disk.Leads p) disk' ∧ disk'.content p = none := by
  obtain ⟨names, contents, fault, hfollow, hentry, rfl⟩ := exists_of_remove h
  exact agrees_set_of_leads hfollow (by simp [hentry]) _ (by simp)

/-- **A file that was moved is at its goal** and not where it was, and nothing else is another. -/
theorem agrees_of_rename {source target : Path} (h : disk.rename source target = .ok disk') :
    ∃ goal, disk.follow target = .ok (.inside goal) ∧
      disk.Agrees (fun names => disk.Leads source names ∨ names = goal) disk' ∧
      disk'.entry? goal = disk.content source ∧
      (¬ disk.Leads source goal → disk'.content source = none) := by
  obtain ⟨names, goal, contents, fault, hsource, hfile, htarget, hgoal, rfl⟩ := exists_of_rename h
  have htaken := agrees_set_of_leads hsource (by simp [hfile]) none (by simp)
  have hgoal' := htaken.1.ne_directory hgoal
  have hput := agrees_set hgoal' (some (.file contents fault)) (by simp)
  refine ⟨goal, htarget, (htaken.1.mono fun _ => Or.inl).trans (hput.mono fun _ => Or.inr), ?_,
    fun hne => ?_⟩
  · rw [content_eq_file_iff.2 ⟨names, hsource, hfile⟩]
    exact (entry?_set (ne_nil_of_not_directory hgoal') _ goal).trans (if_pos rfl)
  · rw [hput.content_eq, htaken.2]
    rintro other hother rfl
    exact hne (htaken.1.follow_iff.1 hother)

/-- Whether a file can be moved to a path: the path ends in a name, which is not one of a
directory. -/
def Receives (disk : Disk) (p : Path) : Prop :=
  (endsInDots p = false ∧ meansDirectory p = false) ∧
    ∃ goal, disk.follow p = .ok (.inside goal) ∧ disk.entry? goal ≠ some .directory

theorem Agrees.receives_iff {touched : List String → Prop} (h : disk.Agrees touched disk') :
    disk'.Receives p ↔ disk.Receives p := by
  simp only [Receives, h.follow_iff, ne_eq, h.directory_iff]

/-- **A file can be moved to those paths**, and to no others. -/
theorem rename_isOk_iff {source target : Path} (h : disk.HasFile source) :
    (disk.rename source target).isOk = true ↔ disk.Receives target := by
  obtain ⟨names, contents, fault, hsource, hfile⟩ := h.exists_names
  simp only [rename, hsource, hfile, bind, Except.bind, Receives]
  cases hfollow : disk.follow target with
  | error e => simp [Except.isOk, Except.toBool]
  | ok place =>
    cases hdots : endsInDots target with
    | true => simp [Except.isOk, Except.toBool, throw, throwThe, MonadExceptOf.throw]
    | false =>
      cases hmeans : meansDirectory target with
      | true => simp [Except.isOk, Except.toBool, throw, throwThe, MonadExceptOf.throw]
      | false =>
        cases place with
        | outside => simp [Except.isOk, Except.toBool, throw, throwThe, MonadExceptOf.throw]
        | inside goal =>
          by_cases hgoal : disk.entry? goal = some .directory <;>
            simp [hgoal, Except.isOk, Except.toBool, throw, throwThe, MonadExceptOf.throw, pure,
              Except.pure]

end Disk

/-! ## Removing what may be there -/

namespace Index.Writer

open Disk

variable {disk : Disk} {p : Path}

/-- Without a file there is nothing to do. -/
theorem removePartial_of_not_file (h : ¬ disk.HasFile p) : (removePartial disk p).1 = disk := by
  rw [removePartial]
  cases hremove : disk.remove p with
  | ok disk' =>
    obtain ⟨names, contents, fault, hfollow, hentry, -⟩ := exists_of_remove hremove
    exact absurd ⟨contents, fault, content_eq_file_iff.2 ⟨names, hfollow, hentry⟩⟩ h
  | error e =>
    dsimp only
    split <;> rfl

/-- Where a path leads there is nothing afterwards, unless a directory was there. -/
theorem removePartial_eq {names : List String} (hfollow : disk.follow p = .ok (.inside names))
    (hnames : disk.entry? names ≠ some .directory) :
    (removePartial disk p).1 = disk.set names none := by
  cases hentry : disk.entry? names with
  | none =>
    rw [set_none_of_absent hentry, removePartial_of_not_file]
    rintro ⟨contents, fault, hcontent⟩
    rw [content_of_follow hfollow] at hcontent
    exact nomatch hentry.symm.trans hcontent
  | some entry =>
    cases entry with
    | directory => exact absurd hentry hnames
    | file contents fault => rw [removePartial, remove_of_file hfollow hentry]

/-- **Afterwards nothing is there**, unless a directory was, and nothing else is another. -/
theorem agrees_removePartial (h : disk.content p ≠ some .directory) :
    disk.Agrees (disk.Leads p) (removePartial disk p).1 ∧
      (removePartial disk p).1.content p = none := by
  by_cases hfile : disk.HasFile p
  · obtain ⟨names, contents, fault, hfollow, hentry⟩ := hfile.exists_names
    rw [removePartial_eq hfollow (by simp [hentry])]
    exact agrees_set_of_leads hfollow (by simp [hentry]) none (by simp)
  · rw [removePartial_of_not_file hfile]
    refine ⟨agrees_refl _ _, ?_⟩
    cases hcontent : disk.content p with
    | none => rfl
    | some entry =>
      cases entry with
      | directory => exact absurd hcontent h
      | file contents fault => exact absurd ⟨contents, fault, hcontent⟩ hfile

/-- The files of a writer that is given up are removed, and nothing else. -/
theorem abort_eq {w : Writer} {building sidecar : List String}
    (hbuilding : disk.follow w.building = .ok (.inside building))
    (hnames : disk.entry? building ≠ some .directory)
    (hsidecar : disk.follow w.sidecar = .ok (.inside sidecar))
    (hnames' : disk.entry? sidecar ≠ some .directory) :
    (w.abort disk).1 = (disk.set building none).set sidecar none := by
  have hagrees := agrees_set hnames none (by simp)
  show (removePartial (removePartial disk w.building).1 w.sidecar).1 = _
  rw [removePartial_eq hbuilding hnames,
    removePartial_eq (hagrees.follow_iff.2 hsidecar) (hagrees.ne_directory hnames')]

end Index.Writer

end IpAtlas
