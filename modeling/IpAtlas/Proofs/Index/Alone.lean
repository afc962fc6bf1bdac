import IpAtlas.Proofs.Index.Session.Calls
import IpAtlas.Proofs.Storage

/-!
# A writer that has the disk to itself

A writer whose disk nobody else changes leaves no trace but its index.  Its two files have names
where nothing was, which are never the names that the path of the index leads to, however the path
is spelled.  So when they are gone, the disk is what it was before, except where the index took its
place, and that happens in one step at the very end.

## What is here

* `Disk.ne_of_follow_appended` — a path does not lead to what it leads to with something behind it.
* `Disk.Unchanged` — disks that differ in nothing.
* `Writer.cleared` — a disk without what an earlier writer may have left.
* `Writer.Alone` — what a writer has done to the disk.
* `Writer.alone_of_create`, `Writer.Alone.abort`, `Writer.Alone.finish` — from its first call to its
  last.
-/

set_option autoImplicit false

namespace IpAtlas

namespace Disk

variable {disk disk' : Disk} {p : Path} {names goal : List String}

/-! ## A path and one that begins like it -/

/-- The two paths go the same way up to their last names. -/
theorem segments_pair (p : Path) {suffix : String} (h : '/' ∉ suffix.toList) :
    ∃ front last, p.segments = front ++ [last] ∧
      (p.appended suffix).segments = front ++ [last ++ suffix] := by
  obtain ⟨front, last, hp, happend⟩ := Path.splitSlash_append p.text.toList h
  refine ⟨front.map String.ofList, String.ofList last, ?_, ?_⟩
  · rw [Path.segments, hp, List.map_append, List.map_singleton]
  · rw [Path.segments, Path.appended, String.toList_append, happend, List.map_append,
      List.map_singleton, String.ofList_append, String.ofList_toList]

theorem isAbsolute_appended (p : Path) (suffix : String) (h : p.text ≠ "") :
    (p.appended suffix).isAbsolute = p.isAbsolute := by
  have hne : p.text.toList ≠ [] := fun hnil => h (String.toList_eq_nil_iff.1 hnil)
  rw [Path.isAbsolute, Path.isAbsolute, Path.appended, String.toList_append,
    List.head?_append_of_ne_nil _ hne]

/-- Where the last step may lead: to the same directory, up, or to a name in it. -/
theorem names_of_step {before : List String} {segment : String}
    (h : disk.step (.inside before) segment = .ok (.inside goal)) :
    goal = before ∨ goal = before.dropLast ∨ goal = before ++ [segment] := by
  rw [step.eq_def] at h
  split at h
  · cases h
  · cases h
  split at h
  · exact Or.inl (Place.inside.inj (Except.ok.inj h)).symm
  dsimp only at h
  split at h
  · split at h
    · cases Except.ok.inj h
    · exact Or.inr (Or.inl (Place.inside.inj (Except.ok.inj h)).symm)
  · split at h
    · cases h
    · exact Or.inr (Or.inr (Place.inside.inj (Except.ok.inj h)).symm)

/-- The last step does not lead to two places that differ in what is written behind its name. -/
theorem ne_of_step {place : Place} {last suffix : String} (hlong : 2 < suffix.toList.length)
    (h : disk.step place last = .ok (.inside goal))
    (h' : disk.step place (last ++ suffix) = .ok (.inside names)) : goal ≠ names := by
  have hname : 2 < (last ++ suffix).toList.length := by
    rw [String.toList_append, List.length_append]
    omega
  obtain ⟨before, rfl, hnames⟩ := inside_of_step_name hname h'
  obtain rfl := Place.inside.inj hnames
  intro heq
  rcases names_of_step h with rfl | rfl | rfl
  · simpa using congrArg List.length heq
  · have hlength := congrArg List.length heq
    rw [List.length_dropLast, List.length_append, List.length_singleton] at hlength
    omega
  · have hsame : last = last ++ suffix := by simpa using heq
    have hlength := congrArg (fun s : String => s.toList.length) hsame
    simp only [String.toList_append, List.length_append] at hlength
    omega

/-- **A path does not lead to what it leads to with something written behind it.** -/
theorem ne_of_follow_appended {suffix : String} (hslash : '/' ∉ suffix.toList)
    (hlong : 2 < suffix.toList.length) (h : disk.follow p = .ok (.inside goal))
    (h' : disk.follow (p.appended suffix) = .ok (.inside names)) : goal ≠ names := by
  obtain ⟨front, last, hp, happended⟩ := segments_pair p hslash
  rw [follow] at h h'
  split at h
  · cases h
  rename_i hempty
  split at h
  · cases h
  split at h'
  · cases h'
  split at h'
  · cases h'
  rw [hp, List.foldlM_append] at h
  rw [happended, List.foldlM_append, isAbsolute_appended p suffix hempty] at h'
  obtain ⟨place, hfront, hlast⟩ := exists_of_bind_eq_ok h
  obtain ⟨place', hfront', hlast'⟩ := exists_of_bind_eq_ok h'
  obtain rfl : place = place' := Except.ok.inj (hfront.symm.trans hfront')
  obtain ⟨found, hstep, hfound⟩ := exists_of_bind_eq_ok hlast
  obtain ⟨found', hstep', hfound'⟩ := exists_of_bind_eq_ok hlast'
  obtain rfl : found = .inside goal := Except.ok.inj hfound
  obtain rfl : found' = .inside names := Except.ok.inj hfound'
  exact ne_of_step hlong hstep hstep'

/-- Neither of the two files of a number is where the path leads that it belongs to. -/
theorem ne_of_follow_building {process number : Nat} (h : disk.follow p = .ok (.inside goal))
    (h' : disk.follow (p.appended (buildingSuffix process number)) = .ok (.inside names)) :
    goal ≠ names := by
  have hlong : 2 < (buildingSuffix process number).toList.length := by
    simp [toList_buildingSuffix]
    omega
  exact ne_of_follow_appended (slash_not_mem_buildingSuffix process number) hlong h h'

theorem ne_of_follow_table {process number : Nat} (h : disk.follow p = .ok (.inside goal))
    (h' : disk.follow (p.appended (tableSuffix process number)) = .ok (.inside names)) :
    goal ≠ names := by
  have hlong : 2 < (tableSuffix process number).toList.length := by
    simp [tableSuffix, toList_buildingSuffix]
    omega
  exact ne_of_follow_appended (slash_not_mem_tableSuffix process number) hlong h h'

/-- A path leads to one place. -/
theorem Leads.eq (h : disk.Leads p names) (h' : disk.Leads p goal) : names = goal :=
  Place.inside.inj (Except.ok.inj (h.symm.trans h'))

theorem entry?_set_self (h : disk.entry? names ≠ some .directory) (entry : Option Entry) :
    Disk.entry? (disk.set names entry) names = entry :=
  (entry?_set (ne_nil_of_not_directory h) entry names).trans (if_pos rfl)

/-! ## Nothing changed -/

/-- The same files and directories are there. -/
def Unchanged (disk disk' : Disk) : Prop := ∀ names, disk'.entry? names = disk.entry? names

theorem unchanged_refl (disk : Disk) : disk.Unchanged disk := fun _ => rfl

theorem Agrees.unchanged {touched : List String → Prop} (h : disk.Agrees touched disk')
    (hsame : ∀ names, touched names → disk'.entry? names = disk.entry? names) :
    disk.Unchanged disk' := by
  intro names
  by_cases ht : touched names
  · exact hsame names ht
  · exact h.elsewhere names ht

theorem Unchanged.agrees (h : disk.Unchanged disk') (touched : List String → Prop) :
    disk.Agrees touched disk' :=
  ⟨fun names => by rw [h], fun names _ => h names⟩

theorem Unchanged.trans {disk'' : Disk} (h : disk.Unchanged disk') (h' : disk'.Unchanged disk'') :
    disk.Unchanged disk'' :=
  fun names => (h' names).trans (h names)

theorem Unchanged.content_eq (h : disk.Unchanged disk') (p : Path) :
    disk'.content p = disk.content p :=
  (h.agrees fun _ => False).content_eq fun _ _ => not_false

end Disk

/-! ## Writers -/

namespace Index.Writer

open Disk

/-- What a writer has done to the disk: its two files are there, at names where nothing was and
which the path of its index does not lead to, and nothing else is another. -/
structure Alone (before disk : Disk) (w : Writer) (building sidecar : List String) : Prop where
  building_leads : before.Leads w.building building
  sidecar_leads : before.Leads w.sidecar sidecar
  ne : building ≠ sidecar
  building_absent : before.entry? building = none
  sidecar_absent : before.entry? sidecar = none
  building_file : ∃ contents, disk.entry? building = some (.file contents)
  sidecar_file : ∃ contents, disk.entry? sidecar = some (.file contents)
  agrees : before.Agrees (fun names => names = building ∨ names = sidecar) disk
  apart : ∀ goal, before.Leads w.path goal → goal ≠ building ∧ goal ≠ sidecar

/-- The disk without the file that may have been left at the name of the table of the next writer.
That writer begins it anew, and it is gone when the writer is. -/
def cleared (before : Disk) (path : Path) : Disk :=
  (removePartial before (Session.fresh before path).writer.sidecar).1

section

variable {before disk disk' : Disk} {path path' : Path} {w : Writer}
  {building sidecar : List String} {remarks : Journal}

/-- Usually there is none. -/
theorem cleared_of_not_file (h : ¬ before.HasFile (Session.fresh before path).writer.sidecar) :
    cleared before path = before := removePartial_of_not_file h

theorem agrees_cleared (before : Disk) (path : Path) :
    before.Agrees (before.Leads (Session.fresh before path).writer.sidecar)
      (cleared before path) := by
  by_cases hfile : before.HasFile (Session.fresh before path).writer.sidecar
  · exact (agrees_removePartial hfile.ne_directory).1
  · rw [cleared_of_not_file hfile]
    exact agrees_refl _ _

/-- The path of the index leads to what it led to. -/
theorem content_cleared (before : Disk) (path : Path) :
    (cleared before path).content path = before.content path := by
  refine (agrees_cleared before path).content_eq fun names hleads hsidecar => ?_
  rw [Leads, Session.sidecar_eq] at hsidecar
  exact ne_of_follow_table hleads hsidecar rfl

/-- **A writer that was created** has two files, and has changed nothing else. -/
theorem alone_of_create (h : create before path = (.ok w, disk)) :
    w.path = path ∧ ∃ building sidecar, w.Alone (cleared before path) disk building sidecar := by
  rw [Session.create_eq] at h
  split at h
  · rename_i both hcreated
    obtain ⟨rfl, rfl⟩ : (Session.fresh before path).writer = w ∧ both = disk :=
      ⟨Except.ok.inj (Prod.mk.inj h).1, (Prod.mk.inj h).2⟩
    obtain ⟨begun, hbuilding, hsidecar⟩ := exists_of_bind_eq_ok hcreated
    obtain ⟨building, hb, hbnone, -⟩ := exists_of_create hbuilding
    obtain ⟨hbegun, hbfile⟩ := agrees_of_create hbuilding
    obtain ⟨sidecar, hs, -⟩ := exists_of_recreate hsidecar
    obtain ⟨hboth, hsfile⟩ := agrees_of_recreate hsidecar
    have hfresh := agrees_freshPath before path
    have hbleads := hfresh.follow_iff.1 hb
    have hsleads := hfresh.follow_iff.1 (hbegun.follow_iff.1 hs)
    have hne : building ≠ sidecar := by
      rintro rfl
      exact Session.not_leads_both hbleads hsleads
    have hbegun := (hfresh.mono fun _ => False.elim).trans
      (hbegun.mono fun _ hleads => hleads.eq hb)
    have hboth := hboth.mono fun _ hleads => hleads.eq hs
    have hbentry := (content_of_follow (hbegun.follow_iff.2 hbleads)).symm.trans hbfile
    have hsentry := (content_of_follow (hboth.follow_iff.2 hs)).symm.trans hsfile
    -- what was at the name of the table is no directory, so it is gone once it is cleared
    have hsnot : before.entry? sidecar ≠ some .directory := fun hdir =>
      nomatch ((hboth.directory_iff _).2 ((hbegun.directory_iff _).2 hdir)).symm.trans hsentry
    have hsnot : before.content (Session.fresh before path).writer.sidecar ≠ some .directory := by
      rw [content_of_follow hsleads]
      exact hsnot
    obtain ⟨hcleared, hsnone⟩ := agrees_removePartial hsnot
    have hcleared := hcleared.mono fun _ hleads => hleads.eq hsleads
    refine ⟨rfl, building, sidecar,
      { building_leads := hcleared.follow_iff.2 hbleads
        sidecar_leads := hcleared.follow_iff.2 hsleads
        ne := hne
        building_absent := (hcleared.elsewhere building hne).trans hbnone
        sidecar_absent := (content_of_follow (hcleared.follow_iff.2 hsleads)).symm.trans hsnone
        building_file := ⟨[], (hboth.elsewhere building hne).trans hbentry⟩
        sidecar_file := ⟨[], hsentry⟩
        agrees := ?_
        apart := fun goal hgoal => ?_ }⟩
    · exact (hcleared.symm.mono fun _ => Or.inr).trans
        ((hbegun.mono fun _ => Or.inl).trans (hboth.mono fun _ => Or.inr))
    · have hgoal := hcleared.follow_iff.1 hgoal
      rw [Session.sidecar_eq] at hsleads
      exact ⟨ne_of_follow_building hgoal hbleads, ne_of_follow_table hgoal hsleads⟩
  · exact nomatch (Prod.mk.inj h).1

/-- A writer that cannot be created has changed nothing. -/
theorem unchanged_of_create {e : Error} (h : create before path = (.error e, disk)) :
    before.Unchanged disk := by
  rw [Session.create_eq] at h
  split at h
  · exact nomatch (Prod.mk.inj h).1
  · rw [← (Prod.mk.inj h).2]
    exact fun _ => rfl

theorem Alone.append (h : w.Alone before disk building sidecar) (e : Entry) :
    (w.append e).Alone before disk building sidecar :=
  ⟨h.building_leads, h.sidecar_leads, h.ne, h.building_absent, h.sidecar_absent, h.building_file,
    h.sidecar_file, h.agrees, h.apart⟩

/-- Its two files are there, -/
theorem Alone.files (h : w.Alone before disk building sidecar) :
    disk.HasFile w.building ∧ disk.HasFile w.sidecar := by
  obtain ⟨contents, hbuilding⟩ := h.building_file
  obtain ⟨contents', hsidecar⟩ := h.sidecar_file
  exact ⟨⟨contents, none, content_eq_file_iff.2
      ⟨_, h.agrees.follow_iff.2 h.building_leads, hbuilding⟩⟩,
    ⟨contents', none, content_eq_file_iff.2
      ⟨_, h.agrees.follow_iff.2 h.sidecar_leads, hsidecar⟩⟩⟩

/-- and not on a disk that differs from the first in the index at most. -/
theorem Alone.gone (h : w.Alone before disk building sidecar)
    (hagrees : before.Agrees (before.Leads w.path) disk') :
    disk'.content w.building = none ∧ disk'.content w.sidecar = none := by
  constructor
  · rw [content_of_follow (hagrees.follow_iff.2 h.building_leads)]
    exact (hagrees.elsewhere _ fun hpath => (h.apart _ hpath).1 rfl).trans h.building_absent
  · rw [content_of_follow (hagrees.follow_iff.2 h.sidecar_leads)]
    exact (hagrees.elsewhere _ fun hpath => (h.apart _ hpath).2 rfl).trans h.sidecar_absent

/-- **A writer that is given up leaves nothing.** -/
theorem Alone.abort (h : w.Alone before disk building sidecar) :
    before.Unchanged (w.abort disk).1 := by
  obtain ⟨contents, hbuilding⟩ := h.building_file
  obtain ⟨contents', hsidecar⟩ := h.sidecar_file
  have hbnot : disk.entry? building ≠ some .directory := by simp [hbuilding]
  have hsnot : disk.entry? sidecar ≠ some .directory := by simp [hsidecar]
  have hcleared := agrees_set hbnot none (by simp)
  have hsnot' := hcleared.ne_directory hsnot
  have hgone := agrees_set hsnot' none (by simp)
  rw [abort_eq (h.agrees.follow_iff.2 h.building_leads) hbnot
    (h.agrees.follow_iff.2 h.sidecar_leads) hsnot]
  refine (h.agrees.trans ((hcleared.mono fun _ => Or.inl).trans
    (hgone.mono fun _ => Or.inr))).unchanged ?_
  rintro names (rfl | rfl)
  · rw [hgone.elsewhere names h.ne, entry?_set_self hbnot, h.building_absent]
  · rw [entry?_set_self hsnot', h.sidecar_absent]

/-- Before a writer moves its file, the table is gone and the file is complete. -/
theorem Alone.exists_filled (h : w.Alone before disk building sidecar) :
    ∃ filled, w.complete disk = Disk.rename filled w.building w.path ∧
      before.Agrees (· = building) filled ∧
      filled.entry? building = some (.file (image w.entries.toList)) := by
  obtain ⟨contents, hbuilding⟩ := h.building_file
  obtain ⟨contents', hsidecar⟩ := h.sidecar_file
  have hsnot : disk.entry? sidecar ≠ some .directory := by simp [hsidecar]
  have hcleared := agrees_set hsnot none (by simp)
  have hbuilding' := (hcleared.elsewhere building h.ne).trans hbuilding
  have hbleads := hcleared.follow_iff.2 (h.agrees.follow_iff.2 h.building_leads)
  have hfilled := agrees_update hbuilding' (image w.entries.toList)
  refine ⟨_, ?_, ⟨?_, fun names hne => ?_⟩, (entry?_update hbuilding' _ building).trans (if_pos rfl)⟩
  · rw [complete, remove_of_file (h.agrees.follow_iff.2 h.sidecar_leads) hsidecar,
      ← refill_of_file _ hbleads hbuilding']
    rfl
  · exact fun names => (hfilled.directory_iff names).trans
      ((hcleared.directory_iff names).trans (h.agrees.directory_iff names))
  · rw [hfilled.elsewhere names hne]
    by_cases hs : names = sidecar
    · rw [hs, entry?_set_self hsnot, h.sidecar_absent]
    · rw [hcleared.elsewhere names hs, h.agrees.elsewhere names (not_or.2 ⟨hne, hs⟩)]

/-- When it has moved it, its two files are gone. -/
theorem Alone.complete (h : w.Alone before disk building sidecar)
    (hcomplete : w.complete disk = .ok disk') :
    before.Receives w.path ∧ ∃ goal, before.Leads w.path goal ∧ before.Agrees (· = goal) disk' ∧
      disk'.entry? goal = some (.file (image w.entries.toList)) := by
  obtain ⟨filled, hrename, hfilled, hbuilding⟩ := h.exists_filled
  rw [hcomplete] at hrename
  have hbleads := hfilled.follow_iff.2 h.building_leads
  have hcontent := content_eq_file_iff.2 ⟨_, hbleads, hbuilding⟩
  have hreceives : before.Receives w.path := by
    rw [← hfilled.receives_iff, ← rename_isOk_iff ⟨_, _, hcontent⟩, ← hrename]
    rfl
  obtain ⟨goal, hgoal, hmoved, hentry, hgone⟩ := agrees_of_rename hrename.symm
  have hpath := hfilled.follow_iff.1 hgoal
  obtain ⟨hne, -⟩ := h.apart goal hpath
  have hall : before.Agrees (fun names => names = building ∨ names = goal) disk' :=
    (hfilled.mono fun _ => Or.inl).trans
      (hmoved.mono fun _ => Or.imp_left fun hleads => hleads.eq hbleads)
  refine ⟨hreceives, goal, hpath, ⟨hall.directory_iff, fun names hnot => ?_⟩, hentry.trans hcontent⟩
  by_cases hb : names = building
  · have hnone := hgone fun hleads => hne (hleads.eq hbleads)
    rw [content_of_follow (hmoved.follow_iff.2 hbleads)] at hnone
    rw [hb, h.building_absent]
    exact hnone
  · exact hall.elsewhere names (not_or.2 ⟨hb, hnot⟩)

/-- **A writer that is finished leaves its index, and nothing else.**  If it cannot be finished it
leaves nothing. -/
theorem Alone.finish (h : w.Alone before disk building sidecar) :
    ((w.finish disk).1 = .ok w.path ∧ before.Receives w.path ∧ ∃ goal, before.Leads w.path goal ∧
      before.Agrees (· = goal) (w.finish disk).2.1 ∧
      Disk.entry? (w.finish disk).2.1 goal = some (.file (image w.entries.toList))) ∨
    (∃ e, (w.finish disk).1 = .error e) ∧ before.Unchanged (w.finish disk).2.1 := by
  rw [Writer.finish]
  cases hcomplete : w.complete disk with
  | ok disk' => exact Or.inl ⟨rfl, h.complete hcomplete⟩
  | error e => exact Or.inr ⟨⟨_, rfl⟩, h.abort⟩

end

end Index.Writer

end IpAtlas
