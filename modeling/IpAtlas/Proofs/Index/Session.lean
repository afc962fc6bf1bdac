import IpAtlas.Proofs.Disk.Volume.Spares
import IpAtlas.Proofs.Temporary

/-!
# Writing an index file, step by step

What a writer does on the disk is done one file at a time, and between two of these steps others may
do theirs.  A session is a writer together with how far it has come and the files it has open; a
move of it is a call, or the next step of the call that is going on, or the failure of that step.
While it takes entries, what is in its files may be anything.  A session changes its own two files
and nothing else, until the one step that moves its file to its path; and it knows of its two files
whether they are there.

## What is here

* `Volume.Settled`, `Volume.settled_of_holds` — files that nobody writes.
* `Session`, `Session.act` — a writer step by step.
* `Session.Keeps` — what is on the volume at every stage.
* `Session.Acted`, `Session.acted_of_act` — what a move comes to.
* `Session.Touches.content_eq`, `Session.Acted.keeps_other`, `Session.Leaves.settled` — what others
  see of it.
-/

set_option autoImplicit false

namespace IpAtlas

/-! ## Files that nobody writes -/

/-- A file that has none of the names under which files are written. -/
def Volume.Settled (v : Volume) (n : Nat) : Prop := ∀ number, v.Clear (Disk.Temporary number) n

/-- **What is found at any other path is such a file.** -/
theorem Volume.settled_of_holds {v : Volume} {p : Path} {n : Nat} (hp : ¬ p.IsTemporary)
    (h : v.Holds p n) : v.Settled n := by
  obtain ⟨names, hleads, hlink⟩ := h
  refine fun number => ⟨lt_of_link? hlink, fun names' htemporary hlink' => ?_⟩
  rw [← link?_inj hlink hlink'] at htemporary
  exact Path.not_temporary_of_follow hp hleads number htemporary

namespace Index

open Disk

/-- How far a writer has come. -/
inductive Stage where
  /-- It has names for its files. -/
  | named
  /-- It has the first file. -/
  | begun
  /-- The second can not be created; the first is still there. -/
  | undoing
  /-- It could not be created. -/
  | refused
  /-- It has both files, and takes entries. -/
  | taking
  /-- It is to be finished; the table is still there. -/
  | sealing
  /-- Its file is to be completed. -/
  | filling
  /-- Its file is complete. -/
  | moving
  /-- It is given up; both files may be there. -/
  | clearing
  /-- The first file is gone. -/
  | leaving
  /-- It has come to its end; its file took its place, or did not. -/
  | ended (published : Bool)
  deriving DecidableEq

/-- How many steps the call that is going on takes yet, at most. -/
def Stage.left : Stage → Nat
  | .named => 3
  | .begun => 2
  | .undoing => 1
  | .sealing => 5
  | .filling => 4
  | .moving => 3
  | .clearing => 2
  | .leaving => 1
  | .refused | .taking | .ended _ => 0

/-- What comes of a step that fails.  Those by which files are removed do not. -/
def Stage.failed : Stage → Option Stage
  | .named => some .refused
  | .begun => some .undoing
  | .sealing | .filling | .moving => some .clearing
  | .undoing | .refused | .taking | .clearing | .leaving | .ended _ => none

/-- A step that can fail is one of a call that goes on, and the failure publishes nothing. -/
theorem Stage.not_ended_of_failed {stage stage' : Stage} (h : stage.failed = some stage') :
    (∀ published, stage ≠ .ended published) ∧ stage' ≠ .ended true := by
  cases stage <;> simp only [Stage.failed, reduceCtorEq, Option.some.injEq] at h <;> simp [← h]

/-- A writer and how far it has come.  The names of its files have the number that was handed out to
it. -/
structure Session where
  path : Path
  process : Nat
  number : Nat
  entries : Array Entry := #[]
  stage : Stage := .named
  /-- The file it has open for the index, -/
  records : Nat := 0
  /-- and the one for the table. -/
  table : Nat := 0

/-- A call of a writer, or what becomes of the call that is going on. -/
inductive Move where
  | append (e : Entry)
  | finish
  | abort
  /-- The next step. -/
  | advance
  /-- The next step fails. -/
  | fail
  /-- What was written so far comes to the files, in whatever portions. -/
  | flush (records table : Bytes)

/-- The entry that a move adds, if it adds one. -/
def Move.entry? : Move → Option Entry
  | .append e => some e
  | _ => none

namespace Session

/-- The session that a writer begins with. -/
def fresh (disk : Disk) (path : Path) : Session :=
  { path, process := disk.process, number := disk.handedOut }

/-- The writer of a session. -/
def writer (s : Session) : Writer where
  path := s.path
  building := s.path.appended (buildingSuffix s.process s.number)
  sidecar := (s.path.appended (buildingSuffix s.process s.number)).appended ".offsets.tmp"
  entries := s.entries

/-- The session at another stage. -/
def atStage (s : Session) (stage : Stage) : Session := { s with stage }

/-- The next step of the call that is going on, if there is one. -/
def advance (s : Session) (v : Volume) : Option (Session × Volume) :=
  match s.stage with
  | .named =>
    match v.create s.writer.building with
    | .ok (records, v) => some ({ s with records, stage := .begun }, v)
    | .error _ => some (s.atStage .refused, v)
  | .begun =>
    match v.recreate s.writer.sidecar with
    | .ok (table, v) => some ({ s with table, stage := .taking }, v)
    | .error _ => some (s.atStage .undoing, v)
  | .undoing => some (s.atStage .refused, v.removePartial s.writer.building)
  | .sealing =>
    match v.remove s.writer.sidecar with
    | .ok v => some (s.atStage .filling, v)
    | .error _ => some (s.atStage .clearing, v)
  | .filling => some (s.atStage .moving, v.write s.records (image s.entries.toList))
  | .moving =>
    match v.rename s.writer.building s.path with
    | .ok v => some (s.atStage (.ended true), v)
    | .error _ => some (s.atStage .clearing, v)
  | .clearing => some (s.atStage .leaving, v.removePartial s.writer.building)
  | .leaving => some (s.atStage (.ended false), v.removePartial s.writer.sidecar)
  | .refused | .taking | .ended _ => none

/-- A move of a session: calls are taken while it takes entries, and steps while a call goes on. -/
def act (s : Session) (v : Volume) : Move → Option (Session × Volume)
  | .append e =>
    if s.stage = .taking then some ({ s with entries := (s.writer.append e).entries }, v) else none
  | .finish => if s.stage = .taking then some (s.atStage .sealing, v) else none
  | .abort => if s.stage = .taking then some (s.atStage .clearing, v) else none
  | .advance => s.advance v
  | .fail => s.stage.failed.map fun stage => (s.atStage stage, v)
  | .flush records table =>
    if s.stage = .taking ∨ s.stage = .sealing then
      some (s, (v.write s.records records).write s.table table)
    else none

/-- What is on the volume at every stage. -/
def Keeps (v : Volume) (s : Session) : Prop :=
  match s.stage with
  | .named | .refused => True
  | .begun | .undoing => v.Holds s.writer.building s.records
  | .taking | .sealing => v.Holds s.writer.building s.records ∧ v.Holds s.writer.sidecar s.table
  | .filling => v.Holds s.writer.building s.records ∧ v.disk.content s.writer.sidecar = none
  | .moving => v.Holds s.writer.building s.records ∧
      v.node s.records = ⟨image s.entries.toList, none⟩ ∧ v.disk.content s.writer.sidecar = none
  | .clearing => v.Holds s.writer.building s.records ∧
      v.disk.content s.writer.sidecar ≠ some .directory
  | .leaving => v.disk.content s.writer.building = none ∧
      v.disk.content s.writer.sidecar ≠ some .directory
  | .ended _ => v.disk.content s.writer.building = none ∧ v.disk.content s.writer.sidecar = none

section

variable {s s' : Session} {disk disk' : Disk} {v v' : Volume} {names : List String}

/-- A session that takes entries has both its files, and so has one that begins to finish. -/
theorem keeps_iff_files (hstage : s.stage = .taking ∨ s.stage = .sealing) :
    s.Keeps v ↔ v.Holds s.writer.building s.records ∧ v.Holds s.writer.sidecar s.table := by
  rcases hstage with hstage | hstage <;> rw [Keeps, hstage]

/-! ## Names -/

theorem sidecar_eq (s : Session) :
    s.writer.sidecar = s.path.appended (tableSuffix s.process s.number) := by
  rw [writer, tableSuffix, Path.appended, Path.appended, Path.appended, String.append_assoc]

/-- The first file of a session has its number. -/
theorem temporary_building (h : disk.Leads s.writer.building names) :
    Temporary s.number names := by
  obtain ⟨front, stem, hplace⟩ := inside_of_follow_building h
  obtain rfl : names = _ := by simpa using hplace
  exact ⟨s.process, stem, Or.inl (by simp)⟩

/-- And so does the table. -/
theorem temporary_sidecar (h : disk.Leads s.writer.sidecar names) : Temporary s.number names := by
  rw [Leads, sidecar_eq] at h
  obtain ⟨front, stem, hplace⟩ := inside_of_follow_table h
  obtain rfl : names = _ := by simpa using hplace
  exact ⟨s.process, stem, Or.inr (by simp)⟩

/-- They are two. -/
theorem not_leads_both (h : disk.Leads s.writer.building names) :
    ¬ disk.Leads s.writer.sidecar names := by
  intro h'
  rw [Leads, sidecar_eq] at h'
  obtain ⟨front, stem, hplace⟩ := inside_of_follow_building h
  obtain ⟨front', stem', hplace'⟩ := inside_of_follow_table h'
  rw [Place.inside.injEq] at hplace hplace'
  have hlast := congrArg List.getLast? (hplace.symm.trans hplace')
  rw [List.getLast?_concat, List.getLast?_concat, Option.some_inj] at hlast
  exact building_ne_table _ _ _ _ _ _ hlast

/-- What happens to the table does not happen to the first file, -/
theorem holds_building_of_spares (hholds : v.Holds s.writer.building s.records)
    (h : v.Spares (v.disk.Leads s.writer.sidecar) v') : v'.Holds s.writer.building s.records :=
  h.holds hholds fun _ hleads => not_leads_both hleads

theorem content_building_of_spares (h : v.Spares (v.disk.Leads s.writer.sidecar) v') :
    v'.disk.content s.writer.building = v.disk.content s.writer.building :=
  h.agrees.content_eq fun _ hleads => not_leads_both hleads

/-- and the other way round. -/
theorem holds_sidecar_of_spares (hholds : v.Holds s.writer.sidecar s.table)
    (h : v.Spares (v.disk.Leads s.writer.building) v') : v'.Holds s.writer.sidecar s.table :=
  h.holds hholds fun _ hleads hbuilding => not_leads_both hbuilding hleads

theorem content_sidecar_of_spares (h : v.Spares (v.disk.Leads s.writer.building) v') :
    v'.disk.content s.writer.sidecar = v.disk.content s.writer.sidecar :=
  h.agrees.content_eq fun _ hleads hbuilding => not_leads_both hbuilding hleads

/-! ## Moves -/

/-- Of the disk nothing but the two files of a session is another, or else its file has taken its
place, complete. -/
def Touches (s : Session) (disk : Disk) (s' : Session) (disk' : Disk) : Prop :=
  (s'.stage ≠ .ended true ∧ disk.Agrees (Temporary s.number) disk') ∨
    (s'.stage = .ended true ∧ ∃ goal, disk.Leads s.path goal ∧
      disk.Agrees (fun names => Temporary s.number names ∨ names = goal) disk' ∧
      disk'.entry? goal = some (.file (image s'.entries.toList)))

/-- A session leaves files alone that have none of its names, and the names of others. -/
structure Leaves (number : Nat) (v v' : Volume) : Prop where
  node_eq : ∀ n, v.Clear (Temporary number) n → v'.node n = v.node n
  clear : ∀ n, v.Clear (Temporary number) n → v'.Clear (Temporary number) n
  link?_eq : ∀ other names, other ≠ number → Temporary other names →
    v'.link? names = v.link? names

/-- **What a move comes to.**  The session stays the session of its path and number, it has one
entry more at most, and what it keeps on the volume is there. -/
structure Acted (s : Session) (v : Volume) (move : Move) (s' : Session) (v' : Volume) : Prop where
  path_eq : s'.path = s.path
  number_eq : s'.number = s.number
  entries_eq : s'.entries.toList = s.entries.toList ++ move.entry?.toList
  handedOut_eq : v'.handedOut = v.handedOut
  keeps : s'.Keeps v'
  not_ended : ∀ published, s.stage ≠ .ended published
  touches : s.Touches v.disk s' v'.disk
  leaves : Leaves s.number v v'

theorem leaves_of_spares (h : v.Spares (Temporary s.number) v') : Leaves s.number v v' where
  node_eq := h.node_eq
  clear := h.clear
  link?_eq _ names hne htemporary := h.link?_eq names fun h => hne (htemporary.number_eq h)

/-- A step that is not the one by which the file takes its place. -/
theorem acted_at {move : Move} {stage : Stage} {records table : Nat} (hmove : move.entry? = none)
    (hended : ∀ published, s.stage ≠ .ended published) (hstage : stage ≠ .ended true)
    (hspares : v.Spares (Temporary s.number) v')
    (hkeeps : Keeps v' { s with records, table, stage }) :
    s.Acted v move { s with records, table, stage } v' where
  path_eq := rfl
  number_eq := rfl
  entries_eq := by rw [hmove, Option.toList_none, List.append_nil]
  handedOut_eq := hspares.handedOut_eq
  keeps := hkeeps
  not_ended := hended
  touches := Or.inl ⟨hstage, hspares.agrees⟩
  leaves := leaves_of_spares hspares

/-- The step by which the file takes its place. -/
theorem acted_of_rename (hstage : s.stage = .moving) (hkeeps : s.Keeps v)
    (hpath : ¬ s.path.IsTemporary) (h : v.rename s.writer.building s.path = .ok v') :
    s.Acted v .advance (s.atStage (.ended true)) v' := by
  simp only [Keeps, hstage] at hkeeps
  obtain ⟨hholds, hnode, habsent⟩ := hkeeps
  have hdisk : v.disk.rename s.writer.building s.path = .ok v'.disk := by
    rw [← Volume.disk_rename, h]
    rfl
  obtain ⟨goal, hgoal, hagrees, hentry, hgone⟩ := agrees_of_rename hdisk
  have hnot : ∀ number, ¬ Temporary number goal := Path.not_temporary_of_follow hpath hgoal
  refine ⟨rfl, rfl, ?_, ?_, ⟨hgone fun hleads => hnot _ (temporary_building hleads), ?_⟩,
    by simp [hstage], Or.inr ⟨rfl, goal, hgoal, ?_, ?_⟩, ?_⟩
  · simp [atStage, Move.entry?]
  · obtain ⟨names, goal, n, hlink, -, -, -, rfl⟩ := Volume.exists_of_rename h
    rfl
  · refine (hagrees.content_eq ?_).trans habsent
    rintro names hleads (hbuilding | rfl)
    · exact not_leads_both hbuilding hleads
    · exact hnot _ (temporary_sidecar hleads)
  · exact hagrees.mono fun _ => Or.imp_left temporary_building
  · rw [hentry, hholds.content_eq, hnode]
    rfl
  · obtain ⟨names, goal', n, hlink, hbuilding, hgoal', hfile, rfl⟩ := Volume.exists_of_rename h
    obtain rfl : goal' = goal := Place.inside.inj (Except.ok.inj (hgoal'.symm.trans hgoal))
    refine ⟨fun _ _ => rfl, fun m hclear => hclear.put hlink hfile (hnot _),
      fun other names' hne htemporary => ?_⟩
    have hgoal : names' ≠ goal' := fun hsame => hnot other (hsame ▸ htemporary)
    rw [Volume.link?_put (Volume.ne_nil_of_link? hfile), if_neg hgoal, if_neg]
    intro hlink'
    rw [← Volume.link?_inj hlink hlink'] at htemporary
    exact hne (htemporary.number_eq (temporary_building hbuilding))

/-- A session that takes a step has not ended. -/
theorem not_ended_of_advance (h : s.advance v = some (s', v')) (published : Bool) :
    s.stage ≠ .ended published := by
  intro hstage
  rw [advance, hstage] at h
  exact nomatch h

/-- **Every step of a call comes to that**, one stage after the other. -/
theorem acted_of_advance (hkeeps : s.Keeps v) (hpath : ¬ s.path.IsTemporary)
    (h : s.advance v = some (s', v')) : s.Acted v .advance s' v' := by
  have hkept := hkeeps
  have hended := not_ended_of_advance h
  rw [advance] at h
  rw [Keeps] at hkeeps
  cases hstage : s.stage with
  | named =>
    simp only [hstage] at h
    split at h <;> obtain ⟨rfl, rfl⟩ := Prod.mk.inj (Option.some_inj.1 h)
    · rename_i hcreate
      obtain ⟨hspares, hholds⟩ := Volume.spares_of_create hcreate
      exact acted_at rfl hended (by simp) (hspares.mono fun _ => temporary_building) hholds
    · exact acted_at rfl hended (by simp) (Volume.spares_refl _ _) trivial
  | begun =>
    simp only [hstage] at h hkeeps
    split at h <;> obtain ⟨rfl, rfl⟩ := Prod.mk.inj (Option.some_inj.1 h)
    · rename_i hcreate
      obtain ⟨hspares, hholds⟩ := Volume.spares_of_recreate hcreate
      exact acted_at rfl hended (by simp) (hspares.mono fun _ => temporary_sidecar)
        ⟨holds_building_of_spares hkeeps hspares, hholds⟩
    · exact acted_at rfl hended (by simp) (Volume.spares_refl _ _) hkeeps
  | undoing =>
    simp only [hstage] at h hkeeps
    obtain ⟨rfl, rfl⟩ := Prod.mk.inj (Option.some_inj.1 h)
    obtain ⟨hspares, -⟩ := Volume.spares_removePartial hkeeps.hasFile.ne_directory
    exact acted_at rfl hended (by simp) (hspares.mono fun _ => temporary_building) trivial
  | sealing =>
    simp only [hstage] at h hkeeps
    split at h <;> obtain ⟨rfl, rfl⟩ := Prod.mk.inj (Option.some_inj.1 h)
    · rename_i hremove
      obtain ⟨hspares, hcontent⟩ := Volume.spares_of_remove hremove
      exact acted_at rfl hended (by simp) (hspares.mono fun _ => temporary_sidecar)
        ⟨holds_building_of_spares hkeeps.1 hspares, hcontent⟩
    · exact acted_at rfl hended (by simp) (Volume.spares_refl _ _)
        ⟨hkeeps.1, hkeeps.2.hasFile.ne_directory⟩
  | filling =>
    simp only [hstage] at h hkeeps
    obtain ⟨rfl, rfl⟩ := Prod.mk.inj (Option.some_inj.1 h)
    obtain ⟨hspares, hholds⟩ := hkeeps.1.spares_write (image s.entries.toList)
    exact acted_at rfl hended (by simp) (hspares.mono fun _ => temporary_building)
      ⟨hholds, Volume.node_write hkeeps.1.lt _, (content_sidecar_of_spares hspares).trans hkeeps.2⟩
  | moving =>
    simp only [hstage] at h hkeeps
    split at h <;> obtain ⟨rfl, rfl⟩ := Prod.mk.inj (Option.some_inj.1 h)
    · rename_i hrename
      exact acted_of_rename hstage hkept hpath hrename
    · exact acted_at rfl hended (by simp) (Volume.spares_refl _ _)
        ⟨hkeeps.1, ne_directory_of_none hkeeps.2.2⟩
  | clearing =>
    simp only [hstage] at h hkeeps
    obtain ⟨rfl, rfl⟩ := Prod.mk.inj (Option.some_inj.1 h)
    obtain ⟨hspares, hcontent⟩ := Volume.spares_removePartial hkeeps.1.hasFile.ne_directory
    exact acted_at rfl hended (by simp) (hspares.mono fun _ => temporary_building)
      ⟨hcontent, hspares.agrees.content_ne_directory hkeeps.2⟩
  | leaving =>
    simp only [hstage] at h hkeeps
    obtain ⟨rfl, rfl⟩ := Prod.mk.inj (Option.some_inj.1 h)
    obtain ⟨hspares, hcontent⟩ := Volume.spares_removePartial hkeeps.2
    exact acted_at rfl hended (by simp) (hspares.mono fun _ => temporary_sidecar)
      ⟨(content_building_of_spares hspares).trans hkeeps.1, hcontent⟩
  | refused => simp [hstage] at h
  | taking => simp [hstage] at h
  | ended published => simp [hstage] at h

/-- What is there before a step that fails is what the next stage wants. -/
theorem keeps_of_failed {stage : Stage} (hkeeps : s.Keeps v) (h : s.stage.failed = some stage) :
    (s.atStage stage).Keeps v := by
  rw [Keeps] at hkeeps
  cases hstage : s.stage <;> rw [hstage] at h hkeeps
  all_goals cases h
  case named => trivial
  case begun => exact hkeeps
  case sealing => exact ⟨hkeeps.1, hkeeps.2.hasFile.ne_directory⟩
  case filling => exact ⟨hkeeps.1, ne_directory_of_none hkeeps.2⟩
  case moving => exact ⟨hkeeps.1, ne_directory_of_none hkeeps.2.2⟩

/-- **So does a step that fails.** -/
theorem acted_of_fail (hkeeps : s.Keeps v) (h : s.act v .fail = some (s', v')) :
    s.Acted v .fail s' v' := by
  obtain ⟨stage, hfailed, hsame⟩ := Option.map_eq_some_iff.1 h
  obtain ⟨rfl, rfl⟩ := Prod.mk.inj hsame
  obtain ⟨hgoes, hended⟩ := Stage.not_ended_of_failed hfailed
  exact acted_at rfl hgoes hended (Volume.spares_refl _ _) (keeps_of_failed hkeeps hfailed)

/-- What is written while entries are taken is in the files of the session. -/
theorem acted_of_flush {records table : Bytes} (hkeeps : s.Keeps v)
    (h : s.act v (.flush records table) = some (s', v')) :
    s.Acted v (.flush records table) s' v' := by
  rw [act] at h
  split at h
  · rename_i hstage
    obtain ⟨rfl, rfl⟩ := Prod.mk.inj (Option.some_inj.1 h)
    obtain ⟨hbuilding, hsidecar⟩ := (keeps_iff_files hstage).1 hkeeps
    obtain ⟨hfirst, hbuilding⟩ := hbuilding.spares_write records
    obtain ⟨hsecond, hsidecar⟩ := (holds_sidecar_of_spares hsidecar hfirst).spares_write table
    have hended : ∀ published, s.stage ≠ .ended published := by
      rcases hstage with hstage | hstage <;> simp [hstage]
    exact acted_at rfl hended (hended true)
      ((hfirst.mono fun _ => temporary_building).trans (hsecond.mono fun _ => temporary_sidecar))
      ((keeps_iff_files hstage).2 ⟨holds_building_of_spares hbuilding hsecond, hsidecar⟩)
  · exact nomatch h

/-- **And every call.** -/
theorem acted_of_act {move : Move} (hkeeps : s.Keeps v) (hpath : ¬ s.path.IsTemporary)
    (h : s.act v move = some (s', v')) : s.Acted v move s' v' := by
  cases move with
  | advance => exact acted_of_advance hkeeps hpath h
  | fail => exact acted_of_fail hkeeps h
  | flush records table => exact acted_of_flush hkeeps h
  | append e =>
    rw [act] at h
    split at h
    · rename_i hstage
      obtain ⟨rfl, rfl⟩ := Prod.mk.inj (Option.some_inj.1 h)
      have hspares := Volume.spares_refl (Temporary s.number) v
      refine ⟨rfl, rfl, ?_, rfl, ?_, by simp [hstage], Or.inl ⟨by simp [hstage], hspares.agrees⟩,
        leaves_of_spares hspares⟩
      · simp [Writer.append, writer, Move.entry?]
      · simp only [Keeps, hstage]
        exact (keeps_iff_files (Or.inl hstage)).1 hkeeps
    · exact nomatch h
  | finish =>
    rw [act] at h
    split at h
    · rename_i hstage
      obtain ⟨rfl, rfl⟩ := Prod.mk.inj (Option.some_inj.1 h)
      exact acted_at rfl (by simp [hstage]) (by simp) (Volume.spares_refl _ _)
        ((keeps_iff_files (Or.inl hstage)).1 hkeeps)
    · exact nomatch h
  | abort =>
    rw [act] at h
    split at h
    · rename_i hstage
      obtain ⟨rfl, rfl⟩ := Prod.mk.inj (Option.some_inj.1 h)
      obtain ⟨hbuilding, hsidecar⟩ := (keeps_iff_files (Or.inl hstage)).1 hkeeps
      exact acted_at rfl (by simp [hstage]) (by simp) (Volume.spares_refl _ _)
        ⟨hbuilding, hsidecar.hasFile.ne_directory⟩
    · exact nomatch h

/-! ## What others see of a move -/

theorem Touches.agrees (h : s.Touches disk s' disk') : disk.Agrees (fun _ => True) disk' := by
  rcases h with ⟨-, hagrees⟩ | ⟨-, goal, -, hagrees, -⟩
  · exact hagrees.mono fun _ _ => trivial
  · exact hagrees.mono fun _ _ => trivial

/-- **What a path leads to afterwards**: what it led to, or the file if this took its place there. -/
theorem Touches.content_eq (h : s.Touches disk s' disk') {p : Path} (hp : ¬ p.IsTemporary) :
    disk'.content p =
      if s'.stage = .ended true ∧ disk.place? p = disk.place? s.path then
        some (.file (image s'.entries.toList))
      else disk.content p := by
  rcases h with ⟨hstage, hagrees⟩ | ⟨hstage, goal, hgoal, hagrees, hentry⟩
  · rw [if_neg fun h => hstage h.1]
    exact hagrees.content_eq fun names hleads => Path.not_temporary_of_follow hp hleads _
  · have hplace : disk.place? s.path = some (.inside goal) := place?_eq_some_iff.2 hgoal
    by_cases hsame : disk.place? p = disk.place? s.path
    · rw [if_pos ⟨hstage, hsame⟩,
        content_of_follow (hagrees.follow_iff.2 (place?_eq_some_iff.1 (hsame.trans hplace)))]
      exact hentry
    · rw [if_neg fun h => hsame h.2]
      refine hagrees.content_eq ?_
      rintro names hleads (htemporary | rfl)
      · exact Path.not_temporary_of_follow hp hleads _ htemporary
      · exact hsame ((place?_eq_some_iff.2 hleads).trans hplace.symm)

/-- What a session keeps depends on its files only. -/
theorem keeps_of_files (hkeeps : s.Keeps v)
    (hbuilding : v.Holds s.writer.building s.records → v'.Holds s.writer.building s.records ∧
      v'.node s.records = v.node s.records)
    (hsidecar : v.Holds s.writer.sidecar s.table → v'.Holds s.writer.sidecar s.table)
    (hcontent : v'.disk.content s.writer.building = v.disk.content s.writer.building)
    (hcontent' : v'.disk.content s.writer.sidecar = v.disk.content s.writer.sidecar) :
    s.Keeps v' := by
  rw [Keeps] at hkeeps ⊢
  rw [hcontent, hcontent']
  cases hstage : s.stage <;> simp only [hstage] at hkeeps ⊢
  case begun | undoing => exact (hbuilding hkeeps).1
  case taking | sealing => exact ⟨(hbuilding hkeeps.1).1, hsidecar hkeeps.2⟩
  case filling | clearing => exact ⟨(hbuilding hkeeps.1).1, hkeeps.2⟩
  case moving => exact ⟨(hbuilding hkeeps.1).1, (hbuilding hkeeps.1).2.trans hkeeps.2.1, hkeeps.2.2⟩
  case leaving | ended => exact hkeeps

/-- **A session of another number keeps what it keeps.** -/
theorem Acted.keeps_other {move : Move} (h : s.Acted v move s' v') (hpath : ¬ s.path.IsTemporary)
    {other : Session} (hne : other.number ≠ s.number) (hkeeps : other.Keeps v) :
    other.Keeps v' := by
  have hkept : ∃ touched : List String → Prop, v.disk.Agrees touched v'.disk ∧
      ∀ names, Temporary other.number names → ¬ touched names := by
    rcases h.touches with ⟨-, hagrees⟩ | ⟨-, goal, hgoal, hagrees, -⟩
    · exact ⟨_, hagrees, fun names htemporary h => hne (htemporary.number_eq h)⟩
    · refine ⟨_, hagrees, ?_⟩
      rintro names htemporary (h | rfl)
      · exact hne (htemporary.number_eq h)
      · exact Path.not_temporary_of_follow hpath hgoal _ htemporary
  obtain ⟨touched, hagrees, hnot⟩ := hkept
  refine keeps_of_files hkeeps ?_ ?_
    (hagrees.content_eq fun _ hleads => hnot _ (temporary_building hleads))
    (hagrees.content_eq fun _ hleads => hnot _ (temporary_sidecar hleads))
  · rintro ⟨names, hleads, hlink⟩
    have htemporary := temporary_building hleads
    refine ⟨⟨names, hagrees.follow_iff.2 hleads,
      (h.leaves.link?_eq _ names hne htemporary).trans hlink⟩, h.leaves.node_eq _ ?_⟩
    refine ⟨Volume.lt_of_link? hlink, fun names' htemporary' hlink' => ?_⟩
    rw [← Volume.link?_inj hlink hlink'] at htemporary'
    exact hne (htemporary.number_eq htemporary')
  · rintro ⟨names, hleads, hlink⟩
    exact ⟨names, hagrees.follow_iff.2 hleads,
      (h.leaves.link?_eq _ names hne (temporary_sidecar hleads)).trans hlink⟩

/-- **Nobody writes into a file that has none of the names of those who write.** -/
theorem Leaves.settled {number n : Nat} (h : Leaves number v v') (hn : v.Settled n) :
    v'.Settled n := by
  intro other
  by_cases hother : other = number
  · exact hother ▸ h.clear n (hn number)
  · refine ⟨(h.clear n (hn number)).1, fun names htemporary => ?_⟩
    rw [h.link?_eq other names hother htemporary]
    exact (hn other).2 names htemporary

end

end Session

end Index

end IpAtlas
