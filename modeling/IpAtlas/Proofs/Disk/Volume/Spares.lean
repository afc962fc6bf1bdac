import IpAtlas.Proofs.Disk.Volume
import IpAtlas.Proofs.Result

/-!
# Files that a change leaves alone

A change of names leaves every file what it is, and a change of a file leaves all others.  So
whoever has a file need not care what happens at names that are not those of the file, nor when its
own name goes to another.

## What is here

* `Volume.Holds` — the file at a path.
* `Volume.Clear`, `Volume.Spares` — files that have none of some names, and volumes that have them
  in common.
* `Volume.spares_of_create`, `Volume.spares_of_recreate`, `Volume.spares_of_remove`,
  `Volume.Holds.spares_write` — what each change leaves alone.
* `Volume.spares_removePartial` — removing what may be there.
* `Volume.exists_of_rename` — what moving a file comes to.
-/

set_option autoImplicit false

namespace IpAtlas

namespace Volume

variable {v v' v'' : Volume} {p : Path} {names goal : List String} {n m : Nat}

/-! ## The file at a path -/

/-- The file that a path leads to. -/
def Holds (v : Volume) (p : Path) (n : Nat) : Prop :=
  ∃ names, v.disk.Leads p names ∧ v.link? names = some (.file n)

theorem Holds.content_eq (h : v.Holds p n) : v.disk.content p = some (v.node n).entry := by
  obtain ⟨names, hleads, hlink⟩ := h
  rw [Disk.content_of_follow hleads]
  exact entry?_of_link? hlink

theorem Holds.hasFile (h : v.Holds p n) : v.disk.HasFile p := ⟨_, _, h.content_eq⟩

theorem Holds.lt (h : v.Holds p n) : n < v.nodes.length := by
  obtain ⟨names, -, hlink⟩ := h
  exact lt_of_link? hlink

/-- A file that has none of some names. -/
def Clear (v : Volume) (touched : List String → Prop) (n : Nat) : Prop :=
  n < v.nodes.length ∧ ∀ names, touched names → v.link? names ≠ some (.file n)

/-- Volumes with the same directories, that differ at most in the names that were touched and in
the files that had them. -/
structure Spares (touched : List String → Prop) (v v' : Volume) : Prop where
  directory_iff : ∀ names, v'.link? names = some .directory ↔ v.link? names = some .directory
  link?_eq : ∀ names, ¬ touched names → v'.link? names = v.link? names
  node_eq : ∀ n, v.Clear touched n → v'.node n = v.node n
  clear : ∀ n, v.Clear touched n → v'.Clear touched n
  handedOut_eq : v'.handedOut = v.handedOut

theorem spares_refl (touched : List String → Prop) (v : Volume) : v.Spares touched v :=
  ⟨fun _ => Iff.rfl, fun _ _ => rfl, fun _ _ => rfl, fun _ h => h, rfl⟩

section

variable {touched touched' : List String → Prop}

theorem Spares.trans (h : v.Spares touched v') (h' : v'.Spares touched v'') :
    v.Spares touched v'' where
  directory_iff names := (h'.directory_iff names).trans (h.directory_iff names)
  link?_eq names hnot := (h'.link?_eq names hnot).trans (h.link?_eq names hnot)
  node_eq n hclear := (h'.node_eq n (h.clear n hclear)).trans (h.node_eq n hclear)
  clear n hclear := h'.clear n (h.clear n hclear)
  handedOut_eq := h'.handedOut_eq.trans h.handedOut_eq

theorem Spares.mono (h : v.Spares touched v') (hsub : ∀ names, touched names → touched' names) :
    v.Spares touched' v' := by
  have hless : ∀ n, v.Clear touched' n → v.Clear touched n :=
    fun n hclear => ⟨hclear.1, fun names ht => hclear.2 names (hsub names ht)⟩
  refine ⟨h.directory_iff, fun names hnot => h.link?_eq names fun ht => hnot (hsub names ht),
    fun n hclear => h.node_eq n (hless n hclear), fun n hclear => ?_, h.handedOut_eq⟩
  obtain ⟨hlt, hnone⟩ := h.clear n (hless n hclear)
  refine ⟨hlt, fun names ht => ?_⟩
  by_cases htouched : touched names
  · exact hnone names htouched
  · rw [h.link?_eq names htouched]
    exact hclear.2 names ht

/-- **What was not touched looks the same.** -/
theorem Spares.agrees (h : v.Spares touched v') : v.disk.Agrees touched v'.disk := by
  refine ⟨fun names => ?_, fun names hnot => ?_⟩
  · rw [entry?_eq_directory_iff, entry?_eq_directory_iff]
    exact h.directory_iff names
  · rw [entry?_disk, entry?_disk, h.link?_eq names hnot]
    rcases hlink : v.link? names with _ | n | _
    · rfl
    · have hclear : v.Clear touched n := by
        refine ⟨lt_of_link? hlink, fun other hother hlink' => hnot ?_⟩
        rwa [link?_inj hlink hlink']
      simp only [Option.map_some, entryOf, h.node_eq n hclear]
    · rfl

/-- A file that is found at other names is still found there. -/
theorem Spares.holds (h : v.Spares touched v') (hholds : v.Holds p n)
    (hp : ∀ names, v.disk.Leads p names → ¬ touched names) : v'.Holds p n := by
  obtain ⟨names, hleads, hlink⟩ := hholds
  refine ⟨names, h.agrees.follow_iff.2 hleads, ?_⟩
  rw [h.link?_eq names (hp names hleads), hlink]

end

/-! ### What a change spares -/

theorem spares_write (h : v.link? names = some (.file n)) (contents : Bytes) :
    v.Spares (· = names) (v.write n contents) where
  directory_iff _ := Iff.rfl
  link?_eq _ _ := rfl
  node_eq m hclear := by
    refine node_write_of_ne ?_ contents
    rintro rfl
    exact hclear.2 names rfl h
  clear m hclear := ⟨(List.length_set ..).symm ▸ hclear.1, hclear.2⟩
  handedOut_eq := rfl

theorem link?_add (h : v.link? names = none) (new : Node) (other : List String) :
    (v.add names new).link? other =
      if other = names then some (.file v.nodes.length) else v.link? other := by
  rw [add, link?_put (ne_nil_of_none h)]
  have hnew : (v.grow new).link? other ≠ some (.file v.nodes.length) :=
    fun hlink => Nat.lt_irrefl _ (lt_of_link? (v := v) hlink)
  rw [if_neg hnew]
  rfl

theorem spares_add (h : v.link? names = none) (new : Node) :
    v.Spares (· = names) (v.add names new) where
  directory_iff other := by
    rw [link?_add h]
    split
    · rename_i hname
      simp [hname, h]
    · rfl
  link?_eq other hne := by rw [link?_add h, if_neg hne]
  node_eq n hclear := node_grow hclear.1 new
  clear n hclear := by
    refine ⟨?_, ?_⟩
    · show n < (v.nodes ++ [_]).length
      rw [List.length_append]
      exact Nat.lt_add_right _ hclear.1
    · rintro other rfl hlink
      rw [link?_add h, if_pos rfl, Option.some_inj, Link.file.injEq] at hlink
      exact Nat.ne_of_lt hclear.1 hlink.symm
  handedOut_eq := rfl

theorem spares_unlink (h : v.link? names = some (.file n)) :
    v.Spares (· = names) (v.unlink names) := by
  have hne := ne_nil_of_file h
  refine ⟨fun other => ?_, fun other hother => ?_, fun _ _ => rfl,
    fun m hclear => ⟨hclear.1, ?_⟩, rfl⟩
  · rw [link?_unlink hne]
    split
    · rename_i hname
      simp [hname, h]
    · rfl
  · rw [link?_unlink hne, if_neg hother]
  · rintro other rfl
    rw [link?_unlink hne, if_pos rfl]
    simp

theorem Spares.of_leads {names : List String} (h : v.Spares (· = names) v')
    (hleads : v.disk.Leads p names) : v.Spares (v.disk.Leads p) v' :=
  h.mono fun _ hother => hother ▸ hleads

/-- A new file is there, and nothing else is another. -/
theorem spares_of_add (hleads : v.disk.Leads p names) (h : v.link? names = none) (new : Node) :
    v.Spares (v.disk.Leads p) (v.add names new) ∧ (v.add names new).Holds p v.nodes.length := by
  have hspares := spares_add h new
  refine ⟨hspares.of_leads hleads, names, hspares.agrees.follow_iff.2 hleads, ?_⟩
  rw [link?_add h, if_pos rfl]

/-- **A file that is written into holds what was written**, and nothing else is another. -/
theorem Holds.spares_write (h : v.Holds p n) (contents : Bytes) :
    v.Spares (v.disk.Leads p) (v.write n contents) ∧ (v.write n contents).Holds p n := by
  obtain ⟨names, hleads, hlink⟩ := h
  have hspares := Volume.spares_write hlink contents
  exact ⟨hspares.of_leads hleads, names, hspares.agrees.follow_iff.2 hleads, hlink⟩

/-- **A file that was created is there**, and nothing else is another. -/
theorem spares_of_create (h : v.create p = .ok (n, v')) :
    v.Spares (v.disk.Leads p) v' ∧ v'.Holds p n := by
  obtain ⟨place, hfollow, h⟩ := exists_of_bind_eq_ok h
  rcases place with _ | names
  · exact nomatch h
  dsimp only at h
  split at h
  · exact nomatch h
  · rename_i hlink
    obtain ⟨rfl, rfl⟩ := Prod.mk.inj (Except.ok.inj h)
    exact spares_of_add hfollow hlink _

/-- **So is one that was begun anew.** -/
theorem spares_of_recreate (h : v.recreate p = .ok (n, v')) :
    v.Spares (v.disk.Leads p) v' ∧ v'.Holds p n := by
  obtain ⟨place, hfollow, h⟩ := exists_of_bind_eq_ok h
  rcases place with _ | names
  · exact nomatch h
  dsimp only at h
  split at h
  · exact nomatch h
  · rename_i hlink
    obtain ⟨rfl, rfl⟩ := Prod.mk.inj (Except.ok.inj h)
    exact Holds.spares_write ⟨names, hfollow, hlink⟩ []
  · rename_i hlink
    obtain ⟨rfl, rfl⟩ := Prod.mk.inj (Except.ok.inj h)
    exact spares_of_add hfollow hlink _

/-- **A file that was removed has lost its name**, and nothing else is another. -/
theorem spares_of_remove (h : v.remove p = .ok v') :
    v.Spares (v.disk.Leads p) v' ∧ v'.disk.content p = none := by
  have hdisk : v.disk.remove p = .ok v'.disk := by
    rw [← disk_remove, h]
    rfl
  refine ⟨?_, (Disk.agrees_of_remove hdisk).2⟩
  obtain ⟨place, hfollow, h⟩ := exists_of_bind_eq_ok h
  rcases place with _ | names
  · exact nomatch h
  dsimp only at h
  split at h
  · rename_i hlink
    obtain rfl := Except.ok.inj h
    exact (spares_unlink hlink).of_leads hfollow
  · exact nomatch h
  · exact nomatch h

theorem disk_removePartial (v : Volume) (p : Path) :
    (v.removePartial p).disk = (Index.Writer.removePartial v.disk p).1 := by
  rw [removePartial, Index.Writer.removePartial, ← disk_remove]
  cases v.remove p with
  | ok v' => rfl
  | error e =>
    dsimp only [Except.map]
    split <;> rfl

/-- **Afterwards nothing is there**, unless a directory was, and nothing else is another. -/
theorem spares_removePartial (h : v.disk.content p ≠ some .directory) :
    v.Spares (v.disk.Leads p) (v.removePartial p) ∧
      (v.removePartial p).disk.content p = none := by
  refine ⟨?_, v.disk_removePartial p ▸ (Index.Writer.agrees_removePartial h).2⟩
  rw [removePartial]
  split
  · rename_i hremove
    exact (spares_of_remove hremove).1
  · exact spares_refl _ _

/-- What it takes to move a file, and what comes of it. -/
theorem exists_of_rename {source target : Path} (h : v.rename source target = .ok v') :
    ∃ names goal n, ∃ hlink : v.link? names = some (.file n), v.disk.Leads source names ∧
      v.disk.Leads target goal ∧ v.link? goal ≠ some .directory ∧
      v' = v.put goal n (lt_of_link? hlink) := by
  obtain ⟨place, hsource, h⟩ := exists_of_bind_eq_ok h
  rcases place with _ | names
  · cases h
  dsimp only at h
  split at h
  · rename_i n hlink
    obtain ⟨place, htarget, h⟩ := exists_of_bind_eq_ok h
    split at h
    · cases h
    split at h
    · cases h
    rcases place with _ | goal
    · cases h
    dsimp only at h
    split at h
    · cases h
    rename_i hgoal
    exact ⟨names, goal, n, hlink, hsource, htarget, hgoal, (Except.ok.inj h).symm⟩
  · cases h
  · cases h

/-- **A file that was moved has lost the name it had**, and no file is another. -/
theorem Clear.put {touched : List String → Prop} (h : v.Clear touched m)
    (hlink : v.link? names = some (.file n)) (hgoal : v.link? goal ≠ some .directory)
    (hnot : ¬ touched goal) : (v.put goal n (lt_of_link? hlink)).Clear touched m := by
  refine ⟨h.1, fun other hother => ?_⟩
  have hne : other ≠ goal := fun hsame => hnot (hsame ▸ hother)
  rw [link?_put (ne_nil_of_link? hgoal), if_neg hne]
  split
  · simp
  · exact h.2 other hother

end Volume

end IpAtlas
