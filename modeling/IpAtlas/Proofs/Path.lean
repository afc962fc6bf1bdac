import IpAtlas.Disk

/-!
# What paths lead to

Two paths can say the same place with different components: one may go up and down again, start at
the root while the other starts at the working directory, or begin with a dot.  `Path.resolve` reads
the components without looking at any disk and gives the names they lead to from a working directory;
where a disk lets a path be followed at all, it leads there.

## What is here

* `Path.resolve` — the names a path leads to.
* `Path.resolve_eq_of_same` — paths with the same components lead to the same names.
* `Path.same_of_resolve_eq` — and straight ones to the same names only if they have.
* `Disk.resolve_of_follow`, `Disk.follow_eq_iff` — where paths lead on a disk.
-/

set_option autoImplicit false

namespace IpAtlas

namespace Path

/-- One component, followed from the end of some names. -/
def Component.resolve (names : List String) : Component → List String
  | .root => []
  | .current => names
  | .parent => names.dropLast
  | .normal name => names ++ [name]

/-- The names from the root that a path leads to, followed from the names of a working directory. -/
def resolve (cwd : List String) (p : Path) : List String := p.components.foldl Component.resolve cwd

theorem same_iff {p q : Path} : p.same q = true ↔ p.components = q.components := by
  rw [same, decide_eq_true_iff]

theorem same_comm (p q : Path) : p.same q = q.same p := by
  rw [same, same, decide_eq_decide]
  exact eq_comm

/-- Paths with the same components lead to the same names. -/
theorem resolve_eq_of_same {p q : Path} (h : p.same q = true) (cwd : List String) :
    p.resolve cwd = q.resolve cwd := by
  rw [resolve, resolve, same_iff.1 h]

/-! ## Straight paths -/

/-- A path that goes from where it starts to its end by names alone. -/
def Straight (p : Path) : Prop := Component.parent ∉ p.components ∧ Component.current ∉ p.components

instance (p : Path) : Decidable p.Straight := inferInstanceAs (Decidable (_ ∧ _))

theorem innerComponent?_ne_root (segment : String) : innerComponent? segment ≠ some .root := by
  rw [innerComponent?]
  split
  · simp
  · split <;> simp

/-- The root stands in front of a path or nowhere. -/
theorem exists_components (p : Path) : ∃ inner : List Component,
    p.components = (if p.isAbsolute then [.root] else []) ++ inner ∧ Component.root ∉ inner := by
  have hinner : ∀ segments : List String, Component.root ∉ segments.filterMap innerComponent? := by
    intro segments hmem
    obtain ⟨segment, -, hroot⟩ := List.mem_filterMap.1 hmem
    exact innerComponent?_ne_root segment hroot
  rw [components]
  split
  · rename_i hnil
    cases habs : p.isAbsolute with
    | false => exact ⟨[], by simp, by simp⟩
    | true =>
      rw [isAbsolute] at habs
      rw [segments, List.map_eq_nil_iff] at hnil
      cases htext : p.text.toList with
      | nil => simp [htext] at habs
      | cons c cs =>
        rw [htext, splitSlash] at hnil
        split at hnil
        · simp at hnil
        · split at hnil <;> simp at hnil
  · rename_i front others _
    split
    · exact ⟨_, rfl, hinner others⟩
    · split
      · refine ⟨.current :: others.filterMap innerComponent?, rfl, ?_⟩
        simp [hinner others]
      · refine ⟨(innerComponent? front).toList ++ others.filterMap innerComponent?, rfl, ?_⟩
        have hfront := innerComponent?_ne_root front
        simp only [List.mem_append, not_or, Option.mem_toList]
        exact ⟨hfront, hinner others⟩

theorem exists_names_of_normal {inner : List Component} (hroot : Component.root ∉ inner)
    (hparent : Component.parent ∉ inner) (hcurrent : Component.current ∉ inner) :
    ∃ names : List String, inner = names.map .normal := by
  induction inner with
  | nil => exact ⟨[], rfl⟩
  | cons c inner ih =>
    simp only [List.mem_cons, not_or] at hroot hparent hcurrent
    obtain ⟨names, rfl⟩ := ih hroot.2 hparent.2 hcurrent.2
    cases c with
    | root => exact absurd rfl hroot.1
    | current => exact absurd rfl hcurrent.1
    | parent => exact absurd rfl hparent.1
    | normal name => exact ⟨name :: names, rfl⟩

theorem foldl_resolve_normal (cwd names : List String) :
    (names.map Component.normal).foldl Component.resolve cwd = cwd ++ names := by
  induction names generalizing cwd with
  | nil => simp
  | cons name names ih => simp [ih, Component.resolve]

/-- A straight path leads to the names it is made of. -/
theorem Straight.exists_names {p : Path} (h : p.Straight) : ∃ names : List String,
    p.components = (if p.isAbsolute then [.root] else []) ++ names.map .normal ∧
      ∀ cwd, p.resolve cwd = (if p.isAbsolute then [] else cwd) ++ names := by
  obtain ⟨inner, hcomponents, hroot⟩ := p.exists_components
  obtain ⟨hparent, hcurrent⟩ := h
  rw [hcomponents, List.mem_append, not_or] at hparent hcurrent
  obtain ⟨names, rfl⟩ := exists_names_of_normal hroot hparent.2 hcurrent.2
  refine ⟨names, hcomponents, fun cwd => ?_⟩
  rw [resolve, hcomponents, List.foldl_append, foldl_resolve_normal]
  by_cases habs : p.isAbsolute <;> simp [habs, Component.resolve]

/-- **Straight paths that start at the same place** lead to the same names only if they have the same
components. -/
theorem same_of_resolve_eq {p q : Path} (hp : p.Straight) (hq : q.Straight)
    (habs : p.isAbsolute = q.isAbsolute) {cwd : List String}
    (h : p.resolve cwd = q.resolve cwd) : p.same q = true := by
  obtain ⟨names, hcomponents, hresolve⟩ := hp.exists_names
  obtain ⟨names', hcomponents', hresolve'⟩ := hq.exists_names
  rw [hresolve, hresolve', habs, List.append_cancel_left_eq] at h
  rw [same_iff, hcomponents, hcomponents', habs, h]

end Path

/-! ## Following a path -/

namespace Disk

variable {disk : Disk}

/-- From outside no path leads back in. -/
theorem foldlM_outside {segments : List String} {place : Place}
    (h : segments.foldlM (fun place segment => disk.step place segment) .outside = .ok place) :
    place = .outside := by
  induction segments with
  | nil => exact (Except.ok.inj h).symm
  | cons segment segments ih =>
    rw [List.foldlM_cons] at h
    have hstep : disk.step .outside segment = .ok .outside ∨
        ∃ e, disk.step .outside segment = .error e := by
      rw [step.eq_def]
      simp only [at?]
      split
      · exact Or.inl rfl
      · split
        · exact Or.inl rfl
        · exact Or.inr ⟨_, rfl⟩
    rcases hstep with hstep | ⟨e, hstep⟩
    · rw [hstep] at h
      exact ih h
    · rw [hstep] at h
      exact absurd h (by simp [bind, Except.bind])

/-- What a step below the working directory leads to. -/
theorem step_inside {names : List String} {segment : String} {place : Place}
    (h : disk.step (.inside names) segment = .ok place) : place = .outside ∨
      ∃ names', place = .inside names' ∧ ∀ cwd,
        (Path.innerComponent? segment).toList.foldl Path.Component.resolve (cwd ++ names) =
          cwd ++ names' := by
  rw [step.eq_def] at h
  split at h
  · exact nomatch h
  · exact nomatch h
  rw [Path.innerComponent?]
  by_cases hdot : segment = "" ∨ segment = "."
  · rw [if_pos hdot] at h ⊢
    exact Or.inr ⟨names, (Except.ok.inj h).symm, fun cwd => rfl⟩
  rw [if_neg hdot] at h ⊢
  dsimp only at h
  by_cases hup : segment = ".."
  · rw [if_pos hup] at h ⊢
    by_cases hnil : names = []
    · rw [if_pos hnil] at h
      exact Or.inl (Except.ok.inj h).symm
    · rw [if_neg hnil] at h
      refine Or.inr ⟨names.dropLast, (Except.ok.inj h).symm, fun cwd => ?_⟩
      simp [Path.Component.resolve, List.dropLast_append_of_ne_nil hnil]
  · rw [if_neg hup] at h ⊢
    by_cases hlong : maxNameBytes < segment.utf8ByteSize
    · simp [hlong] at h
    · rw [if_neg hlong] at h
      refine Or.inr ⟨names ++ [segment], (Except.ok.inj h).symm, fun cwd => ?_⟩
      simp [Path.Component.resolve]

theorem foldlM_inside {segments : List String} {names goal : List String}
    (h : segments.foldlM (fun place segment => disk.step place segment) (.inside names) =
      .ok (.inside goal)) (cwd : List String) :
    (segments.filterMap Path.innerComponent?).foldl Path.Component.resolve (cwd ++ names) =
      cwd ++ goal := by
  induction segments generalizing names with
  | nil =>
    obtain rfl : names = goal := by simpa using Except.ok.inj h
    rfl
  | cons segment segments ih =>
    rw [List.foldlM_cons] at h
    cases hstep : disk.step (.inside names) segment with
    | error e =>
      rw [hstep] at h
      exact absurd h (by simp [bind, Except.bind])
    | ok place =>
      rw [hstep] at h
      rcases step_inside hstep with rfl | ⟨names', rfl, hnames'⟩
      · exact absurd (foldlM_outside h) (by simp)
      · have hcons : (segment :: segments).filterMap Path.innerComponent? =
            (Path.innerComponent? segment).toList ++ segments.filterMap Path.innerComponent? := by
          rw [List.filterMap_cons]
          cases Path.innerComponent? segment <;> rfl
        rw [hcons, List.foldl_append, hnames' cwd]
        exact ih h

/-- **Where a path leads on a disk**, wherever the working directory is. -/
theorem resolve_of_follow {p : Path} {names : List String} (h : disk.follow p = .ok (.inside names))
    (cwd : List String) : p.resolve cwd = cwd ++ names := by
  rw [follow] at h
  split at h
  · exact nomatch h
  split at h
  · exact nomatch h
  by_cases habs : p.isAbsolute
  · rw [if_pos habs] at h
    exact absurd (foldlM_outside h) (by simp)
  · rw [if_neg (by simpa using habs)] at h
    have hinside := foldlM_inside h cwd
    rw [List.append_nil] at hinside
    rw [← hinside, Path.resolve, Path.components]
    split
    · rename_i hnil
      rw [hnil]
      rfl
    · rename_i front others hsegments
      rw [hsegments, if_neg habs, List.filterMap_cons]
      split
      · rename_i hdot
        simp [hdot, Path.innerComponent?, Path.Component.resolve]
      · cases Path.innerComponent? front <;> rfl

/-- So two paths that a disk lets be followed lead to one place exactly if they lead to the same
names. -/
theorem follow_eq_iff {p q : Path} {names names' : List String}
    (hp : disk.follow p = .ok (.inside names)) (hq : disk.follow q = .ok (.inside names'))
    (cwd : List String) : disk.follow p = disk.follow q ↔ p.resolve cwd = q.resolve cwd := by
  rw [hp, hq, resolve_of_follow hp, resolve_of_follow hq, List.append_right_inj]
  simp

end Disk

end IpAtlas
