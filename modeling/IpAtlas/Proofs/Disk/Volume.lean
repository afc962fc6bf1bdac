import IpAtlas.Proofs.Disk.Frame
import Mathlib.Data.List.Pairwise

/-!
# Files apart from their names

A disk shows what paths lead to.  Whoever has a file open has the file itself, and not the name it
was found under: what is written into it is seen by everybody who has it, and when its name goes to
another file it stays what it is.  A volume keeps the files apart from the names that lead to them.
Seen through the names, it is a disk, and every change of it is one of the disk.

A file that lost its name stays on the volume, for those who still have it.

## What is here

* `Volume`, `Volume.disk` — files and names, and what is seen through the names.
* `Volume.write`, `Volume.put`, `Volume.add`, `Volume.unlink` — changes of files and of names.
* `Volume.create`, `Volume.recreate`, `Volume.rename`, `Volume.remove`, `Volume.map` — what can
  fail, with `Volume.disk_create` and so on: it is what the disk does.
* `Volume.exists_disk_eq` — every disk is that of a volume.
-/

set_option autoImplicit false

namespace IpAtlas

/-- What a name leads to: a file, by its number, or a directory. -/
inductive Volume.Link where
  | file (node : Nat)
  | directory
  deriving DecidableEq

/-- Links by two names, that do not lead to one file. -/
def Volume.Apart (l l' : List String × Volume.Link) : Prop :=
  l.1 ≠ l'.1 ∧ (l.2 = l'.2 → l.2 = .directory)

instance : Std.Symm Volume.Apart :=
  ⟨fun _ _ h => ⟨Ne.symm h.1, fun hsame => hsame.trans (h.2 hsame.symm)⟩⟩

/-- What can be read of a file, and the failure behind that. -/
structure Volume.Node where
  contents : Bytes
  fault : Option IoError := none

/-- All files there ever were, by their numbers, and what names lead to. -/
structure Volume where
  links : List (List String × Volume.Link) := []
  nodes : List Volume.Node := []
  handedOut : Nat := 0
  process : Nat := 1
  input : Stream := ⟨[], none⟩
  /-- A name leads to one thing, and a file has one name at most. -/
  apart : links.Pairwise Volume.Apart := by exact .nil
  below : ∀ l ∈ links, ∀ n, l.2 = .file n → n < nodes.length := by exact List.forall_mem_nil _

namespace Volume

variable {v v' v'' : Volume} {p : Path} {names goal : List String} {n m : Nat}

/-! ## What is seen -/

/-- What a file looks like to those who find it. -/
def Node.entry (node : Node) : Disk.Entry := .file node.contents node.fault

/-- The file of a number. -/
def node (v : Volume) (n : Nat) : Node := v.nodes.getD n ⟨[], none⟩

/-- What a link looks like. -/
def entryOf (v : Volume) : Link → Disk.Entry
  | .file n => (v.node n).entry
  | .directory => .directory

/-- The disk that is seen through the names. -/
def disk (v : Volume) : Disk where
  entries := v.links.map fun l => (l.1, v.entryOf l.2)
  handedOut := v.handedOut
  process := v.process
  input := v.input

/-- What some names lead to.  No names lead to the working directory. -/
def link? (v : Volume) (names : List String) : Option Link :=
  if names = [] then some .directory else v.links.lookup names

theorem lookup_map_entryOf (v : Volume) (links : List (List String × Link))
    (names : List String) :
    (links.map fun l => (l.1, v.entryOf l.2)).lookup names =
      (links.lookup names).map v.entryOf := by
  induction links with
  | nil => rfl
  | cons l links ih =>
    rw [List.map_cons, List.lookup_cons, List.lookup_cons, ih]
    split <;> rfl

/-- **What is seen at the end of some names** is what they lead to. -/
theorem entry?_disk (v : Volume) (names : List String) :
    v.disk.entry? names = (v.link? names).map v.entryOf := by
  unfold Disk.entry? link?
  split
  · rfl
  · exact v.lookup_map_entryOf v.links names

theorem entry?_of_link? (h : v.link? names = some (.file n)) :
    v.disk.entry? names = some (v.node n).entry := by
  rw [entry?_disk, h]
  rfl

theorem entry?_eq_directory_iff :
    v.disk.entry? names = some .directory ↔ v.link? names = some .directory := by
  rw [entry?_disk]
  rcases v.link? names with _ | _ | _ <;> simp [entryOf, Node.entry]

theorem ne_nil_of_link? (h : v.link? names ≠ some .directory) : names ≠ [] :=
  fun hn => h (by rw [link?, if_pos hn])

theorem ne_nil_of_file (h : v.link? names = some (.file n)) : names ≠ [] :=
  ne_nil_of_link? fun hdir => nomatch h.symm.trans hdir

theorem ne_nil_of_none (h : v.link? names = none) : names ≠ [] :=
  ne_nil_of_link? fun hdir => nomatch h.symm.trans hdir

/-- A name leads to what it is listed with. -/
theorem link?_eq_some_iff {link : Link} (hne : names ≠ []) :
    v.link? names = some link ↔ (names, link) ∈ v.links := by
  rw [link?, if_neg hne, List.lookup_eq_some_iff]
  constructor
  · rintro ⟨before, after, hlinks, -⟩
    exact hlinks ▸ List.mem_append_right _ List.mem_cons_self
  · intro hmem
    obtain ⟨before, after, hlinks⟩ := List.append_of_mem hmem
    refine ⟨before, after, hlinks, fun l hl => bne_iff_ne.2 ?_⟩
    have hapart := v.apart
    rw [hlinks] at hapart
    exact Ne.symm ((List.pairwise_append.1 hapart).2.2 l hl _ List.mem_cons_self).1

theorem mem_of_link? (h : v.link? names = some (.file n)) : (names, .file n) ∈ v.links :=
  (link?_eq_some_iff (ne_nil_of_file h)).1 h

theorem lt_of_link? (h : v.link? names = some (.file n)) : n < v.nodes.length :=
  v.below _ (mem_of_link? h) n rfl

/-- **A file is found by its number as it is by its name.** -/
theorem link_eq_iff (h : v.link? names = some (.file n)) {l : List String × Link}
    (hl : l ∈ v.links) : l.2 = .file n ↔ l.1 = names := by
  have hmem := mem_of_link? h
  by_cases hsame : l = (names, .file n)
  · simp [hsame]
  obtain ⟨hname, hfile⟩ := v.apart.forall hl hmem hsame
  refine ⟨fun hn => ?_, fun hn => absurd hn hname⟩
  exact nomatch hn.symm.trans (hfile hn)

/-- So it has one name at most. -/
theorem link?_inj {names' : List String} (h : v.link? names = some (.file n))
    (h' : v.link? names' = some (.file n)) : names = names' :=
  (link_eq_iff h' (mem_of_link? h)).1 rfl

/-! ## Changes of files and of names -/

/-- The volume with other contents in a file. -/
def write (v : Volume) (n : Nat) (contents : Bytes) : Volume :=
  { v with
    nodes := v.nodes.set n ⟨contents, none⟩
    below := fun l hl m hm => by
      rw [List.length_set]
      exact v.below l hl m hm }

/-- The volume with a file at the end of some names, and no longer where it was. -/
def put (v : Volume) (names : List String) (n : Nat) (hn : n < v.nodes.length) : Volume :=
  { v with
    links := (names, .file n) :: v.links.filter fun l => l.1 ≠ names ∧ l.2 ≠ .file n
    apart := by
      refine List.pairwise_cons.2 ⟨fun l hl => ?_, v.apart.filter _⟩
      obtain ⟨hname, hfile⟩ := of_decide_eq_true (List.mem_filter.1 hl).2
      exact ⟨Ne.symm hname, fun hsame => absurd hsame.symm hfile⟩
    below := fun l hl m hm => by
      rcases List.mem_cons.1 hl with rfl | hl
      · rwa [← Link.file.inj hm]
      · exact v.below l (List.mem_filter.1 hl).1 m hm }

/-- The volume with one more file, which has no name. -/
def grow (v : Volume) (node : Node) : Volume :=
  { v with
    nodes := v.nodes ++ [node]
    below := fun l hl m hm => by
      rw [List.length_append]
      exact Nat.lt_add_right _ (v.below l hl m hm) }

/-- The volume with a new file at the end of some names. -/
def add (v : Volume) (names : List String) (node : Node) : Volume :=
  (v.grow node).put names v.nodes.length (by simp [grow])

/-- The volume with nothing at the end of some names. -/
def unlink (v : Volume) (names : List String) : Volume :=
  { v with
    links := v.links.filter fun l => l.1 ≠ names
    apart := v.apart.filter _
    below := fun l hl => v.below l (List.mem_filter.1 hl).1 }

/-- The volume with one more name handed out. -/
def handOut (v : Volume) : Volume := { v with handedOut := v.handedOut + 1 }

/-! ### What is where afterwards -/

/-- A file that was put somewhere is there and nowhere else. -/
theorem link?_put (hne : names ≠ []) (hn : n < v.nodes.length) (other : List String) :
    (v.put names n hn).link? other =
      if other = names then some (.file n)
      else if v.link? other = some (.file n) then none else v.link? other := by
  by_cases ho : other = []
  · rw [if_neg (ho ▸ hne.symm), ho]
    rfl
  refine Option.ext fun link => ?_
  rw [link?_eq_some_iff ho, put, List.mem_cons, List.mem_filter, Prod.mk.injEq,
    decide_eq_true_iff, ← link?_eq_some_iff ho]
  by_cases hname : other = names
  · simp [hname, eq_comm]
  · rw [if_neg hname]
    split <;> grind

theorem link?_unlink (hne : names ≠ []) (other : List String) :
    (v.unlink names).link? other = if other = names then none else v.link? other := by
  by_cases ho : other = []
  · rw [if_neg (ho ▸ hne.symm), ho]
    rfl
  refine Option.ext fun link => ?_
  rw [link?_eq_some_iff ho, unlink, List.mem_filter, decide_eq_true_iff, ← link?_eq_some_iff ho]
  split <;> grind

/-! ### What is seen of it -/

theorem node_write (h : n < v.nodes.length) (contents : Bytes) :
    (v.write n contents).node n = ⟨contents, none⟩ := by
  rw [node, write, List.getD_eq_getElem?_getD, List.getElem?_set_self h, Option.getD_some]

theorem node_write_of_ne (h : m ≠ n) (contents : Bytes) :
    (v.write n contents).node m = v.node m := by
  rw [node, node, write, List.getD_eq_getElem?_getD, List.getD_eq_getElem?_getD,
    List.getElem?_set_ne h.symm]

theorem node_grow (h : n < v.nodes.length) (new : Node) : (v.grow new).node n = v.node n := by
  rw [node, node, grow, List.getD_eq_getElem?_getD, List.getD_eq_getElem?_getD,
    List.getElem?_append_left h]

/-- To give a file another name is to take it from the one it had. -/
theorem disk_put (h : v.link? names = some (.file n)) (goal : List String) :
    (v.put goal n (lt_of_link? h)).disk =
      (v.disk.set names none).set goal (some (v.node n).entry) := by
  let seen := fun l : List String × Link => (l.1, v.entryOf l.2)
  have hothers : (v.links.filter fun l => l.1 ≠ goal ∧ l.2 ≠ .file n) =
      (v.links.filter fun l => l.1 ≠ names).filter fun l => l.1 ≠ goal := by
    rw [List.filter_filter]
    refine List.filter_congr fun l hl => ?_
    simp [link_eq_iff h hl]
  have hentries : (v.put goal n (lt_of_link? h)).links.map seen = (goal, (v.node n).entry) ::
      ((v.links.map seen).filter fun e => e.1 ≠ names).filter fun e => e.1 ≠ goal := by
    rw [put, List.map_cons, hothers, List.filter_map, List.filter_map]
    rfl
  exact congrArg (fun entries => { v.disk with entries }) hentries

theorem disk_add (v : Volume) (names : List String) (new : Node) :
    (v.add names new).disk = v.disk.set names (some new.entry) := by
  let seen := fun l : List String × Link => (l.1, v.entryOf l.2)
  have hothers : (v.links.filter fun l => l.1 ≠ names ∧ l.2 ≠ .file v.nodes.length) =
      v.links.filter fun l => l.1 ≠ names := by
    refine List.filter_congr fun l hl => ?_
    have hfile : l.2 ≠ .file v.nodes.length := fun h => Nat.lt_irrefl _ (v.below l hl _ h)
    simp [hfile]
  have hentries : (v.add names new).links.map (fun l => (l.1, (v.grow new).entryOf l.2)) =
      (names, new.entry) :: (v.links.map seen).filter fun e => e.1 ≠ names := by
    have hnew : (v.grow new).entryOf (.file v.nodes.length) = new.entry := by
      simp [entryOf, node, grow]
    have hold : ∀ l ∈ v.links, (v.grow new).entryOf l.2 = v.entryOf l.2 := by
      intro l hl
      cases hlink : l.2 with
      | directory => rfl
      | file n => rw [entryOf, entryOf, node_grow (v.below l hl n hlink)]
    rw [List.filter_map, ← hnew]
    refine congrArg (List.cons _) ?_
    show (v.links.filter fun l => l.1 ≠ names ∧ l.2 ≠ .file v.nodes.length).map _ = _
    rw [hothers]
    refine List.map_congr_left fun l hl => ?_
    rw [hold l (List.mem_filter.1 hl).1]
  exact congrArg (fun entries => { v.disk with entries }) hentries

theorem disk_unlink (v : Volume) (names : List String) :
    (v.unlink names).disk = v.disk.set names none := by
  simp only [disk, Disk.set, unlink, List.filter_map, Option.toList_none, List.map_nil,
    List.nil_append]
  rfl

/-! ## What can fail -/

/-- A new file at a path where nothing is yet, with its number. -/
def create (v : Volume) (p : Path) : Except IoError (Nat × Volume) := do
  match ← v.disk.follow p with
  | .outside => throw .alreadyExists
  | .inside names =>
    match v.link? names with
    | some _ => throw .alreadyExists
    | none => return (v.nodes.length, v.add names ⟨[], none⟩)

/-- An empty file at a path, with its number.  A file that is there loses its contents. -/
def recreate (v : Volume) (p : Path) : Except IoError (Nat × Volume) := do
  match ← v.disk.follow p with
  | .outside => throw .isADirectory
  | .inside names =>
    match v.link? names with
    | some .directory => throw .isADirectory
    | some (.file n) => return (n, v.write n [])
    | none => return (v.nodes.length, v.add names ⟨[], none⟩)

/-- Moves a file to a path.  The file that may be there loses its name. -/
def rename (v : Volume) (source target : Path) : Except IoError Volume := do
  match ← v.disk.follow source with
  | .outside => throw .resourceBusy
  | .inside names =>
    match h : v.link? names with
    | some (.file n) =>
      let place ← v.disk.follow target
      if Disk.endsInDots target then throw .resourceBusy
      else if Disk.meansDirectory target then throw .notADirectory
      else
        match place with
        | .outside => throw .resourceBusy
        | .inside goal =>
          if v.link? goal = some .directory then throw .isADirectory
          else return v.put goal n (lt_of_link? h)
    | some .directory => throw .isADirectory
    | none => throw .notFound

/-- Takes its name from a file. -/
def remove (v : Volume) (p : Path) : Except IoError Volume := do
  match ← v.disk.follow p with
  | .outside => throw .isADirectory
  | .inside names =>
    match v.link? names with
    | some (.file _) => return v.unlink names
    | some .directory => throw .isADirectory
    | none => throw .notFound

/-- The volume without a file that is not to stay, if it is there. -/
def removePartial (v : Volume) (p : Path) : Volume :=
  match v.remove p with
  | .ok v => v
  | .error _ => v

/-- The file at a path, to be mapped into memory. -/
def map (v : Volume) (p : Path) : Except IoError Nat := do
  match ← v.disk.follow p with
  | .outside => throw .notMappable
  | .inside names =>
    match v.link? names with
    | some (.file n) => return n
    | some .directory => throw .notMappable
    | none => throw .notFound

/-! ### It is what the disk does -/

theorem disk_rename (v : Volume) (source target : Path) :
    (v.rename source target).map disk = v.disk.rename source target := by
  rw [rename, Disk.rename]
  rcases v.disk.follow source with e | _ | names
  · rfl
  · rfl
  · simp only [bind, Except.bind]
    split
    · rename_i n hlink
      rw [entry?_of_link? hlink]
      dsimp only [Node.entry]
      rcases v.disk.follow target with e | place
      · rfl
      dsimp only
      cases Disk.endsInDots target with
      | true => rfl
      | false =>
        cases Disk.meansDirectory target with
        | true => rfl
        | false =>
          rcases place with _ | goal
          · rfl
          simp only [entry?_eq_directory_iff, Bool.false_eq_true, if_false]
          split
          · rfl
          · exact congrArg Except.ok (disk_put hlink goal)
    · rename_i hlink
      rw [entry?_disk, hlink]
      rfl
    · rename_i hlink
      rw [entry?_disk, hlink]
      rfl

theorem disk_remove (v : Volume) (p : Path) : (v.remove p).map disk = v.disk.remove p := by
  rw [remove, Disk.remove]
  rcases v.disk.follow p with e | _ | names
  · rfl
  · rfl
  · simp only [bind, Except.bind, entry?_disk]
    rcases v.link? names with _ | n | _
    · rfl
    · exact congrArg Except.ok (v.disk_unlink names)
    · rfl

theorem disk_map (v : Volume) (p : Path) :
    (v.map p).map (fun n => (v.node n).contents) = v.disk.map p := by
  rw [map, Disk.map, Disk.find]
  rcases v.disk.follow p with e | _ | names
  · rfl
  · rfl
  · simp only [bind, Except.bind, Disk.at?, entry?_disk]
    rcases v.link? names with _ | n | _ <;> rfl

/-! ## Disks are seen on volumes -/

theorem set_some_of_absent {disk : Disk} (entry : Disk.Entry)
    (h : ∀ e ∈ disk.entries, e.1 ≠ names) :
    disk.set names (some entry) = { disk with entries := (names, entry) :: disk.entries } := by
  rw [Disk.set, List.filter_eq_self.2 fun e he => decide_eq_true (h e he)]
  rfl

/-- **Every disk is that of a volume**, if no name is there twice. -/
theorem exists_disk_eq (disk : Disk) (h : (disk.entries.map Prod.fst).Nodup) :
    ∃ v : Volume, v.disk = disk := by
  obtain ⟨entries, handedOut, process, input⟩ := disk
  dsimp only at h
  induction entries with
  | nil => exact ⟨{ handedOut, process, input }, rfl⟩
  | cons e entries ih =>
    obtain ⟨names, entry⟩ := e
    obtain ⟨hnew, hrest⟩ := List.nodup_cons.1 h
    obtain ⟨v, hv⟩ := ih hrest
    have habsent : ∀ e ∈ v.disk.entries, e.1 ≠ names := by
      intro e he hname
      rw [hv] at he
      exact hnew (List.mem_map.2 ⟨e, he, hname⟩)
    cases entry with
    | file contents fault =>
      refine ⟨v.add names ⟨contents, fault⟩, ?_⟩
      rw [disk_add, set_some_of_absent _ habsent, hv]
      rfl
    | directory =>
      refine ⟨{ v with
        links := (names, .directory) :: v.links
        apart := List.pairwise_cons.2 ⟨fun l hl => ⟨?_, fun _ => rfl⟩, v.apart⟩
        below := fun l hl n hn => ?_ }, ?_⟩
      · exact Ne.symm (habsent (l.1, v.entryOf l.2) (List.mem_map_of_mem hl))
      · rcases List.mem_cons.1 hl with rfl | hl
        · exact nomatch hn
        · exact v.below l hl n hn
      · exact congrArg (fun d : Disk => { d with entries := (names, .directory) :: d.entries }) hv

end Volume

end IpAtlas
