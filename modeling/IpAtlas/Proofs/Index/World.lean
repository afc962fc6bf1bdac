import IpAtlas.Proofs.Index.Mapping
import IpAtlas.Proofs.Index.Session
import Mathlib.Data.List.Induction

/-!
# Writers and readers on one volume

Any number of writers and readers work on one volume, and every step of one may come between two
steps of another.  What one step keeps is kept by every run: the writers have their own files, what
was published is what paths lead to, and nobody writes into a file that a reader has.  And what
writers and readers were given in the course of a run, they have.

## What is here

* `World`, `World.step`, `World.run` — writers and readers on one volume.
* `World.Sound`, `World.sound_of_run` — what holds at every moment.
* `World.Remembers`, `World.remembers_of_run` — what is remembered of the run.
-/

set_option autoImplicit false

namespace IpAtlas.Index

open Disk

/-- A volume, the writers there have been, and the readers.  The writers whose files took their
places are listed again, the last of them first. -/
structure World where
  volume : Volume
  sessions : List Session := []
  published : List Session := []
  readers : List Mapping := []

/-- What can happen next. -/
inductive Action where
  /-- A writer is to be created. -/
  | create (p : Path)
  /-- A writer makes a move. -/
  | move (i : Nat) (move : Move)
  /-- A file is opened, with room for some decoded locations. -/
  | visit (p : Path) (capacity : Nat)
  /-- A reader looks an address up. -/
  | lookup (k : Nat) (a : Address)

/-- The path that is given, if one is. -/
def Action.path? : Action → Option Path
  | .create p | .visit p _ => some p
  | .move .. | .lookup .. => none

namespace World

/-- What is seen of it. -/
def disk (w : World) : Disk := w.volume.disk

/-- What comes of it, if it can happen. -/
def step (w : World) : Action → Option World
  | .create p => some { w with
      volume := w.volume.handOut, sessions := w.sessions ++ [Session.fresh w.disk p] }
  | .move i move => do
    let s ← w.sessions[i]?
    let (s', volume) ← s.act w.volume move
    let published := if s'.stage = .ended true then s' :: w.published else w.published
    return { w with volume, sessions := w.sessions.set i s', published }
  | .visit p capacity =>
    let opened := (Mapping.open w.volume p).toOption.toList
    some { w with readers := w.readers ++ opened.map (·.withCache capacity) }
  | .lookup k a => do
    let m ← w.readers[k]?
    return { w with readers := w.readers.set k (m.lookup w.volume a).2 }

/-- One thing after the other. -/
def run (w : World) (actions : List Action) : Option World := actions.foldlM step w

/-- What a path leads to, by what was published: what it led to at the start, or the index that was
the last to take its place there. -/
def expected (start disk : Disk) (published : List Session) (p : Path) : Option Disk.Entry :=
  match published.find? fun s => disk.place? s.path = disk.place? p with
  | some s => some (.file (image s.entries.toList))
  | none => start.content p

section

variable {w w' : World} {action : Action} {actions : List Action} {start : Disk}

/-! ## Steps -/

/-- **What can happen**: a writer is created, a writer makes a move, a file is opened, or a reader
looks something up. -/
theorem step_cases (h : w.step action = some w') :
    (∃ p, action = .create p ∧ w' = { w with
        volume := w.volume.handOut, sessions := w.sessions ++ [Session.fresh w.disk p] }) ∨
      (∃ i move s s' v', action = .move i move ∧ w.sessions[i]? = some s ∧
        s.act w.volume move = some (s', v') ∧ w' = { w with
          volume := v', sessions := w.sessions.set i s',
          published := if s'.stage = .ended true then s' :: w.published else w.published }) ∨
      (∃ p capacity, action = .visit p capacity ∧ w' = { w with
        readers := w.readers ++
          (Mapping.open w.volume p).toOption.toList.map (·.withCache capacity) }) ∨
      ∃ k a m, action = .lookup k a ∧ w.readers[k]? = some m ∧
        w' = { w with readers := w.readers.set k (m.lookup w.volume a).2 } := by
  cases action with
  | create p => exact Or.inl ⟨p, rfl, (Option.some_inj.1 h).symm⟩
  | move i move =>
    obtain ⟨s, hs, h⟩ := Option.bind_eq_some_iff.1 h
    obtain ⟨⟨s', v'⟩, hact, h⟩ := Option.bind_eq_some_iff.1 h
    exact Or.inr (Or.inl ⟨i, move, s, s', v', rfl, hs, hact, (Option.some_inj.1 h).symm⟩)
  | visit p capacity =>
    exact Or.inr (Or.inr (Or.inl ⟨p, capacity, rfl, (Option.some_inj.1 h).symm⟩))
  | lookup k a =>
    obtain ⟨m, hm, h⟩ := Option.bind_eq_some_iff.1 h
    exact Or.inr (Or.inr (Or.inr ⟨k, a, m, rfl, hm, (Option.some_inj.1 h).symm⟩))

/-- What holds of a volume, the writers that work on it, what they published, and the readers. -/
structure Sound (start : Disk) (w : World) : Prop where
  /-- There are the directories there were. -/
  agrees : start.Agrees (fun _ => True) w.disk
  /-- No two writers have a number in common, -/
  distinct : ∀ (i j : Nat) (s t : Session), w.sessions[i]? = some s → w.sessions[j]? = some t →
    s.number = t.number → i = j
  /-- nor has the next one. -/
  below : ∀ s ∈ w.sessions, s.number < w.volume.handedOut
  plain : ∀ s ∈ w.sessions, ¬ s.path.IsTemporary
  keeps : ∀ s ∈ w.sessions, s.Keeps w.volume
  mem_published : ∀ s, s ∈ w.published ↔ s ∈ w.sessions ∧ s.stage = .ended true
  content_eq : ∀ p, ¬ p.IsTemporary → w.disk.content p = expected start w.disk w.published p
  /-- Nobody writes into a file that a reader has. -/
  settled : ∀ m ∈ w.readers, w.volume.Settled m.node

theorem expected_congr {touched : List String → Prop} {disk disk' : Disk}
    (h : disk.Agrees touched disk') (published : List Session) (p : Path) :
    expected start disk' published p = expected start disk published p := by
  simp only [expected, h.place?_eq]

/-- The writers when one more is created: the earlier ones, and the one with the next number. -/
theorem Sound.created_cases (h : w.Sound start) {p : Path} {i : Nat} {s : Session}
    (hs : (w.sessions ++ [Session.fresh w.disk p])[i]? = some s) :
    w.sessions[i]? = some s ∧ s.number < w.volume.handedOut ∨
      i = w.sessions.length ∧ s.number = w.volume.handedOut := by
  by_cases hi : i < w.sessions.length
  · rw [List.getElem?_append_left hi] at hs
    exact Or.inl ⟨hs, h.below s (List.mem_of_getElem? hs)⟩
  · rw [List.getElem?_append_right (Nat.le_of_not_lt hi), List.getElem?_singleton] at hs
    split at hs
    · obtain rfl := Option.some_inj.1 hs
      exact Or.inr ⟨by omega, rfl⟩
    · exact nomatch hs

/-- A writer is created. -/
theorem Sound.create (h : w.Sound start) {p : Path} (hp : ¬ p.IsTemporary) :
    Sound start { w with
      volume := w.volume.handOut, sessions := w.sessions ++ [Session.fresh w.disk p] } := by
  have hagrees : w.disk.Agrees (fun _ => False) w.volume.handOut.disk := agrees_freshPath w.disk p
  have hcontent : ∀ q, w.volume.handOut.disk.content q = w.disk.content q :=
    content_freshPath w.disk p
  refine ⟨h.agrees.trans (hagrees.mono fun _ => False.elim), ?_,
    List.forall_mem_append.2 ⟨fun s hs => Nat.lt_succ_of_lt (h.below s hs), ?_⟩,
    List.forall_mem_append.2 ⟨h.plain, List.forall_mem_singleton.2 hp⟩,
    List.forall_mem_append.2 ⟨h.keeps, List.forall_mem_singleton.2 trivial⟩, ?_, ?_, h.settled⟩
  · intro i j s t hs ht hnumber
    rcases h.created_cases hs with ⟨hs, hlt⟩ | ⟨rfl, heq⟩ <;>
      rcases h.created_cases ht with ⟨ht, hlt'⟩ | ⟨rfl, heq'⟩
    · exact h.distinct i j s t hs ht hnumber
    · omega
    · omega
    · rfl
  · exact List.forall_mem_singleton.2 (Nat.lt_succ_self _)
  · intro s
    rw [h.mem_published, List.mem_append, List.mem_singleton]
    constructor
    · rintro ⟨hs, hstage⟩
      exact ⟨Or.inl hs, hstage⟩
    · rintro ⟨hs | rfl, hstage⟩
      · exact ⟨hs, hstage⟩
      · exact nomatch hstage
  · intro q hq
    show w.volume.handOut.disk.content q = expected start w.volume.handOut.disk w.published q
    rw [hcontent, expected_congr hagrees]
    exact h.content_eq q hq

/-- Who is who when one of several is replaced. -/
theorem getElem?_set_cases {α : Type} {xs : List α} {i j : Nat} {x y : α}
    (h : (xs.set i x)[j]? = some y) : (j = i ∧ y = x) ∨ (j ≠ i ∧ xs[j]? = some y) := by
  rw [List.getElem?_set] at h
  split at h
  · rename_i hij
    split at h
    · exact Or.inl ⟨hij.symm, (Option.some_inj.1 h).symm⟩
    · exact nomatch h
  · rename_i hij
    exact Or.inr ⟨Ne.symm hij, h⟩

/-- What is expected when a session has made a move. -/
theorem expected_move {s s' : Session} {disk disk' : Disk} (htouches : s.Touches disk s' disk')
    (hpath : s'.path = s.path) (published : List Session) (p : Path) :
    expected start disk' (if s'.stage = .ended true then s' :: published else published) p =
      if s'.stage = .ended true ∧ disk.place? p = disk.place? s.path then
        some (.file (image s'.entries.toList))
      else expected start disk published p := by
  rw [expected_congr htouches.agrees]
  by_cases hstage : s'.stage = .ended true
  · rw [if_pos hstage, expected, List.find?_cons, hpath]
    by_cases hplace : disk.place? p = disk.place? s.path
    · rw [if_pos ⟨hstage, hplace⟩, decide_eq_true hplace.symm]
    · rw [if_neg fun h => hplace h.2, decide_eq_false (Ne.symm hplace)]
      rfl
  · rw [if_neg hstage, if_neg fun h => hstage h.1]

/-- The writers when one of them has made a move: that one, and others with other numbers. -/
theorem Sound.moved_cases (h : w.Sound start) {i : Nat} {s s' t : Session}
    (hs : w.sessions[i]? = some s) (ht : t ∈ w.sessions.set i s') :
    t = s' ∨ t ∈ w.sessions ∧ t.number ≠ s.number := by
  obtain ⟨j, ht⟩ := List.mem_iff_getElem?.1 ht
  rcases getElem?_set_cases ht with ⟨-, rfl⟩ | ⟨hne, ht⟩
  · exact Or.inl rfl
  · exact Or.inr ⟨List.mem_of_getElem? ht, fun hnumber => hne (h.distinct j i t s ht hs hnumber)⟩

/-- The writers that have published are those there were, and the one that moved if it has now. -/
theorem Sound.mem_published_move (h : w.Sound start) {i : Nat} {s s' : Session}
    (hs : w.sessions[i]? = some s) (hended : s.stage ≠ .ended true) (t : Session) :
    t ∈ (if s'.stage = .ended true then s' :: w.published else w.published) ↔
      t ∈ w.sessions.set i s' ∧ t.stage = .ended true := by
  have hself : (w.sessions.set i s')[i]? = some s' :=
    List.getElem?_set_self (List.getElem?_eq_some_iff.1 hs).1
  -- one that has published does not move
  have hstays : t ∈ w.published → t ∈ w.sessions.set i s' ∧ t.stage = .ended true := by
    intro ht
    obtain ⟨ht, hstage⟩ := (h.mem_published t).1 ht
    obtain ⟨j, htj⟩ := List.mem_iff_getElem?.1 ht
    have hne : i ≠ j := by
      rintro rfl
      obtain rfl := Option.some_inj.1 (hs.symm.trans htj)
      exact hended hstage
    exact ⟨List.mem_of_getElem? ((List.getElem?_set_ne hne).trans htj), hstage⟩
  constructor
  · intro ht
    split at ht
    · rename_i hstage
      rcases List.mem_cons.1 ht with rfl | ht
      · exact ⟨List.mem_of_getElem? hself, hstage⟩
      · exact hstays ht
    · exact hstays ht
  · rintro ⟨ht, hstage⟩
    rcases h.moved_cases hs ht with rfl | ⟨ht, -⟩
    · rw [if_pos hstage]
      exact List.mem_cons_self
    · have ht := (h.mem_published t).2 ⟨ht, hstage⟩
      split
      · exact List.mem_cons_of_mem _ ht
      · exact ht

/-- A writer makes a move. -/
theorem Sound.move (h : w.Sound start) {i : Nat} {move : Move} {s s' : Session} {v' : Volume}
    (hs : w.sessions[i]? = some s) (hact : s.act w.volume move = some (s', v')) :
    Sound start { w with
      volume := v', sessions := w.sessions.set i s',
      published := if s'.stage = .ended true then s' :: w.published else w.published } := by
  have hmem := List.mem_of_getElem? hs
  have hacted := Session.acted_of_act (h.keeps s hmem) (h.plain s hmem) hact
  have hnumber : ∀ (j : Nat) (t : Session), (w.sessions.set i s')[j]? = some t →
      ∃ t', w.sessions[j]? = some t' ∧ t.number = t'.number := by
    intro j t ht
    rcases getElem?_set_cases ht with ⟨rfl, rfl⟩ | ⟨-, ht⟩
    · exact ⟨s, hs, hacted.number_eq⟩
    · exact ⟨t, ht, rfl⟩
  refine ⟨h.agrees.trans hacted.touches.agrees, ?_, ?_, ?_, ?_,
    h.mem_published_move hs (hacted.not_ended true), ?_,
    fun m hm => hacted.leaves.settled (h.settled m hm)⟩
  · intro j k t u ht hu heq
    obtain ⟨t', ht', htn⟩ := hnumber j t ht
    obtain ⟨u', hu', hun⟩ := hnumber k u hu
    exact h.distinct j k t' u' ht' hu' (htn.symm.trans (heq.trans hun))
  · intro t ht
    show t.number < v'.handedOut
    rw [hacted.handedOut_eq]
    rcases h.moved_cases hs ht with rfl | ⟨ht, -⟩
    · rw [hacted.number_eq]
      exact h.below s hmem
    · exact h.below t ht
  · intro t ht
    rcases h.moved_cases hs ht with rfl | ⟨ht, -⟩
    · rw [hacted.path_eq]
      exact h.plain s hmem
    · exact h.plain t ht
  · intro t ht
    rcases h.moved_cases hs ht with rfl | ⟨ht, hne⟩
    · exact hacted.keeps
    · exact hacted.keeps_other (h.plain s hmem) hne (h.keeps t ht)
  · intro p hp
    exact (hacted.touches.content_eq hp).trans ((congrArg _ (h.content_eq p hp)).trans
      (expected_move hacted.touches hacted.path_eq w.published p).symm)

/-- **Every step keeps it.** -/
theorem Sound.step (h : w.Sound start) (hplain : ∀ p, action.path? = some p → ¬ p.IsTemporary)
    (hstep : w.step action = some w') : w'.Sound start := by
  rcases step_cases hstep with ⟨p, rfl, rfl⟩ | ⟨i, move, s, s', v', rfl, hs, hact, rfl⟩ |
    ⟨p, capacity, rfl, rfl⟩ | ⟨k, a, m, rfl, hm, rfl⟩
  · exact h.create (hplain p rfl)
  · exact h.move hs hact
  · refine ⟨h.agrees, h.distinct, h.below, h.plain, h.keeps, h.mem_published, h.content_eq, ?_⟩
    intro m hm
    rcases List.mem_append.1 hm with hm | hm
    · exact h.settled m hm
    · cases hopen : Mapping.open w.volume p with
      | error e =>
        rw [hopen] at hm
        exact nomatch hm
      | ok opened =>
        have hholds := Mapping.holds_of_open hopen
        rw [hopen] at hm
        obtain rfl := List.mem_singleton.1 hm
        exact Volume.settled_of_holds (hplain p rfl) hholds
  · refine ⟨h.agrees, h.distinct, h.below, h.plain, h.keeps, h.mem_published, h.content_eq, ?_⟩
    intro m' hm'
    rcases List.mem_or_eq_of_mem_set hm' with hm' | rfl
    · exact h.settled m' hm'
    · exact h.settled m (List.mem_of_getElem? hm)

/-- The paths that writers were created for, in order. -/
def created (actions : List Action) : List Path := actions.filterMap fun
  | .create p => some p
  | _ => none

/-- The entries that a writer was given, in order. -/
def appended (i : Nat) (actions : List Action) : List Entry := actions.filterMap fun
  | .move j move => if j = i then move.entry? else none
  | _ => none

/-- The addresses that a reader looked up, in order. -/
def asked (k : Nat) (actions : List Action) : List Address := actions.filterMap fun
  | .lookup j a => if j = k then some a else none
  | _ => none

theorem created_append (actions more : List Action) :
    created (actions ++ more) = created actions ++ created more := List.filterMap_append

theorem appended_append (i : Nat) (actions more : List Action) :
    appended i (actions ++ more) = appended i actions ++ appended i more := List.filterMap_append

theorem asked_append (k : Nat) (actions more : List Action) :
    asked k (actions ++ more) = asked k actions ++ asked k more := List.filterMap_append

section

variable {start : Volume} {m : Mapping} {v v' : Volume}

/-- The reader of a number is what it was when it was opened, with the addresses it has looked up
since, as long as the volume is what it is. -/
def Opened (start : Volume) (actions : List Action) (k : Nat) (m : Mapping) (v : Volume) : Prop :=
  ∃ before p capacity after past opened, actions = before ++ .visit p capacity :: after ∧
    run { volume := start } before = some past ∧ past.readers.length = k ∧
    past.volume.Holds p m.node ∧ Reader.open past.disk p = .ok opened ∧
    m.reader v = (opened.withCache capacity).afterLookups (asked k after)

/-- What writers and readers have of the run that led to them. -/
structure Remembers (start : Volume) (actions : List Action) (w : World) : Prop where
  paths_eq : w.sessions.map Session.path = created actions
  entries_eq : ∀ i, (w.sessions[i]?.elim [] fun s => s.entries.toList) = appended i actions
  opened : ∀ k m, w.readers[k]? = some m → Opened start actions k m w.volume

/-- Other things happen, which leave the file of the reader what it is. -/
theorem Opened.append {k : Nat} (h : Opened start actions k m v)
    (hnode : v'.node m.node = v.node m.node) (action : Action) (hasked : asked k [action] = []) :
    Opened start (actions ++ [action]) k m v' := by
  obtain ⟨before, p, capacity, after, past, opened, rfl, hrun, hk, hholds, hopen, hm⟩ := h
  refine ⟨before, p, capacity, after ++ [action], past, opened, by simp, hrun, hk, hholds, hopen,
    ?_⟩
  rw [Mapping.reader_congr hnode, hm, asked_append, hasked, List.append_nil]

/-- The reader is asked for an address. -/
theorem Opened.lookup {k : Nat} (h : Opened start actions k m v) (a : Address) :
    Opened start (actions ++ [.lookup k a]) k (m.lookup v a).2 v := by
  obtain ⟨before, p, capacity, after, past, opened, rfl, hrun, hk, hholds, hopen, hm⟩ := h
  refine ⟨before, p, capacity, after ++ [.lookup k a], past, opened, by simp, hrun, hk, hholds,
    hopen, ?_⟩
  rw [Mapping.reader_lookup, hm, asked_append, Reader.afterLookups, Reader.afterLookups,
    show asked k [.lookup k a] = [a] by simp [asked], List.foldl_append]
  rfl

/-- A writer makes a move. -/
theorem Remembers.move (h : w.Remembers start actions) (hsound : w.Sound start.disk) {i : Nat}
    {move : Move} {s s' : Session} (hs : w.sessions[i]? = some s)
    (hact : s.act w.volume move = some (s', v')) (published : List Session) :
    Remembers start (actions ++ [.move i move])
      { w with volume := v', sessions := w.sessions.set i s', published } := by
  have hmem := List.mem_of_getElem? hs
  have hacted := Session.acted_of_act (hsound.keeps s hmem) (hsound.plain s hmem) hact
  refine ⟨?_, fun j => ?_, fun k m hm => (h.opened k m hm).append ?_ _ rfl⟩
  · have hpath : (w.sessions.map Session.path)[i]? = some s.path := by
      rw [List.getElem?_map, hs]
      rfl
    obtain ⟨hi, hget⟩ := List.getElem?_eq_some_iff.1 hpath
    rw [created_append, ← h.paths_eq, List.map_set, hacted.path_eq, ← hget, List.set_getElem_self]
    exact (List.append_nil _).symm
  · rw [appended_append, ← h.entries_eq]
    by_cases hij : i = j
    · subst hij
      rw [List.getElem?_set_self (List.getElem?_eq_some_iff.1 hs).1, hs]
      show s'.entries.toList = s.entries.toList ++ appended i [.move i move]
      rw [hacted.entries_eq]
      cases hentry : move.entry? <;> simp [appended, hentry]
    · rw [List.getElem?_set_ne hij]
      simp [appended, hij]
  · exact hacted.leaves.node_eq _ (hsound.settled m (List.mem_of_getElem? hm) s.number)

/-- A file is opened. -/
theorem Remembers.visit (h : w.Remembers start actions)
    (hrun : run { volume := start } actions = some w) (p : Path) (capacity : Nat) :
    Remembers start (actions ++ [.visit p capacity]) { w with
      readers := w.readers ++
        (Mapping.open w.volume p).toOption.toList.map (·.withCache capacity) } := by
  refine ⟨?_, fun i => ?_, fun k m hm => ?_⟩
  · rw [created_append, h.paths_eq]
    exact (List.append_nil _).symm
  · rw [appended_append, h.entries_eq]
    exact (List.append_nil _).symm
  · by_cases hk : k < w.readers.length
    · rw [List.getElem?_append_left hk] at hm
      exact (h.opened k m hm).append rfl _ rfl
    · rw [List.getElem?_append_right (Nat.le_of_not_lt hk)] at hm
      have hreader := Mapping.map_reader_open w.volume p
      cases hopen : Mapping.open w.volume p with
      | error e =>
        rw [hopen] at hm
        exact nomatch hm
      | ok opened =>
        have hholds := Mapping.holds_of_open hopen
        rw [hopen] at hm hreader
        change [opened.withCache capacity][k - w.readers.length]? = some m at hm
        rw [List.getElem?_singleton] at hm
        split at hm
        · obtain rfl := Option.some_inj.1 hm
          exact ⟨actions, p, capacity, [], w, opened.reader w.volume, rfl, hrun, by omega,
            hholds, hreader.symm, rfl⟩
        · exact nomatch hm

/-- **Every step adds to what is remembered.** -/
theorem Remembers.step (h : w.Remembers start actions) (hsound : w.Sound start.disk)
    (hrun : run { volume := start } actions = some w) (hstep : w.step action = some w') :
    w'.Remembers start (actions ++ [action]) := by
  rcases step_cases hstep with ⟨p, rfl, rfl⟩ | ⟨i, move, s, s', v', rfl, hs, hact, rfl⟩ |
    ⟨p, capacity, rfl, rfl⟩ | ⟨k, a, m, rfl, hm, rfl⟩
  · refine ⟨?_, fun i => ?_, fun k m hm => (h.opened k m hm).append rfl _ rfl⟩
    · rw [created_append, List.map_append, h.paths_eq]
      rfl
    · rw [appended_append, ← h.entries_eq]
      refine Eq.trans ?_ (List.append_nil _).symm
      by_cases hi : i < w.sessions.length
      · rw [List.getElem?_append_left hi]
      · rw [List.getElem?_append_right (Nat.le_of_not_lt hi), List.getElem?_singleton,
          List.getElem?_eq_none (Nat.le_of_not_lt hi)]
        split <;> rfl
  · exact h.move hsound hs hact _
  · exact h.visit hrun p capacity
  · refine ⟨?_, fun i => ?_, fun j m' hm' => ?_⟩
    · rw [created_append, h.paths_eq]
      exact (List.append_nil _).symm
    · rw [appended_append, h.entries_eq]
      exact (List.append_nil _).symm
    · rcases getElem?_set_cases hm' with ⟨rfl, rfl⟩ | ⟨hne, hm'⟩
      · exact (h.opened j m hm).lookup a
      · exact (h.opened j m' hm').append rfl _ (by simp [asked, Ne.symm hne])

end

end

end World

end IpAtlas.Index
