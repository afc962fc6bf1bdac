import IpAtlas.Proofs.Overlay.Remainder
import IpAtlas.Proofs.Overlay.Walk

/-!
# Sweeping in any order

Records should come to a sweep in ascending order.  Where they do not, where they overlap, where a
receiver refuses a piece and the sweep stays in the middle of a record, and where marks are crossed
or reach from one family into the other, the sweep may miss marks that it has passed.  It never does
worse than that: the pieces of a record follow one another from its first address to its last, and
the data for a piece is that of a mark in which the whole piece lies.

## What is here

* `Sweep.Reached` — the sweeps there can be, whatever was done with them.
* `Sweep.Reached.suffix` — what they have left are ends of their tracks.
* `Sweep.Contiguous`, `Sweep.contiguous_decorate` — pieces that follow one another.
* `Sweep.sound_of_reached` — the pieces of a record, in any order.
-/

set_option autoImplicit false

namespace IpAtlas

namespace Range

variable {r : Range} {parts : List Range}

/-- Each part begins right behind the one before. -/
theorem Tiles.isChain (h : Tiles r parts) :
    parts.IsChain fun s t => s.last.succ? = some t.first := by
  induction h with
  | whole r => exact List.isChain_singleton r
  | @cut r a parts h hparts ih =>
    refine List.isChain_cons.2 ⟨fun t ht => ?_, ih⟩
    have hfirst := hparts.ends.1
    rw [Option.mem_def.1 ht] at hfirst
    rw [show t.first = a from Option.some_inj.1 hfirst]
    exact h.succ?_before

/-- There are no more parts than addresses. -/
theorem Tiles.length_le (h : Tiles r parts) : parts.length ≤ r.extent + 1 := by
  induction h with
  | whole r => exact Nat.le_add_left 1 r.extent
  | cut h _ ih =>
    have hlt := extent_onwards_lt h
    rw [List.length_cons]
    omega

end Range

namespace Sweep

variable {α : Type}

/-! ## Every sweep there can be -/

/-- The sweeps that come of laying tracks over records one after the other, in whatever order, when
the pieces are handed to receivers that may refuse them. -/
inductive Reached (tracks : List (Track α)) (rules : Rules α) (policy : Policy) : Sweep α → Prop where
  | start : Reached tracks rules policy (ofTracks tracks rules policy)
  | decorate {s : Sweep α} (h : Reached tracks rules policy s) (record : Record) :
      Reached tracks rules policy (s.decorate record).2.1
  | feed {s : Sweep α} {σ ε : Type} (h : Reached tracks rules policy s)
      (receive : σ → Journal → Record → σ × Option ε) (state : σ) (record : Record) :
      Reached tracks rules policy (s.feed receive state record).2.2

section

variable {tracks : List (Track α)} {rules : Rules α} {policy : Policy} {s : Sweep α}
  {record : Record}

/-- A sweep over tracks, of which it has left what it did not pass. -/
structure Suffix (tracks : List (Track α)) (rules : Rules α) (policy : Policy) (s : Sweep α) :
    Prop where
  left : List.Forall₂ (fun track marks => marks <:+ track.marks) tracks s.left
  rules_eq : s.rules = rules
  policy_eq : s.policy = policy

theorem suffix_start (tracks : List (Track α)) (rules : Rules α) (policy : Policy) :
    Suffix tracks rules policy (ofTracks tracks rules policy) := by
  refine ⟨?_, rfl, rfl⟩
  rw [Sweep.left, ofTracks, List.map_map, List.forall₂_map_right_iff, List.forall₂_same]
  intro track _
  exact List.suffix_refl track.marks

theorem Suffix.of_mem_cuts (h : Suffix tracks rules policy s) {cut : Cut α}
    (hcut : cut ∈ s.cuts record) : Suffix tracks rules policy cut.sweep := by
  have hstands := stands_of_mem_cutsFrom hcut
  refine ⟨?_, hstands.rules.trans h.rules_eq, hstands.policy.trans h.policy_eq⟩
  rw [hstands.left, List.forall₂_map_right_iff]
  exact h.left.imp fun track marks hsuffix => (List.dropWhile_suffix _).trans hsuffix

/-- **However a sweep was reached, what it has left are ends of its tracks.** -/
theorem Reached.suffix (h : Reached tracks rules policy s) : Suffix tracks rules policy s := by
  induction h with
  | start => exact suffix_start tracks rules policy
  | @decorate s _ record ih =>
    obtain ⟨cut, hcut, heq⟩ := exists_cut_of_decorate s record
    rw [heq]
    exact ih.of_mem_cuts hcut
  | @feed s σ ε _ receive state record ih =>
    obtain ⟨cut, hcut, heq⟩ := exists_cut_of_handOver receive state s (s.cuts_ne_nil record)
    rw [Sweep.feed, heq]
    exact ih.of_mem_cuts hcut

/-! ## The pieces -/

/-- Pieces that follow one another from one end of a record to the other, each bound to its part. -/
structure Contiguous (record : Record) (pieces : List Record) : Prop where
  first : pieces.head?.map (·.range.first) = some record.range.first
  last : pieces.getLast?.map (·.range.last) = some record.range.last
  next : pieces.IsChain fun p q => p.range.last.succ? = some q.range.first
  nonempty : ∀ p ∈ pieces, p.range.first ≤ p.range.last
  family : ∀ p ∈ pieces,
    p.range.first.family = record.range.family ∧ p.range.last.family = record.range.family
  bound : ∀ p ∈ pieces, p.location.span = p.range.toSpan
  line : ∀ p ∈ pieces, p.line = record.line

theorem tiles_decorate (s : Sweep α) (record : Record) :
    Range.Tiles record.range ((s.decorate record).1.map (·.range)) := by
  have htiles := s.tiles_cutsFrom record record.range
  rw [decorate, List.map_map]
  exact htiles

/-- **A sweep leaves nothing of a record out**, whatever state it is in. -/
theorem contiguous_decorate (s : Sweep α) (record : Record) :
    Contiguous record (s.decorate record).1 := by
  have htiles := s.tiles_decorate record
  obtain ⟨hfirst, hlast⟩ := htiles.ends
  rw [List.head?_map, Option.map_map] at hfirst
  rw [List.getLast?_map, Option.map_map] at hlast
  refine ⟨hfirst, hlast, List.isChain_of_isChain_map _ (fun _ _ h => h) htiles.isChain,
    fun p _ => p.range.first_le_last, fun p hp => ?_, fun p hp => ?_, fun p hp => ?_⟩
  · have hwithin := htiles.within _ (List.mem_map_of_mem hp)
    have hfamily : p.range.first.family = record.range.family :=
      Address.family_eq_of_between record.range.valid.1 hwithin.1
        (Nat.le_trans p.range.first_le_last hwithin.2)
    exact ⟨hfamily, p.range.valid.1.symm.trans hfamily⟩
  · obtain ⟨cut, hcut, rfl⟩ := List.mem_map.1 hp
    rw [(stands_of_mem_cutsFrom hcut).location]
    rfl
  · obtain ⟨cut, hcut, rfl⟩ := List.mem_map.1 hp
    exact line_of_mem_cutsFrom hcut

end

end Sweep

/-- A policy selects among marks as it does among their data. -/
theorem Policy.select_map {α β : Type} (policy : Policy) (f : α → β) (active : List (Option α)) :
    policy.select (active.map (Option.map f)) = (policy.select active).map f := by
  have hpresent : (active.map (Option.map f)).filterMap id = (active.filterMap id).map f := by
    rw [List.filterMap_map, List.map_filterMap]
    rfl
  have hall : (active.map (Option.map f)).all Option.isSome = active.all Option.isSome := by
    rw [List.all_map]
    exact List.all_congr rfl fun x => Option.isSome_map
  cases policy with
  | union => rw [select, select, hpresent, List.head?_map]
  | priority => rw [select, select, hpresent, List.getLast?_map]
  | intersection =>
    rw [select, select, hpresent, hall, List.head?_map]
    split <;> rfl

/-- What a policy selects is there. -/
theorem Policy.mem_of_select {α : Type} {policy : Policy} {active : List (Option α)} {x : α}
    (h : policy.select active = some x) : some x ∈ active := by
  have hselects := policy.selects_select active
  rw [h] at hselects
  cases policy with
  | union =>
    obtain ⟨front, back, rfl, -⟩ := hselects
    simp
  | priority =>
    obtain ⟨front, back, rfl, -⟩ := hselects
    simp
  | intersection =>
    obtain ⟨back, rfl, -⟩ := hselects
    simp

namespace Sweep

variable {α : Type} {tracks : List (Track α)} {rules : Rules α} {policy : Policy} {s : Sweep α}

/-- A range lies in the mark that is held of a track, if one is. -/
def LiesIn (r : Range) (track : Track α) (held : Option (Mark α)) : Prop :=
  ∀ m, held = some m → m ∈ track.drain.1 ∧ m.Encloses r

theorem Suffix.encloses (h : Suffix tracks rules policy s) {record : Record} {cut : Cut α}
    (hcut : cut ∈ s.cuts record) :
    List.Forall₂ (LiesIn cut.piece.range) tracks (heldAt cut.piece.range.first s.left) := by
  have hstands := stands_of_mem_cutsFrom hcut
  have hmem := (List.forall₂_and_left (p := fun marks => marks ∈ s.left) _ _).2
    ⟨fun marks hmarks => hmarks, h.left.flip⟩
  rw [heldAt, List.forall₂_map_right_iff]
  refine List.Forall₂.flip (hmem.imp fun marks track hpair m hm => ?_)
  obtain ⟨hhead, -⟩ := Option.filter_eq_some_iff.1 hm
  refine ⟨List.IsSuffix.subset hpair.2 (Mark.mem_of_mem_onwards (List.mem_of_head? hhead)), ?_⟩
  exact hstands.encloses m (List.mem_map.2 ⟨marks, hpair.1, hm⟩)

theorem exists_mem_of_forall₂ {β γ : Type} {R : β → γ → Prop} {xs : List β} {ys : List γ} {y : γ}
    (h : List.Forall₂ R xs ys) (hy : y ∈ ys) : ∃ x ∈ xs, R x y := by
  obtain ⟨i, hi, rfl⟩ := List.mem_iff_getElem.1 hy
  have hi' : i < xs.length := h.length_eq ▸ hi
  exact ⟨xs[i], List.getElem_mem hi', h.get hi' hi⟩

/-- **The pieces of a record, in any order.**  Whatever tracks of whatever marks a sweep was laid
over, and whatever it went through, going from address to address over a record comes to an end, with
no more pieces than there are addresses.  They follow one another from the first address of the record
to its last, each bound to its part; and the rules rewrite each with the data of a mark in which the
piece lies, or as one that no mark covers. -/
theorem sound_of_reached (h : Reached tracks rules policy s) (record : Record) :
    (∀ fuel, record.range.extent < fuel →
      s.walk record fuel record.range.first = some ((s.cuts record).map Cut.turn)) ∧
      Contiguous record (s.decorate record).1 ∧
      (s.decorate record).1.length ≤ record.range.extent + 1 ∧
      ∀ piece ∈ (s.decorate record).1, ∃ held : List (Option (Mark α)),
        List.Forall₂ (LiesIn piece.range) tracks held ∧
        piece.location = (match policy.select held with
          | some m => rules.onMark record.location m.data piece.range.toSpan
          | none => rules.onNone record.location piece.range.toSpan).rebind piece.range.toSpan ∧
        ∀ m, policy.select held = some m →
          (∃ track ∈ tracks, m ∈ track.drain.1) ∧ m.Encloses piece.range := by
  have hsuffix := h.suffix
  refine ⟨fun fuel => s.walk_eq record rfl, s.contiguous_decorate record, ?_,
    fun piece hpiece => ?_⟩
  · have hlength := (s.tiles_decorate record).length_le
    rwa [List.length_map] at hlength
  · obtain ⟨cut, hcut, rfl⟩ := List.mem_map.1 hpiece
    have hencloses := hsuffix.encloses hcut
    refine ⟨heldAt cut.piece.range.first s.left, hencloses, ?_, fun m hm => ?_⟩
    · rw [(stands_of_mem_cutsFrom hcut).location, hsuffix.rules_eq, hsuffix.policy_eq,
        Policy.select_map]
      cases policy.select (heldAt cut.piece.range.first s.left) <;> rfl
    · obtain ⟨track, htrack, hin⟩ :=
        exists_mem_of_forall₂ hencloses (Policy.mem_of_select hm)
      exact ⟨⟨track, htrack, (hin m rfl).1⟩, (hin m rfl).2⟩

/-- A receiver that refuses every piece leaves the sweep at the start of a mark, the next record goes
back behind that start, and a second mark is crossed. -/
theorem sound_of_reached_descending :
    ∃ (m crossed : Mark Flag) (s : Sweep Flag) (record : Record),
      ¬ crossed.span.Valid ∧
        Reached [Track.ofMarks [[m, crossed]]] .privateNetwork .union s ∧
        s.cursors.any (fun c => c.active.any fun m => record.range.first < m.span.first) = true ∧
        Contiguous record (s.decorate record).1 ∧ (s.decorate record).1.length = 2 := by
  let address (n : Nat) (h : n < Family.v4.size) : Address := ⟨.v4, n, h⟩
  let m : Mark Flag := ⟨⟨address 20 (by decide), address 30 (by decide)⟩, .yes⟩
  let crossed : Mark Flag := ⟨⟨address 60 (by decide), address 50 (by decide)⟩, .yes⟩
  let ahead : Range := ⟨⟨address 20 (by decide), address 40 (by decide)⟩, by decide⟩
  let behind : Range := ⟨⟨address 15 (by decide), address 25 (by decide)⟩, by decide⟩
  let start : Sweep Flag := ofTracks [Track.ofMarks [[m, crossed]]] .privateNetwork .union
  let refusing : Unit → Journal → Record → Unit × Option Unit := fun _ _ _ => ((), some ())
  let s := (start.feed refusing () ⟨ahead, { span := ahead.toSpan }, ⟨1, "20-40"⟩⟩).2.2
  let record : Record := ⟨behind, { span := behind.toSpan }, ⟨2, "15-25"⟩⟩
  have hreached : Reached [Track.ofMarks [[m, crossed]]] .privateNetwork .union s :=
    .feed .start refusing () _
  obtain ⟨-, hcontiguous, -, -⟩ := sound_of_reached hreached record
  refine ⟨m, crossed, s, record, by decide, hreached, ?_, hcontiguous, ?_⟩
  · decide +kernel
  · decide +kernel

end Sweep

end IpAtlas
