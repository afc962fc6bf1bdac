import IpAtlas.Proofs.Overlay.Track
import Mathlib.Data.List.Chain
import Mathlib.Data.List.Forall2

/-!
# What a sweep makes of ascending records

A sweep that has advanced to an address knows the mark of every collection that covers it, and the
first address behind at which one of these marks changes.  So the record that begins there is cut at
all changes inside it and nowhere else, and every piece is rewritten with the data that counts
throughout the piece.  The next record begins behind, so the sweep may advance to it, and the same
is said of it: what became of the records before leaves no trace.

## What is here

* `Policy.Selects`, `Policy.selects_select` — whose data counts, said without computing it.
* `Sweep.coverAt` — the marks that cover an address, one for each collection.
* `Sweep.Ready`, `Sweep.At` — a sweep before it advances to an address, and after.
* `Sweep.cutsFrom_resolves` — the pieces are the largest parts with the same marks.
* `Sweep.Overlaid`, `Sweep.overlaid_decorateAll` — the records of a stream, one after the other.
-/

set_option autoImplicit false

namespace IpAtlas

variable {α : Type}

/-! ## Policies -/

namespace Policy

/-- What counts, given what each collection has for an address: the first data there is, the last,
or the first if all of them have some. -/
def Selects : Policy → List (Option α) → Option α → Prop
  | union, active, some data =>
    ∃ front back, active = front ++ some data :: back ∧ ∀ x ∈ front, x = none
  | priority, active, some data =>
    ∃ front back, active = front ++ some data :: back ∧ ∀ x ∈ back, x = none
  | intersection, active, some data => ∃ back, active = some data :: back ∧ ∀ x ∈ back, x ≠ none
  | intersection, active, none => active = [] ∨ none ∈ active
  | _, active, none => ∀ x ∈ active, x = none

theorem selects_union (active : List (Option α)) :
    Selects union active ((active.filterMap id).head?) := by
  rw [List.head?_filterMap]
  cases h : active.findSome? id with
  | none => exact List.findSome?_eq_none_iff.1 h
  | some data =>
    obtain ⟨front, x, back, hsplit, hx, hfront⟩ := List.findSome?_eq_some_iff.1 h
    obtain rfl : x = some data := hx
    exact ⟨front, back, hsplit, hfront⟩

theorem selects_priority (active : List (Option α)) :
    Selects priority active ((active.filterMap id).getLast?) := by
  have hfirst := selects_union active.reverse
  rw [List.filterMap_reverse, List.head?_reverse] at hfirst
  cases h : (active.filterMap id).getLast? with
  | none =>
    rw [h] at hfirst
    exact fun x hx => hfirst x (List.mem_reverse.2 hx)
  | some data =>
    rw [h] at hfirst
    obtain ⟨front, back, hsplit, hfront⟩ := hfirst
    refine ⟨back.reverse, front.reverse, ?_, fun x hx => hfront x (List.mem_reverse.1 hx)⟩
    rw [← List.reverse_reverse active, hsplit]
    simp

theorem selects_intersection (active : List (Option α)) :
    Selects intersection active
      (if active.all Option.isSome then (active.filterMap id).head? else none) := by
  cases active with
  | nil => exact Or.inl rfl
  | cons x back =>
    cases x with
    | none => exact Or.inr (by simp)
    | some data =>
      by_cases hall : back.all Option.isSome = true
      · rw [List.all_cons, if_pos (by simpa using hall)]
        refine ⟨back, rfl, fun x hx hnone => ?_⟩
        have hsome := List.all_eq_true.1 hall x hx
        rw [hnone] at hsome
        exact nomatch hsome
      · rw [List.all_cons, if_neg (by simpa using hall)]
        refine Or.inr (List.mem_cons_of_mem _ ?_)
        simpa using hall

/-- **A policy selects what counts.** -/
theorem selects_select (policy : Policy) (active : List (Option α)) :
    policy.Selects active (policy.select active) := by
  cases policy with
  | union => exact selects_union active
  | priority => exact selects_priority active
  | intersection => exact selects_intersection active

end Policy

namespace Sweep

/-! ## The lowest of some addresses -/

theorem lowest_eq_none {as : List Address} (h : lowest as = none) : as = [] := by
  cases as with
  | nil => rfl
  | cons a as =>
    rw [lowest] at h
    split at h <;> exact absurd h (Option.some_ne_none _)

theorem lowest_le {as : List Address} {a : Address} (h : lowest as = some a) :
    ∀ b ∈ as, a ≤ b := by
  induction as generalizing a with
  | nil => simp
  | cons c as ih =>
    rw [lowest] at h
    split at h
    · rename_i d hd
      have hle := ih hd
      obtain rfl := Option.some_inj.1 h
      refine List.forall_mem_cons.2 ⟨?_, fun b hb => ?_⟩
      · split
        · exact Address.le_refl c
        · rename_i hcd
          exact Nat.le_of_lt (Address.not_le.1 hcd)
      · split
        · rename_i hcd
          exact Nat.le_trans hcd (hle b hb)
        · exact hle b hb
    · rename_i hnone
      obtain rfl := Option.some_inj.1 h
      rw [lowest_eq_none hnone]
      simpa using Address.le_refl c

theorem changes_of_nextCut_none {s : Sweep α} {r : Range} (h : s.nextCut r = none) :
    s.changes r = [] := by
  rw [nextCut] at h
  split at h
  · exact nomatch h
  · rename_i hnone
    exact lowest_eq_none hnone

theorem lowest_of_nextCut_some {s : Sweep α} {r : Range} {a : Address} {hcut : r.CutBy a}
    (h : s.nextCut r = some ⟨a, hcut⟩) : lowest (s.changes r) = some a := by
  rw [nextCut] at h
  split at h
  · rename_i b hb
    rw [hb]
    exact congrArg (Option.map Subtype.val) h
  · exact nomatch h

/-! ## The marks that cover an address -/

/-- The marks that cover an address, one for each collection that has one. -/
def coverAt (collections : List (List (Mark α))) (a : Address) : List (Option (Mark α)) :=
  collections.map fun marks => Mark.at? marks a

/-- A sweep over collections that may advance to an address. -/
def Ready (collections : List (List (Mark α))) (a : Address) (s : Sweep α) : Prop :=
  List.Forall₂ (fun marks c => Cursor.Ready marks a c) collections s.cursors

/-- A sweep over collections at an address. -/
def At (collections : List (List (Mark α))) (a : Address) (s : Sweep α) : Prop :=
  List.Forall₂ (fun marks c => Cursor.At marks a c) collections s.cursors

section

variable {collections : List (List (Mark α))} {a b : Address} {s : Sweep α} {r t : Range}

theorem At.ready (h : At collections a s) (hab : a ≤ b) : Ready collections b s :=
  List.Forall₂.imp (fun _ _ hc => hc.ready hab) h

theorem map_eq_of_forall₂ {β γ δ : Type} {R : β → γ → Prop} {f : β → δ} {g : γ → δ} {xs : List β}
    {ys : List γ} (h : List.Forall₂ R xs ys) (heq : ∀ x y, R x y → g y = f x) :
    ys.map g = xs.map f := by
  induction h with
  | nil => rfl
  | cons hxy _ ih => rw [List.map_cons, List.map_cons, heq _ _ hxy, ih]

theorem At.dataAt_eq (h : At collections a s) :
    s.dataAt a = s.policy.select ((coverAt collections a).map (Option.map Mark.data)) := by
  rw [dataAt, coverAt, List.map_map]
  exact congrArg _ (map_eq_of_forall₂ h fun _ _ hc => hc.covering_eq)

theorem At.changes_eq (h : At collections r.first s) :
    s.changes r =
      (collections.filterMap fun marks => Mark.change? marks r.first).filter
        fun a => r.CutBy a := by
  have hmap := map_eq_of_forall₂ h fun _ _ hc => hc.change?_eq
  have hfilter := congrArg (List.filterMap id) hmap
  rw [List.filterMap_map, List.filterMap_map] at hfilter
  exact congrArg (List.filter _) hfilter

variable (hasc : ∀ marks ∈ collections, Span.Ascending (marks.map Mark.span))
include hasc

theorem Ready.at_advance (h : Ready collections a s) : At collections a (s.advance a).1 := by
  have hcursors : (s.advance a).1.cursors = s.cursors.map fun c => (c.advance a).1 := by
    rw [advance, List.map_map]
    rfl
  rw [At, hcursors, List.forall₂_map_right_iff]
  exact (List.forall₂_and_left (p := fun marks => Span.Ascending (marks.map Mark.span)) _ _).2
    ⟨hasc, h⟩ |>.imp fun _ _ hc => hc.2.at_advance hc.1

/-- **Up to the first change a part of a range has the same marks throughout.** -/
theorem At.uniform (h : At collections r.first s) (hfirst : t.first = r.first) (ht : t.Within r)
    (hlt : ∀ c ∈ s.changes r, t.last < c) : Range.Uniform (coverAt collections) t := by
  intro b hb
  obtain ⟨hb1, hb2⟩ := Span.contains_iff.1 hb
  have hfamily : b.family = r.first.family := by rw [Range.family_eq hb, hfirst]
  rw [hfirst] at hb1 ⊢
  refine List.map_congr_left fun marks hmarks => ?_
  refine Mark.at?_eq_of_lt_change? (hasc marks hmarks) hb1 hfamily fun c hc => ?_
  have hafter := Mark.lt_of_change? (hasc marks hmarks) hc
  by_cases hle : c ≤ r.last
  · have hmem : c ∈ s.changes r := by
      rw [h.changes_eq, List.mem_filter, List.mem_filterMap]
      exact ⟨⟨marks, hmarks, hc⟩, decide_eq_true ⟨hafter, hle⟩⟩
    exact Nat.lt_of_le_of_lt hb2 (hlt c hmem)
  · exact Nat.lt_of_le_of_lt (Nat.le_trans hb2 ht.2) (Address.not_le.1 hle)

/-- At a change the marks are others. -/
theorem At.coverAt_ne (h : At collections r.first s) (hcut : r.CutBy a) (ha : a ∈ s.changes r) :
    coverAt collections a.before ≠ coverAt collections a := by
  rw [h.changes_eq, List.mem_filter, List.mem_filterMap] at ha
  obtain ⟨⟨marks, hmarks, hchange⟩, -⟩ := ha
  intro hsame
  exact Mark.at?_ne_of_change? (hasc marks hmarks) hcut hchange
    (List.map_inj_left.1 hsame marks hmarks)

end

/-! ## The pieces of a record -/

section

variable {collections : List (List (Mark α))} {record : Record}

theorem cutsFrom_of_none {s s' : Sweep α} {rest : Range} {remarks : Journal}
    (hadvance : s.advance rest.first = (s', remarks)) (h : s'.nextCut rest = none) :
    s.cutsFrom record rest = [⟨s'.piece record rest, s', remarks⟩] := by
  rw [cutsFrom.eq_def, hadvance]
  simp only [h]

theorem cutsFrom_of_some {s s' : Sweep α} {rest : Range} {remarks : Journal} {a : Address}
    {hcut : rest.CutBy a} (hadvance : s.advance rest.first = (s', remarks))
    (h : s'.nextCut rest = some ⟨a, hcut⟩) :
    s.cutsFrom record rest =
      ⟨s'.piece record (rest.upTo a hcut), s', remarks⟩ ::
        s'.cutsFrom record (rest.onwards a hcut) := by
  rw [cutsFrom.eq_def, hadvance]
  simp only [h]

/-- A sweep leaves nothing of a record out, whatever it is laid over. -/
theorem tiles_cutsFrom (s : Sweep α) (record : Record) (rest : Range) :
    Range.Tiles rest ((s.cutsFrom record rest).map (·.piece.range)) := by
  induction s, rest using cutsFrom.induct with
  | case1 s rest s' remarks hadvance hnext =>
    rw [cutsFrom_of_none hadvance hnext]
    exact Range.Tiles.whole rest
  | case2 s rest s' remarks hadvance a hcut hnext _ ih =>
    rw [cutsFrom_of_some hadvance hnext]
    exact Range.Tiles.cut hcut ih

theorem line_of_mem_cutsFrom {s : Sweep α} {rest : Range} {cut : Cut α}
    (h : cut ∈ s.cutsFrom record rest) : cut.piece.line = record.line := by
  induction s, rest using cutsFrom.induct with
  | case1 s rest s' remarks hadvance hnext =>
    rw [cutsFrom_of_none hadvance hnext] at h
    obtain rfl := List.mem_singleton.1 h
    rfl
  | case2 s rest s' remarks hadvance a hcut hnext _ ih =>
    rw [cutsFrom_of_some hadvance hnext] at h
    rcases List.mem_cons.1 h with rfl | h
    · rfl
    · exact ih h

/-- A cut of a record by a sweep over collections: its piece is rewritten with the data that counts
where the piece begins, and there the sweep is when it is handed over. -/
structure Cut.Sound (collections : List (List (Mark α))) (rules : Rules α) (policy : Policy)
    (record : Record) (cut : Cut α) : Prop where
  line : cut.piece.line = record.line
  location : cut.piece.location =
    rules.apply record.location
      (policy.select ((coverAt collections cut.piece.range.first).map (Option.map Mark.data)))
      cut.piece.range.toSpan
  here : At collections cut.piece.range.first cut.sweep
  rules_eq : cut.sweep.rules = rules
  policy_eq : cut.sweep.policy = policy

theorem At.sound {s : Sweep α} {r t : Range} (h : At collections r.first s)
    (hfirst : t.first = r.first) (remarks : Journal) :
    Cut.Sound collections s.rules s.policy record ⟨s.piece record t, s, remarks⟩ where
  line := rfl
  location := by
    rw [← hfirst] at h
    rw [piece, h.dataAt_eq]
  here := by
    rw [← hfirst] at h
    exact h
  rules_eq := rfl
  policy_eq := rfl

theorem at_of_advance (hasc : ∀ marks ∈ collections, Span.Ascending (marks.map Mark.span))
    {s s' : Sweep α} {a : Address} {remarks : Journal} (h : Ready collections a s)
    (hadvance : s.advance a = (s', remarks)) :
    At collections a s' ∧ s'.rules = s.rules ∧ s'.policy = s.policy := by
  obtain rfl : (s.advance a).1 = s' := congrArg Prod.fst hadvance
  exact ⟨h.at_advance hasc, rfl, rfl⟩

/-- **The pieces of a record are its largest parts with the same marks**, rewritten by them. -/
theorem cutsFrom_resolves (record : Record)
    (hasc : ∀ marks ∈ collections, Span.Ascending (marks.map Mark.span))
    {s : Sweep α} {rest : Range} (h : Ready collections rest.first s) :
    Range.Resolves (coverAt collections) rest ((s.cutsFrom record rest).map (·.piece.range)) ∧
      ∀ cut ∈ s.cutsFrom record rest, cut.Sound collections s.rules s.policy record := by
  induction s, rest using cutsFrom.induct with
  | case1 s rest s' remarks hadvance hnext =>
    obtain ⟨hat, hrules, hpolicy⟩ := at_of_advance hasc h hadvance
    rw [cutsFrom_of_none hadvance hnext, ← hrules, ← hpolicy]
    refine ⟨Range.Resolves.whole ?_, List.forall_mem_singleton.2 (hat.sound rfl remarks)⟩
    refine hat.uniform hasc rfl (Range.within_refl rest) fun c hc => ?_
    rw [changes_of_nextCut_none hnext] at hc
    exact nomatch hc
  | case2 s rest s' remarks hadvance a hcut hnext _ ih =>
    obtain ⟨hat, hrules, hpolicy⟩ := at_of_advance hasc h hadvance
    have hlowest := lowest_of_nextCut_some hnext
    obtain ⟨hresolves, hsound⟩ := ih (hat.ready (Nat.le_of_lt hcut.1))
    rw [cutsFrom_of_some hadvance hnext, ← hrules, ← hpolicy]
    refine ⟨Range.Resolves.cut hcut ?_ ?_ hresolves, List.forall_mem_cons.2 ⟨?_, hsound⟩⟩
    · refine hat.uniform hasc rfl (Range.within_upTo hcut) fun c hc => ?_
      have hle := lowest_le hlowest c hc
      have hrank := hcut.rank_before
      simp only [Range.upTo_last, Address.le_iff_rank, Address.lt_iff_rank] at hle ⊢
      omega
    · exact hat.coverAt_ne hasc hcut (lowest_mem hlowest)
    · exact hat.sound (Range.upTo_first hcut) remarks

theorem cuts_ne_nil (s : Sweep α) (record : Record) : s.cuts record ≠ [] := by
  intro hnil
  have htiles := tiles_cutsFrom s record record.range
  rw [show s.cutsFrom record record.range = [] from hnil] at htiles
  exact nomatch htiles

theorem ascending_cuts (s : Sweep α) (record : Record) :
    Span.Ascending ((s.cuts record).map (·.piece.range.toSpan)) := by
  have hasc := (s.tiles_cutsFrom record record.range).ascending
  rw [List.map_map] at hasc
  exact hasc

theorem afterCuts_cons (s : Sweep α) (cut : Sweep.Cut α) (cuts : List (Sweep.Cut α)) :
    s.afterCuts (cut :: cuts) = cut.sweep.afterCuts cuts := by
  rw [afterCuts, afterCuts, List.getLast?_cons]
  cases cuts.getLast? <;> rfl

end

/-! ## Streams of records -/

/-- What becomes of a record: its pieces ascend and leave nothing out, they are the largest parts of
its range on which every collection has the same mark, or none, and each keeps the line of the
record and has its location, rewritten with the data that the policy selects there and bound to the
piece. -/
structure Overlaid (collections : List (List (Mark α))) (rules : Rules α) (policy : Policy)
    (record : Record) (pieces : List Record) : Prop where
  tiles : Range.Tiles record.range (pieces.map (·.range))
  ascending : Span.Ascending (pieces.map (·.range.toSpan))
  mem_iff : ∀ r : Range, r ∈ pieces.map (·.range) ↔
    Range.Maximal (coverAt collections) record.range r
  line : ∀ piece ∈ pieces, piece.line = record.line
  location : ∀ piece ∈ pieces, piece.location =
    (match policy.select
        ((coverAt collections piece.range.first).map (Option.map Mark.data)) with
      | some data => rules.onMark record.location data piece.range.toSpan
      | none => rules.onNone record.location piece.range.toSpan).rebind piece.range.toSpan

section

variable {collections : List (List (Mark α))} {rules : Rules α} {policy : Policy}
  {record : Record} {pieces pieces' : List Record} {s : Sweep α}

theorem overlaid_decorate (hasc : ∀ marks ∈ collections, Span.Ascending (marks.map Mark.span))
    (h : Ready collections record.range.first s) :
    Overlaid collections s.rules s.policy record (s.decorate record).1 := by
  obtain ⟨hresolves, hsound⟩ := cutsFrom_resolves record hasc h
  have hranges : (s.decorate record).1.map (·.range) =
      (s.cutsFrom record record.range).map (·.piece.range) := by
    rw [decorate, List.map_map]
    rfl
  have hpieces : ∀ piece ∈ (s.decorate record).1,
      ∃ cut ∈ s.cutsFrom record record.range, cut.piece = piece := fun piece hpiece =>
    List.mem_map.1 hpiece
  refine ⟨?_, ?_, fun r => ?_, fun piece hpiece => ?_, fun piece hpiece => ?_⟩
  · rw [hranges]
    exact hresolves.tiles
  · have hasc := hresolves.tiles.ascending
    rw [← hranges, List.map_map] at hasc
    exact hasc
  · rw [hranges]
    exact hresolves.mem_iff
  · obtain ⟨cut, hcut, rfl⟩ := hpieces piece hpiece
    exact (hsound cut hcut).line
  · obtain ⟨cut, hcut, rfl⟩ := hpieces piece hpiece
    exact (hsound cut hcut).location

/-- The sweep goes on to any address behind a record. -/
theorem ready_after_decorate (hasc : ∀ marks ∈ collections, Span.Ascending (marks.map Mark.span))
    (h : Ready collections record.range.first s) :
    (∀ a, record.range.last < a → Ready collections a (s.decorate record).2.1) ∧
      (s.decorate record).2.1.rules = s.rules ∧ (s.decorate record).2.1.policy = s.policy := by
  obtain ⟨hresolves, hsound⟩ := cutsFrom_resolves record hasc h
  obtain ⟨front, cut, hcuts⟩ := (s.cuts record).eq_nil_or_concat.resolve_left
    (s.cuts_ne_nil record)
  have hafter : (s.decorate record).2.1 = cut.sweep := by
    rw [decorate, afterCuts, hcuts, List.concat_eq_append, List.getLast?_concat]
    rfl
  have hmem : cut ∈ s.cutsFrom record record.range := by
    rw [← cuts, hcuts]
    simp
  have hcut := hsound cut hmem
  rw [hafter]
  refine ⟨fun a ha => hcut.here.ready ?_, hcut.rules_eq, hcut.policy_eq⟩
  have hin := (hresolves.tiles.within _ (List.mem_map_of_mem hmem)).2
  have hle := cut.piece.range.first_le_last
  simp only [Address.le_iff_rank, Address.lt_iff_rank] at hin hle ha ⊢
  omega

/-- A stream of ascending records, the first of which begins where the sweep may advance to. -/
theorem overlaid_of_ready (hasc : ∀ marks ∈ collections, Span.Ascending (marks.map Mark.span))
    {records : List Record} (hrecords : records.IsChain fun r r' => r.range.last < r'.range.first)
    (hready : ∀ record ∈ records.head?, Ready collections record.range.first s) :
    List.Forall₂ (Overlaid collections s.rules s.policy) records (s.decorateAll records).1 := by
  induction records generalizing s with
  | nil => exact List.Forall₂.nil
  | cons record records ih =>
    have h := hready record rfl
    obtain ⟨hgo, hrules, hpolicy⟩ := ready_after_decorate hasc h
    obtain ⟨hnext, hrest⟩ := List.isChain_cons.1 hrecords
    have hmore := ih hrest fun record' hrecord' => hgo _ (hnext record' hrecord')
    rw [hrules, hpolicy] at hmore
    exact List.Forall₂.cons (overlaid_decorate hasc h) hmore

/-- What becomes of a record is determined by the marks alone. -/
theorem Overlaid.unique (h : Overlaid collections rules policy record pieces)
    (h' : Overlaid collections rules policy record pieces') : pieces = pieces' := by
  have hranges : pieces.map (·.range) = pieces'.map (·.range) :=
    h.tiles.eq_of_mem_iff h'.tiles fun r => (h.mem_iff r).trans (h'.mem_iff r).symm
  have hsame : ∀ piece ∈ pieces, ∀ piece' ∈ pieces', piece.range = piece'.range →
      piece = piece' := by
    intro piece hpiece piece' hpiece' hrange
    have hline := (h.line piece hpiece).trans (h'.line piece' hpiece').symm
    have hlocation := (h.location piece hpiece).trans (hrange ▸ (h'.location piece' hpiece').symm)
    obtain ⟨_, _, _⟩ := piece
    obtain ⟨_, _, _⟩ := piece'
    subst hrange hline hlocation
    rfl
  refine List.ext_getElem (by simpa using congrArg List.length hranges) fun i hi hi' => ?_
  refine hsame _ (List.getElem_mem hi) _ (List.getElem_mem hi') ?_
  simpa [hi, hi'] using congrArg (fun ranges => ranges[i]?) hranges

end

/-- **A sweep cuts the records of an ascending stream exactly where a mark changes**, whatever the
collections, the rules and the policy, and it cuts each as if it were the only one. -/
theorem overlaid_decorateAll (sources : List (List (List (Item α)))) (rules : Rules α)
    (policy : Policy) (records : List Record)
    (hvalid : ∀ source ∈ sources, ∀ m ∈ (Track.ofSources source).drain.1, m.span.Valid)
    (hrecords : records.IsChain fun r r' => r.range.last < r'.range.first) :
    List.Forall₂
        (Overlaid (sources.map fun source => (Track.ofSources source).drain.1) rules policy) records
        ((ofTracks (sources.map Track.ofSources) rules policy).decorateAll records).1 ∧
      ((ofTracks (sources.map Track.ofSources) rules policy).decorateAll records).1 =
        records.map (fun record =>
          ((ofTracks (sources.map Track.ofSources) rules policy).decorate record).1) ∧
      ∀ active : List (Option α), policy.Selects active (policy.select active) := by
  have hasc : ∀ marks ∈ sources.map fun source => (Track.ofSources source).drain.1,
      Span.Ascending (marks.map Mark.span) := by
    intro marks hmarks
    obtain ⟨source, hsource, rfl⟩ := List.mem_map.1 hmarks
    exact Track.ascending_ofSources (hvalid source hsource)
  have hready : ∀ a, Ready (sources.map fun source => (Track.ofSources source).drain.1) a
      (ofTracks (sources.map Track.ofSources) rules policy) := by
    intro a
    rw [Ready, ofTracks, List.map_map, List.forall₂_map_left_iff, List.forall₂_map_right_iff,
      List.forall₂_same]
    exact fun source _ => Cursor.ready_start (Track.ofSources source) a
  have hall := overlaid_of_ready hasc hrecords fun record _ => hready record.range.first
  refine ⟨hall, ?_, policy.selects_select⟩
  have heach := List.Forall₂.imp (fun record pieces h =>
    h.unique (overlaid_decorate hasc (hready record.range.first))) hall
  rw [← List.forall₂_eq_eq_eq, List.forall₂_map_right_iff]
  exact heach.flip

/-- A mark inside the first of two records. -/
theorem overlaid_decorateAll_pair :
    ∃ (m : Mark Flag) (record next : Record), m.span.Valid ∧ record.range.CutBy m.span.first ∧
      record.range.last < next.range.first ∧
      List.Forall₂
        (Overlaid ([[[.mark m]]].map fun source => (Track.ofSources source).drain.1)
          .privateNetwork .union) [record, next]
        ((ofTracks ([[[.mark m]]].map Track.ofSources) .privateNetwork .union).decorateAll
          [record, next]).1 := by
  let address (n : Nat) (h : n < Family.v4.size) : Address := ⟨.v4, n, h⟩
  let marked : Span := ⟨address 20 (by decide), address 30 (by decide)⟩
  let whole : Range := ⟨⟨address 10 (by decide), address 50 (by decide)⟩, by decide⟩
  let behind : Range := .single (address 51 (by decide))
  refine ⟨⟨marked, .yes⟩, ⟨whole, { span := marked }, ⟨1, "10-50"⟩⟩,
    ⟨behind, { span := marked }, ⟨2, "51"⟩⟩, by decide, by decide, by decide, ?_⟩
  exact (overlaid_decorateAll _ _ _ _ (by decide +kernel) (by simp; decide)).1

end Sweep

end IpAtlas
