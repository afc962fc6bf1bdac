import IpAtlas.Proofs.Overlay.Sweep

/-!
# The marks a sweep has left

Whatever a cursor went through before, all that counts of it is the list of marks it has left, the
one it is in included.  Advancing to an address passes those at the front of the list that end
before it, and what the cursor tells then is read off the first of those that remain: it covers the
address if it has begun there, and the next change is its beginning or the address behind its end.
None of this needs the marks to ascend, to bound a range, or to have begun.

So two sweeps with the same marks left at an address make the same of a record that begins there,
and a sweep that was fed a record has, at every address behind, the marks left that it had before.

## What is here

* `Cursor.marks_advance`, `Cursor.covering_advance`, `Cursor.change?_advance` — a cursor by its marks.
* `Sweep.left`, `Sweep.heldAt` — the marks that a sweep has left, and those of them at an address.
* `Sweep.Cut.Stands`, `Sweep.stands_of_mem_cutsFrom` — a piece and the marks left where it begins.
* `Sweep.Alike`, `Sweep.Alike.pieces_eq` — sweeps that make the same of the records to come.
-/

set_option autoImplicit false

namespace IpAtlas

variable {α : Type}

namespace Mark

variable {m : Mark α} {a b : Address} {r : Range}

/-- The first address behind one at which a mark begins, or at which it has just ended. -/
def turn? (a : Address) (m : Mark α) : Option Address :=
  if a < m.span.first then some m.span.first else m.span.last.succ?

/-- A range inside a mark, in the order of all addresses. -/
def Encloses (m : Mark α) (r : Range) : Prop := m.span.first ≤ r.first ∧ r.last ≤ m.span.last

/-- A range whose first address lies before one that has none behind it lies before it as a whole. -/
theorem last_le_of_succ?_eq_none (h : b.succ? = none) (hb : r.first ≤ b) : r.last ≤ b := by
  by_contra hlt
  have hlt := Address.not_le.1 hlt
  have hfamily := Address.family_eq_of_between r.valid.1 hb (Nat.le_of_lt hlt)
  exact Address.not_le.2 hlt (Address.le_of_succ?_eq_none h (r.valid.1.symm.trans hfamily.symm))

/-- A mark that has begun and not ended where a range begins encloses it up to its next turn. -/
theorem encloses_of_turn? (hfirst : m.span.first ≤ r.first) (hlast : r.first ≤ m.span.last)
    (h : ∀ b, m.turn? r.first = some b → r.last < b) : m.Encloses r := by
  refine ⟨hfirst, ?_⟩
  rw [turn?, if_neg (Address.not_lt.2 hfirst)] at h
  cases hsucc : m.span.last.succ? with
  | none => exact last_le_of_succ?_eq_none hsucc hlast
  | some b =>
    have hlt := h b hsucc
    have hrank := (Address.succ?_eq_some_iff.1 hsucc).2
    simp only [Address.le_iff_rank, Address.lt_iff_rank] at hlt ⊢
    omega

/-- The next turn of a mark that has not ended lies ahead. -/
theorem lt_of_turn? (hlast : a ≤ m.span.last) (h : m.turn? a = some b) : a < b := by
  rw [turn?] at h
  split at h
  · rename_i hfirst
    exact Option.some_inj.1 h ▸ hfirst
  · have hrank := (Address.succ?_eq_some_iff.1 h).2
    simp only [Address.le_iff_rank, Address.lt_iff_rank] at hlast ⊢
    omega

end Mark

namespace Cursor

variable {a : Address} {c : Cursor α}

/-- What a cursor holds after it has advanced: the first of the marks that are left, in its hand or
in its sight. -/
theorem advance_eq (a : Address) (c : Cursor α) :
    (c.advance a).1.marks = Mark.onwards a c.marks ∧
      (∀ m, (c.advance a).1.active = some m → (Mark.onwards a c.marks).head? = some m) ∧
      ((c.advance a).1.active = none →
        (c.advance a).1.track.ahead = (Mark.onwards a c.marks).head? ∧
          ∀ m, (Mark.onwards a c.marks).head? = some m → a < m.span.first) := by
  rw [advance]
  cases hactive : c.active.filter fun m => a ≤ m.span.last with
  | some m =>
    obtain ⟨hm, hlast⟩ := Option.filter_eq_some_iff.1 hactive
    have hmarks : c.marks = m :: c.track.marks := by
      rw [Cursor.marks, hm]
      rfl
    have hleft : Mark.onwards a c.marks = m :: c.track.marks := by
      rw [hmarks, Mark.onwards_cons_of_le (by simpa using hlast)]
    rw [hleft]
    refine ⟨rfl, fun m' h => h, fun hnone => ?_⟩
    cases hnone
  | none =>
    obtain ⟨hmarks, hmark, hahead⟩ :=
      Track.marks_lookFor (fun m => decide (a ≤ m.span.last)) c.track
    have hleft : (c.track.skipTo a).track.marks = Mark.onwards a c.marks := by
      rw [onwards_marks_of_ended hactive]
      exact hmarks
    have hnext : (c.track.skipTo a).mark = (Mark.onwards a c.marks).head? := by
      rw [← hleft]
      exact hmark
    have hseen : (c.track.skipTo a).track.ahead = (c.track.skipTo a).mark := hahead
    rw [← hnext]
    dsimp only
    cases hm : (c.track.skipTo a).mark with
    | none =>
      rw [hm] at hseen
      refine ⟨hleft, fun m h => ?_, fun _ => ⟨hseen, fun m h => ?_⟩⟩
      · cases h
      · cases h
    | some m =>
      rw [hm] at hseen
      dsimp only
      by_cases hfirst : m.span.first ≤ a
      · rw [if_pos hfirst]
        refine ⟨?_, fun m' h => h, fun hnone => ?_⟩
        · rw [← hleft, Track.marks, hseen]
          rfl
        · cases hnone
      · rw [if_neg hfirst]
        refine ⟨hleft, fun m' h => ?_, fun _ => ⟨hseen, fun m' h => ?_⟩⟩
        · cases h
        · exact Option.some_inj.1 h ▸ Address.not_le.1 hfirst

/-- **Advancing passes the marks that end before the address.** -/
theorem marks_advance (a : Address) (c : Cursor α) :
    (c.advance a).1.marks = Mark.onwards a c.marks :=
  (advance_eq a c).1

/-- The data for an address is that of the first mark left there, if it has begun. -/
theorem covering_advance (a : Address) (c : Cursor α) :
    (c.advance a).1.covering a =
      ((Mark.onwards a c.marks).head?.filter fun m => m.span.first ≤ a).map (·.data) := by
  obtain ⟨-, hsome, hnone⟩ := advance_eq a c
  rw [covering]
  cases hactive : (c.advance a).1.active with
  | some m => rw [hsome m hactive]
  | none =>
    refine congrArg _ (Eq.symm (Option.filter_eq_none_iff.2 fun m hm => ?_))
    simpa using Address.not_le.2 ((hnone hactive).2 m hm)

/-- The next change is the next turn of the first mark left. -/
theorem change?_advance (a : Address) (c : Cursor α) :
    (c.advance a).1.change? a = (Mark.onwards a c.marks).head?.bind (Mark.turn? a) := by
  obtain ⟨-, hsome, hnone⟩ := advance_eq a c
  rw [change?]
  cases hactive : (c.advance a).1.active with
  | some m =>
    rw [hsome m hactive]
    rfl
  | none =>
    obtain ⟨hahead, hbehind⟩ := hnone hactive
    rw [hahead]
    cases hhead : (Mark.onwards a c.marks).head? with
    | none => rfl
    | some m => exact (if_pos (hbehind m hhead)).symm

end Cursor

namespace Sweep

variable {a b : Address} {s s' : Sweep α} {r rest : Range} {record : Record}

/-! ## A sweep by its marks -/

/-- The marks that a sweep has left, for each of its tracks. -/
def left (s : Sweep α) : List (List (Mark α)) := s.cursors.map Cursor.marks

/-- The marks in front at an address, for each track the one that has begun there, if one has. -/
def heldAt (a : Address) (collections : List (List (Mark α))) : List (Option (Mark α)) :=
  collections.map fun marks => (Mark.onwards a marks).head?.filter fun m => m.span.first ≤ a

theorem left_advance (a : Address) (s : Sweep α) :
    (s.advance a).1.left = s.left.map (Mark.onwards a) := by
  simp only [left, advance, List.map_map]
  exact List.map_congr_left fun c _ => c.marks_advance a

theorem dataAt_advance (a : Address) (s : Sweep α) :
    (s.advance a).1.dataAt a =
      s.policy.select ((heldAt a s.left).map (Option.map Mark.data)) := by
  simp only [dataAt, advance, heldAt, left, List.map_map]
  exact congrArg _ (List.map_congr_left fun c _ => c.covering_advance a)

theorem changes_advance (r : Range) (s : Sweep α) :
    (s.advance r.first).1.changes r =
      (s.left.filterMap fun marks =>
        (Mark.onwards r.first marks).head?.bind (Mark.turn? r.first)).filter fun a => r.CutBy a := by
  simp only [changes, advance, left, List.map_map, List.filterMap_map]
  refine congrArg _ (List.filterMap_congr fun c _ => ?_)
  exact c.change?_advance r.first

/-! ## Pieces -/

/-- A cut of a record by a sweep that has certain marks left before: its piece is rewritten with the
data of the marks that have begun where it begins, and lies inside each of them. -/
structure Cut.Stands (s : Sweep α) (record : Record) (cut : Cut α) : Prop where
  left : cut.sweep.left = s.left.map (Mark.onwards cut.piece.range.first)
  rules : cut.sweep.rules = s.rules
  policy : cut.sweep.policy = s.policy
  location : cut.piece.location =
    s.rules.apply record.location
      (s.policy.select ((heldAt cut.piece.range.first s.left).map (Option.map Mark.data)))
      cut.piece.range.toSpan
  encloses : ∀ m, some m ∈ heldAt cut.piece.range.first s.left → m.Encloses cut.piece.range

theorem map_onwards_onwards (hab : a ≤ b) (collections : List (List (Mark α))) :
    (collections.map (Mark.onwards a)).map (Mark.onwards b) = collections.map (Mark.onwards b) := by
  rw [List.map_map]
  exact List.map_congr_left fun marks _ => Mark.onwards_onwards hab

theorem heldAt_onwards (hab : a ≤ b) (collections : List (List (Mark α))) :
    heldAt b (collections.map (Mark.onwards a)) = heldAt b collections := by
  rw [heldAt, List.map_map]
  refine List.map_congr_left fun marks _ => ?_
  rw [Function.comp_apply, Mark.onwards_onwards hab]

/-- The part of a range before its first change, where the sweep has advanced to its start. -/
theorem stands_advance {t : Range} (hfirst : t.first = r.first) (hlast : t.last ≤ r.last)
    (h : ∀ b ∈ (s.advance r.first).1.changes r, t.last < b) (remarks : Journal) :
    Cut.Stands s record ⟨(s.advance r.first).1.piece record t, (s.advance r.first).1, remarks⟩ := by
  refine ⟨?_, rfl, rfl, ?_, fun m hm => ?_⟩
  · rw [left_advance, ← hfirst]
    rfl
  · rw [piece, hfirst, dataAt_advance, ← hfirst]
    rfl
  · obtain ⟨marks, hmarks, hfilter⟩ := List.mem_map.1 hm
    obtain ⟨hhead, hbegun⟩ := Option.filter_eq_some_iff.1 hfilter
    have hended := Mark.le_last_of_head? hhead
    refine Mark.encloses_of_turn? (of_decide_eq_true hbegun) hended fun b hb => ?_
    have hafter := Mark.lt_of_turn? hended hb
    by_cases hin : b ≤ r.last
    · refine h b ?_
      rw [changes_advance, List.mem_filter, List.mem_filterMap, ← hfirst]
      refine ⟨⟨marks, hmarks, ?_⟩, decide_eq_true ⟨hfirst ▸ hafter, hin⟩⟩
      exact Option.bind_eq_some_iff.2 ⟨m, hhead, hb⟩
    · exact Nat.lt_of_le_of_lt hlast (Address.not_le.1 hin)

/-- What an advance has passed is not missed further on. -/
theorem Cut.Stands.of_advance {cut : Cut α} (h : Cut.Stands (s.advance a).1 record cut)
    (hbehind : a ≤ cut.piece.range.first) : Cut.Stands s record cut := by
  have hheld : heldAt cut.piece.range.first (s.advance a).1.left =
      heldAt cut.piece.range.first s.left := by
    rw [left_advance, heldAt_onwards hbehind]
  refine ⟨?_, h.rules, h.policy, ?_, fun m hm => h.encloses m (hheld ▸ hm)⟩
  · rw [h.left, left_advance, map_onwards_onwards hbehind]
  · rw [h.location, hheld]
    rfl

/-- **Every piece of a record stands for the marks left where it begins**, whatever the sweep. -/
theorem stands_of_mem_cutsFrom {cut : Cut α} (h : cut ∈ s.cutsFrom record rest) :
    cut.Stands s record := by
  induction s, rest using cutsFrom.induct with
  | case1 s rest s' remarks hadvance hnext =>
    obtain rfl : (s.advance rest.first).1 = s' := congrArg Prod.fst hadvance
    rw [cutsFrom_of_none hadvance hnext] at h
    obtain rfl := List.mem_singleton.1 h
    refine stands_advance rfl (Address.le_refl _) (fun b hb => ?_) remarks
    rw [changes_of_nextCut_none hnext] at hb
    cases hb
  | case2 s rest s' remarks hadvance a hcut hnext _ ih =>
    obtain rfl : (s.advance rest.first).1 = s' := congrArg Prod.fst hadvance
    have htiles := tiles_cutsFrom (s.advance rest.first).1 record (rest.onwards a hcut)
    rw [cutsFrom_of_some hadvance hnext] at h
    rcases List.mem_cons.1 h with rfl | h
    · refine stands_advance (Range.upTo_first hcut) (Range.within_upTo hcut).2 (fun b hb => ?_)
        remarks
      have hle := lowest_le (lowest_of_nextCut_some hnext) b hb
      exact Nat.lt_of_lt_of_le (hcut.le_before_iff.1 (Address.le_refl _)) hle
    · have hbehind : a ≤ cut.piece.range.first :=
        (htiles.within _ (List.mem_map_of_mem h)).1
      exact (ih h).of_advance (Nat.le_trans (Nat.le_of_lt hcut.1) hbehind)

/-- Whoever is handed the pieces of a record leaves the sweep as it was handed over with one. -/
theorem exists_cut_of_handOver {σ ε : Type} (receive : σ → Journal → Record → σ × Option ε)
    (state : σ) (s : Sweep α) {cuts : List (Cut α)} (h : cuts ≠ []) :
    ∃ cut ∈ cuts, (handOver receive state s cuts).2.2 = cut.sweep := by
  induction cuts generalizing state s with
  | nil => exact absurd rfl h
  | cons cut cuts ih =>
    rw [handOver]
    split
    · exact ⟨cut, List.mem_cons_self, rfl⟩
    · rename_i state' _
      by_cases hcuts : cuts = []
      · subst hcuts
        exact ⟨cut, List.mem_cons_self, rfl⟩
      · obtain ⟨last, hlast, heq⟩ := ih state' cut.sweep hcuts
        exact ⟨last, List.mem_cons_of_mem _ hlast, heq⟩

theorem exists_cut_of_decorate (s : Sweep α) (record : Record) :
    ∃ cut ∈ s.cuts record, (s.decorate record).2.1 = cut.sweep := by
  obtain ⟨front, cut, hcuts⟩ := (s.cuts record).eq_nil_or_concat.resolve_left
    (s.cuts_ne_nil record)
  refine ⟨cut, by simp [hcuts], ?_⟩
  rw [decorate, afterCuts, hcuts, List.concat_eq_append, List.getLast?_concat]
  rfl

/-! ## Sweeps that make the same of what is to come -/

/-- Sweeps with the same marks left at an address. -/
structure Alike (a : Address) (s s' : Sweep α) : Prop where
  left : s.left.map (Mark.onwards a) = s'.left.map (Mark.onwards a)
  rules : s.rules = s'.rules
  policy : s.policy = s'.policy

theorem Alike.refl (a : Address) (s : Sweep α) : Alike a s s := ⟨rfl, rfl, rfl⟩

theorem Alike.trans {s'' : Sweep α} (h : Alike a s s') (h' : Alike a s' s'') : Alike a s s'' :=
  ⟨h.left.trans h'.left, h.rules.trans h'.rules, h.policy.trans h'.policy⟩

/-- Sweeps that are alike stay so further on. -/
theorem Alike.mono (h : Alike a s s') (hab : a ≤ b) : Alike b s s' := by
  refine ⟨?_, h.rules, h.policy⟩
  rw [← map_onwards_onwards hab, h.left, map_onwards_onwards hab]

theorem Alike.advance (h : Alike a s s') : Alike a (s.advance a).1 (s'.advance a).1 := by
  refine ⟨?_, h.rules, h.policy⟩
  rw [left_advance, left_advance, h.left]

theorem Alike.dataAt_eq (h : Alike a s s') :
    (s.advance a).1.dataAt a = (s'.advance a).1.dataAt a := by
  have hheld : heldAt a s.left = heldAt a s'.left := by
    have hmap := congrArg
      (List.map fun marks => marks.head?.filter fun m : Mark α => m.span.first ≤ a) h.left
    rw [List.map_map, List.map_map] at hmap
    exact hmap
  rw [dataAt_advance, dataAt_advance, hheld, h.policy]

theorem Alike.changes_eq (h : Alike r.first s s') :
    (s.advance r.first).1.changes r = (s'.advance r.first).1.changes r := by
  have hturns := congrArg
    (List.filterMap fun marks : List (Mark α) => marks.head?.bind (Mark.turn? r.first)) h.left
  rw [List.filterMap_map, List.filterMap_map] at hturns
  rw [changes_advance, changes_advance]
  exact congrArg _ hturns

/-- Where a range is cut next depends on the changes inside it alone. -/
theorem nextCut_congr (h : s.changes r = s'.changes r) : s.nextCut r = s'.nextCut r := by
  cases hnext : s.nextCut r with
  | none =>
    cases hnext' : s'.nextCut r with
    | none => rfl
    | some cut =>
      have hlowest := lowest_of_nextCut_some hnext'
      rw [← h, changes_of_nextCut_none hnext] at hlowest
      exact nomatch hlowest
  | some cut =>
    have hlowest := lowest_of_nextCut_some hnext
    cases hnext' : s'.nextCut r with
    | none =>
      rw [h, changes_of_nextCut_none hnext'] at hlowest
      exact nomatch hlowest
    | some cut' =>
      have hlowest' := lowest_of_nextCut_some hnext'
      rw [← h, hlowest] at hlowest'
      exact congrArg some (Subtype.ext (Option.some_inj.1 hlowest'))

theorem Alike.piece_eq (h : Alike r.first s s') {t : Range} (ht : t.first = r.first) :
    (s.advance r.first).1.piece record t = (s'.advance r.first).1.piece record t := by
  have hdata := h.dataAt_eq
  have hrules : (s.advance r.first).1.rules = (s'.advance r.first).1.rules := h.rules
  rw [← ht] at hdata hrules ⊢
  rw [piece, piece, hdata, hrules]

/-- **Sweeps with the same marks left at the start of a record cut it into the same pieces.** -/
theorem Alike.pieces_eq (h : Alike rest.first s s') :
    (s.cutsFrom record rest).map (·.piece) = (s'.cutsFrom record rest).map (·.piece) := by
  induction s, rest using cutsFrom.induct generalizing s' with
  | case1 s rest t remarks hadvance hnext =>
    obtain rfl : (s.advance rest.first).1 = t := congrArg Prod.fst hadvance
    have hnext' := (nextCut_congr h.changes_eq).symm.trans hnext
    rw [cutsFrom_of_none hadvance hnext, cutsFrom_of_none (Prod.mk.eta.symm) hnext']
    exact congrArg (fun p => [p]) (h.piece_eq rfl)
  | case2 s rest t remarks hadvance a hcut hnext _ ih =>
    obtain rfl : (s.advance rest.first).1 = t := congrArg Prod.fst hadvance
    have hnext' := (nextCut_congr h.changes_eq).symm.trans hnext
    rw [cutsFrom_of_some hadvance hnext, cutsFrom_of_some (Prod.mk.eta.symm) hnext']
    rw [List.map_cons, List.map_cons, ih (h.advance.mono (Nat.le_of_lt hcut.1))]
    exact congrArg (· :: _) (h.piece_eq (Range.upTo_first hcut))

/-- **A sweep inside a record is alike to the one before the record, at every address behind.** -/
theorem alike_of_mem_cutsFrom {cut : Cut α} (h : cut ∈ s.cutsFrom record rest)
    (hb : rest.last < b) : Alike b cut.sweep s := by
  have hstands := stands_of_mem_cutsFrom h
  have hwithin := (tiles_cutsFrom s record rest).within _ (List.mem_map_of_mem h)
  have hle := Nat.le_trans cut.piece.range.first_le_last hwithin.2
  refine ⟨?_, hstands.rules, hstands.policy⟩
  rw [hstands.left, map_onwards_onwards (Nat.le_of_lt (Nat.lt_of_le_of_lt hle hb))]

end Sweep

end IpAtlas
