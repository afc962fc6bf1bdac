import IpAtlas.Overlay.Sweep
import IpAtlas.Proofs.Overlay.Marks
import IpAtlas.Proofs.Overlay.Merge

/-!
# Reading tracks

A track keeps marks only that start after the end of the last one kept, so the marks of a track
ascend.  Reading a track up to an address leaves the marks that do not end before it.  A cursor that
has advanced to an address therefore holds the mark that covers it and sees the next one, whatever
addresses it has advanced to before, as long as none of them lies behind.

## What is here

* `Track.marks`, `Track.ascending_ofSources` — the marks left of a track.
* `Track.marks_lookFor` — what passing over marks leaves.
* `Cursor.Ready`, `Cursor.At` — a cursor before it advances to an address, and after.
* `Cursor.Ready.at_advance`, `Cursor.At.ready` — from the one to the other, and on to the next.
* `Cursor.At.covering_eq`, `Cursor.At.change?_eq` — what a cursor tells.
-/

set_option autoImplicit false

namespace IpAtlas

variable {α : Type}

namespace Track

/-! ## The marks of a merge -/

/-- The marks that are left of a track. -/
def marks (t : Track α) : List (Mark α) := t.ahead.toList ++ keptOf t.events

/-- The marks of a track are those that its merge keeps. -/
theorem marks_ofSources (sources : List (List (Item α))) :
    (ofSources sources).marks = keep none (takenOf (merge none sources)) :=
  (takes_merge none sources).2

/-- **The marks of a track ascend.** -/
theorem ascending_ofSources {sources : List (List (Item α))}
    (hvalid : ∀ m ∈ (ofSources sources).marks, m.span.Valid) :
    Span.Ascending ((ofSources sources).marks.map Mark.span) := by
  rw [marks_ofSources] at hvalid ⊢
  exact (ascending_keep hvalid).1

/-! ## Moves -/

section

variable (wanted : Mark α → Bool)

theorem pull_eq (dropped : Nat) (events : List (Event α)) :
    (pull wanted dropped events).mark = ((keptOf events).dropWhile fun m => !wanted m).head? ∧
      (pull wanted dropped events).mark.toList ++ keptOf (pull wanted dropped events).track.events =
        (keptOf events).dropWhile fun m => !wanted m := by
  induction events generalizing dropped with
  | nil => exact ⟨rfl, rfl⟩
  | cons event events ih =>
    cases event with
    | kept m =>
      have hkept : keptOf (.kept m :: events) = m :: keptOf events := rfl
      rw [hkept, pull, List.dropWhile_cons]
      cases hm : wanted m with
      | true => exact ⟨rfl, rfl⟩
      | false => exact ih dropped
    | dropped m last => exact ih (dropped + 1)
    | remark r => exact ih dropped

/-- **Passing over the marks that are not wanted leaves the rest**, the first of them in sight. -/
theorem marks_lookFor (t : Track α) :
    (t.lookFor wanted).track.marks = t.marks.dropWhile (fun m => !wanted m) ∧
      (t.lookFor wanted).mark = (t.lookFor wanted).track.marks.head? ∧
      (t.lookFor wanted).track.ahead = (t.lookFor wanted).mark := by
  obtain ⟨hmark, hmarks⟩ := pull_eq wanted t.dropped t.events
  have hpulled : ∀ front : List (Mark α), (∀ m ∈ front, wanted m = false) →
      (front ++ keptOf t.events).dropWhile (fun m => !wanted m) =
        (keptOf t.events).dropWhile fun m => !wanted m := fun front hfront =>
    List.dropWhile_append_of_pos fun m hm => by rw [hfront m hm]; rfl
  rw [lookFor]
  cases hahead : t.ahead with
  | none =>
    rw [if_neg (by simp), marks, marks, hahead]
    refine ⟨hmarks, ?_, rfl⟩
    rw [hmarks]
    exact hmark
  | some m =>
    cases hm : wanted m with
    | true =>
      rw [if_pos (by simpa using hm), marks, hahead]
      refine ⟨?_, rfl, rfl⟩
      rw [Option.toList_some, List.singleton_append, List.dropWhile_cons, hm]
      rfl
    | false =>
      rw [if_neg (by simp [hm]), marks, marks, hahead, hpulled _ (by simpa using hm)]
      refine ⟨hmarks, ?_, rfl⟩
      rw [hmarks]
      exact hmark

end

end Track

namespace Cursor

/-- The marks that are left of a cursor, that of the sweep included. -/
def marks (c : Cursor α) : List (Mark α) := c.active.toList ++ c.track.marks

/-- A cursor over some marks that may advance to an address: of the marks not left there it has
passed none, and the mark it is in has begun. -/
structure Ready (marks : List (Mark α)) (a : Address) (c : Cursor α) : Prop where
  left : Mark.onwards a c.marks = Mark.onwards a marks
  begun : ∀ m, c.active = some m → m.span.first ≤ a

/-- A cursor over some marks at an address: it holds the mark that covers the address, and sees the
next if there is none. -/
structure At (marks : List (Mark α)) (a : Address) (c : Cursor α) : Prop where
  left : c.marks = Mark.onwards a marks
  active : c.active = Mark.at? marks a
  ahead : c.active = none → c.track.ahead = c.marks.head?

section

variable {marks : List (Mark α)} {a b : Address} {c : Cursor α}

theorem ready_start (t : Track α) (a : Address) : Ready t.marks a { track := t } :=
  ⟨rfl, fun _ h => nomatch h⟩

/-- From an address a cursor may advance to any that does not lie behind. -/
theorem At.ready (h : At marks a c) (hab : a ≤ b) : Ready marks b c where
  left := by rw [h.left, Mark.onwards_onwards hab]
  begun m hm := by
    rw [h.active] at hm
    exact Nat.le_trans (Mark.contains_of_at? hm).1 hab

theorem onwards_marks_of_ended (h : c.active.filter (fun m => a ≤ m.span.last) = none) :
    Mark.onwards a c.marks = Mark.onwards a c.track.marks := by
  rw [Option.filter_eq_none_iff] at h
  rw [Cursor.marks]
  cases hactive : c.active with
  | none => rfl
  | some m =>
    have hlt := Address.not_le.1 (by simpa using h m hactive)
    exact Mark.onwards_cons_of_lt hlt

/-- A mark that does not end before the address is the one that the cursor is in. -/
theorem Ready.at_of_active (hasc : Span.Ascending (marks.map Mark.span)) (h : Ready marks a c)
    {m : Mark α} (hactive : c.active.filter (fun m => a ≤ m.span.last) = some m) :
    At marks a { c with active := some m } := by
  obtain ⟨hm, hlast⟩ := Option.filter_eq_some_iff.1 hactive
  have hmarks : c.marks = m :: c.track.marks := by
    rw [Cursor.marks, hm]
    rfl
  have hleft : c.marks = Mark.onwards a marks := by
    rw [← h.left, hmarks, Mark.onwards_cons_of_le (by simpa using hlast)]
  refine ⟨?_, ?_, fun hnone => nomatch hnone⟩
  · rw [← hleft, hmarks]
    rfl
  · rw [Mark.at?_eq_head? hasc a, ← hleft, hmarks, List.head?_cons,
      Option.filter_some_pos (by simpa using h.begun m hm)]

/-- **A cursor that advances to an address is there.** -/
theorem Ready.at_advance (hasc : Span.Ascending (marks.map Mark.span)) (h : Ready marks a c) :
    At marks a (c.advance a).1 := by
  have hat := Mark.at?_eq_head? hasc a
  rw [advance]
  cases hactive : c.active.filter fun m => a ≤ m.span.last with
  | some m => exact h.at_of_active hasc hactive
  | none =>
    obtain ⟨hmarks, hmark, hahead⟩ :=
      Track.marks_lookFor (fun m => decide (a ≤ m.span.last)) c.track
    have hleft : (c.track.skipTo a).track.marks = Mark.onwards a marks := by
      rw [← h.left, onwards_marks_of_ended hactive]
      exact hmarks
    have hnext : (c.track.skipTo a).mark = (Mark.onwards a marks).head? := by
      rw [← hleft]
      exact hmark
    have hseen : (c.track.skipTo a).track.ahead = (c.track.skipTo a).mark := hahead
    rw [← hnext] at hat
    dsimp only
    cases hm : (c.track.skipTo a).mark with
    | none =>
      rw [hm] at hat
      refine ⟨hleft, hat.symm, fun _ => ?_⟩
      rw [hseen]
      exact hmark
    | some m =>
      rw [hm] at hat hseen
      dsimp only
      by_cases hfirst : m.span.first ≤ a
      · rw [if_pos hfirst]
        rw [Option.filter_some_pos (by simpa using hfirst)] at hat
        refine ⟨?_, hat.symm, fun hnone => nomatch hnone⟩
        rw [← hleft, Track.marks, hseen]
        rfl
      · rw [if_neg hfirst]
        rw [Option.filter_some_neg (by simpa using hfirst)] at hat
        refine ⟨hleft, hat.symm, fun _ => ?_⟩
        rw [hseen, ← hm]
        exact hmark

/-- The data of the cursor is that of the mark that covers the address. -/
theorem At.covering_eq (h : At marks a c) :
    c.covering a = (Mark.at? marks a).map (·.data) := by
  rw [covering, h.active]
  cases hm : Mark.at? marks a with
  | none => rfl
  | some m =>
    have hfirst := (Mark.contains_of_at? hm).1
    rw [Option.filter_some_pos (by simpa using hfirst)]

theorem At.change?_eq (h : At marks a c) : c.change? a = Mark.change? marks a := by
  rw [change?, Mark.change?, ← h.left]
  cases hm : Mark.at? marks a with
  | none =>
    rw [h.active, hm, h.ahead (h.active.trans hm)]
  | some m =>
    have hfirst := (Mark.contains_of_at? hm).1
    rw [h.active, hm]
    exact if_neg (Nat.not_lt.2 hfirst)

end

end Cursor

end IpAtlas
