import IpAtlas.Proofs.Overlay.Sweep

/-!
# A sweep from address to address

The pieces of a record are cut off its range one after the other, and what is left of a range is a
range.  Whoever has addresses only goes from one to the next.  The piece at an address ends before
the lowest change that lies behind it and inside the record; where there is no such change, or no
address before it, the piece ends with the record.  The next piece begins at the next address, if
there is one and the record goes on.  That says neither that the bounds of a piece make a range, nor
that no change is passed over, nor that there is ever a last piece.  But so it is: the same pieces
come of it.

## What is here

* `Sweep.pieceEnd`, `Sweep.turn` — one piece, by its bounds.
* `Sweep.walk` — the pieces from an address on, if they come to an end.
* `Sweep.walk_eq` — they do, and are the cuts of the record.
-/

set_option autoImplicit false

namespace IpAtlas

variable {α : Type}

namespace Range

variable {r : Range} {a : Address}

theorem CutBy.succ?_before (h : r.CutBy a) : a.before.succ? = some a :=
  Address.succ?_eq_some_iff.2 ⟨rfl, h.rank_before.symm⟩

theorem CutBy.pred?_eq (h : r.CutBy a) : a.pred? = some a.before := by
  have hpos : a.value ≠ 0 := Nat.ne_of_gt (Nat.lt_of_le_of_lt (Nat.zero_le _) h.value_lt)
  rw [Address.pred?, if_neg hpos]
  exact dif_pos a.before.value_lt

end Range

namespace Sweep

/-- Where the piece ends that begins at an address to which the sweep has advanced. -/
def pieceEnd (s : Sweep α) (pos last : Address) : Address :=
  ((lowest ((s.cursors.filterMap (Cursor.change? pos)).filter fun a => pos < a ∧ a ≤ last)).bind
    Address.pred?).getD last

/-- A piece by its bounds, with the sweep when it is handed over and the remarks made before. -/
structure Turn (α : Type) where
  span : Span
  location : Location
  line : Line
  sweep : Sweep α
  remarks : Journal

/-- A cut by the bounds of its piece. -/
def Cut.turn (cut : Cut α) : Turn α :=
  ⟨cut.piece.range.toSpan, cut.piece.location, cut.piece.line, cut.sweep, cut.remarks⟩

/-- The piece of a record that begins at an address. -/
def turn (record : Record) (s : Sweep α) (pos : Address) : Turn α :=
  let (s, remarks) := s.advance pos
  let span := ⟨pos, s.pieceEnd pos record.range.last⟩
  ⟨span, s.rules.apply record.location (s.dataAt pos) span, record.line, s, remarks⟩

/-- The pieces of a record from an address on, if there are not more than `fuel`. -/
def walk (record : Record) : (fuel : Nat) → Sweep α → Address → Option (List (Turn α))
  | 0, _, _ => none
  | fuel + 1, s, pos =>
    let turn := s.turn record pos
    match turn.span.last.succ?.filter fun _ => turn.span.last < record.range.last with
    | some next => (walk record fuel turn.sweep next).map (turn :: ·)
    | none => some [turn]

section

variable {s : Sweep α} {record : Record} {rest : Range} {a : Address}

theorem pieceEnd_of_none (h : s.nextCut rest = none) : s.pieceEnd rest.first rest.last = rest.last := by
  have hchanges : lowest (s.changes rest) = none := by
    rw [changes_of_nextCut_none h]
    rfl
  exact congrArg (fun change => (change.bind Address.pred?).getD rest.last) hchanges

theorem pieceEnd_of_some {hcut : rest.CutBy a} (h : s.nextCut rest = some ⟨a, hcut⟩) :
    s.pieceEnd rest.first rest.last = a.before := by
  have hbefore : (lowest (s.changes rest)).bind Address.pred? = some a.before := by
    rw [lowest_of_nextCut_some h]
    exact hcut.pred?_eq
  exact congrArg (fun stop => stop.getD rest.last) hbefore

variable {s' : Sweep α} {remarks : Journal}

/-- What is left of a record is its last piece if it is not cut. -/
theorem turn_of_none (hlast : rest.last = record.range.last)
    (hadvance : s.advance rest.first = (s', remarks)) (h : s'.nextCut rest = none) :
    s.turn record rest.first = Cut.turn ⟨s'.piece record rest, s', remarks⟩ := by
  rw [turn, hadvance, ← hlast]
  dsimp only
  rw [pieceEnd_of_none h]
  rfl

/-- Otherwise the next piece ends before the cut. -/
theorem turn_of_some (hlast : rest.last = record.range.last)
    (hadvance : s.advance rest.first = (s', remarks)) {hcut : rest.CutBy a}
    (h : s'.nextCut rest = some ⟨a, hcut⟩) :
    s.turn record rest.first = Cut.turn ⟨s'.piece record (rest.upTo a hcut), s', remarks⟩ := by
  rw [turn, hadvance, ← hlast]
  dsimp only
  rw [pieceEnd_of_some h]
  rfl

theorem walk_of_last {fuel : Nat} {pos : Address}
    (h : (s.turn record pos).span.last = record.range.last) :
    s.walk record (fuel + 1) pos = some [s.turn record pos] := by
  have hstop : ((s.turn record pos).span.last.succ?.filter fun _ =>
      (s.turn record pos).span.last < record.range.last) = none := by
    rw [Option.filter_eq_none_iff, h]
    exact fun _ _ => by simpa using Address.not_lt.2 (Address.le_refl _)
  rw [walk, hstop]

theorem walk_of_next {fuel : Nat} {pos next : Address}
    (hnext : (s.turn record pos).span.last.succ? = some next)
    (hlt : (s.turn record pos).span.last < record.range.last) :
    s.walk record (fuel + 1) pos =
      ((s.turn record pos).sweep.walk record fuel next).map (s.turn record pos :: ·) := by
  have hgo : ((s.turn record pos).span.last.succ?.filter fun _ =>
      (s.turn record pos).span.last < record.range.last) = some next := by
    rw [hnext, Option.filter_eq_some_iff]
    exact ⟨rfl, decide_eq_true hlt⟩
  rw [walk, hgo]

/-- **From address to address the pieces are the cuts**, and come to an end. -/
theorem walk_eq (s : Sweep α) (record : Record) {rest : Range}
    (hlast : rest.last = record.range.last) {fuel : Nat} (hfuel : rest.extent < fuel) :
    s.walk record fuel rest.first = some ((s.cutsFrom record rest).map Cut.turn) := by
  induction s, rest using cutsFrom.induct generalizing fuel with
  | case1 s rest s' remarks hadvance hnext =>
    obtain ⟨fuel, rfl⟩ := Nat.exists_eq_add_one_of_ne_zero (Nat.ne_zero_of_lt hfuel)
    have hturn := turn_of_none hlast hadvance hnext
    have hstop : (s.turn record rest.first).span.last = record.range.last := by
      rw [hturn]
      exact hlast
    rw [cutsFrom_of_none hadvance hnext, walk_of_last hstop, hturn]
    rfl
  | case2 s rest s' remarks hadvance a hcut hnext hless ih =>
    obtain ⟨fuel, rfl⟩ := Nat.exists_eq_add_one_of_ne_zero (Nat.ne_zero_of_lt hfuel)
    have hturn := turn_of_some hlast hadvance hnext
    have hgo : (s.turn record rest.first).span.last.succ? = some a := by
      rw [hturn]
      exact hcut.succ?_before
    have hbefore : (s.turn record rest.first).span.last < record.range.last := by
      rw [hturn, ← hlast]
      exact Nat.lt_of_lt_of_le (hcut.le_before_iff.1 (Address.le_refl _)) hcut.2
    have hfurther := ih hlast (Nat.lt_of_lt_of_le hless (Nat.le_of_lt_succ hfuel))
    rw [cutsFrom_of_some hadvance hnext, walk_of_next hgo hbefore, hturn]
    exact congrArg (Option.map _) hfurther

end

end Sweep

end IpAtlas
