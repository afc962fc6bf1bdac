import IpAtlas.Lines
import Mathlib.Data.List.TakeWhile

/-!
# Both ways to read the lines of a source

Any bytes are some pieces with a line end behind each, and a last piece without one.  Sequential
reading takes them apart like this at once.  Batched reading takes apart what has arrived, hands the
finished pieces out as a batch and keeps the last one, which the next read goes on with.  So however
a source arrives, the lines of its batches, one batch after the other, are the lines of the source.

## What is here

* `ended`, `exists_ended` — bytes taken apart at their line ends.
* `finishedPieces_ended`, `unfinishedPiece_ended` — sequential reading finds the parts.
* `Batch.lines_ofData` — so does a batch.
* `batches_cons` — what one read makes a batch of.
* `Stream.flatMap_lines_batches` — the lines of all batches.
* `Stream.lines_prefix` — the lines of a source that fails.
-/

set_option autoImplicit false

namespace IpAtlas

/-! ## Pieces and line ends -/

/-- Bytes without a line end. -/
def Unbroken (bs : Bytes) : Prop := ∀ b ∈ bs, insideLine b = true

/-- Pieces with a line end behind each. -/
def ended (pieces : List Bytes) : Bytes := pieces.flatMap fun piece => piece ++ [newline]

/-- The last piece of a source, if there is one. -/
def lastPiece (last : Bytes) : List Bytes := if last = [] then [] else [last]

theorem ended_cons (piece : Bytes) (pieces : List Bytes) (rest : Bytes) :
    ended (piece :: pieces) ++ rest = piece ++ newline :: (ended pieces ++ rest) := by
  simp [ended]

theorem ended_append (front back : List Bytes) :
    ended (front ++ back) = ended front ++ ended back :=
  List.flatMap_append

theorem ended_eq_nil_iff {pieces : List Bytes} : ended pieces = [] ↔ pieces = [] := by
  cases pieces <;> simp [ended]

/-- **Any bytes are finished pieces and a last one.** -/
theorem exists_ended (bs : Bytes) :
    ∃ pieces last, (∀ piece ∈ pieces, Unbroken piece) ∧ Unbroken last ∧
      bs = ended pieces ++ last := by
  induction bs with
  | nil => exact ⟨[], [], by simp, by simp [Unbroken], rfl⟩
  | cons b bs ih =>
    obtain ⟨pieces, last, hpieces, hlast, rfl⟩ := ih
    by_cases hb : insideLine b = true
    · cases pieces with
      | nil => exact ⟨[], b :: last, by simp, List.forall_mem_cons.2 ⟨hb, hlast⟩, rfl⟩
      | cons piece pieces =>
        obtain ⟨hpiece, hpieces⟩ := List.forall_mem_cons.1 hpieces
        refine ⟨(b :: piece) :: pieces, last, ?_, hlast, ?_⟩
        · exact List.forall_mem_cons.2 ⟨List.forall_mem_cons.2 ⟨hb, hpiece⟩, hpieces⟩
        · rw [ended_cons, ended_cons]
          rfl
    · obtain rfl : b = newline := by simpa [insideLine] using hb
      refine ⟨[] :: pieces, last, ?_, hlast, (ended_cons [] pieces last).symm⟩
      exact List.forall_mem_cons.2 ⟨by simp [Unbroken], hpieces⟩

section

variable {pieces : List Bytes} {last : Bytes}

theorem finishedPieces_of_unbroken (hlast : Unbroken last) : finishedPieces last = [] := by
  have hdrop : last.dropWhile insideLine = [] := List.dropWhile_eq_nil_iff.2 hlast
  rw [finishedPieces.eq_def]
  split
  · rfl
  · rename_i heq
    rw [hdrop] at heq
    exact absurd heq.symm (List.cons_ne_nil _ _)

theorem finishedPieces_newline {piece : Bytes} (hpiece : Unbroken piece) (rest : Bytes) :
    finishedPieces (piece ++ newline :: rest) = piece :: finishedPieces rest := by
  have hdrop : (piece ++ newline :: rest).dropWhile insideLine = newline :: rest := by
    rw [List.dropWhile_append_of_pos hpiece, List.dropWhile_cons_of_neg (by simp [insideLine])]
  have htake : (piece ++ newline :: rest).takeWhile insideLine = piece := by
    rw [List.takeWhile_append_of_pos hpiece, List.takeWhile_cons_of_neg (by simp [insideLine]),
      List.append_nil]
  rw [finishedPieces.eq_def]
  split
  · rename_i heq
    rw [hdrop] at heq
    exact absurd heq (List.cons_ne_nil _ _)
  · rename_i heq
    rw [hdrop] at heq
    obtain ⟨-, rfl⟩ := List.cons.inj heq
    rw [htake]

/-- Sequential reading finds the finished pieces. -/
theorem finishedPieces_ended (hpieces : ∀ piece ∈ pieces, Unbroken piece) (hlast : Unbroken last) :
    finishedPieces (ended pieces ++ last) = pieces := by
  induction pieces with
  | nil => exact finishedPieces_of_unbroken hlast
  | cons piece pieces ih =>
    obtain ⟨hpiece, hpieces⟩ := List.forall_mem_cons.1 hpieces
    rw [ended_cons, finishedPieces_newline hpiece, ih hpieces]

/-- And it finds what follows them. -/
theorem unfinishedPiece_ended (pieces : List Bytes) (hlast : Unbroken last) :
    unfinishedPiece (ended pieces ++ last) = last := by
  have hlast' : ∀ b ∈ last.reverse, insideLine b = true := fun b hb =>
    hlast b (List.mem_reverse.1 hb)
  have hnone : (ended pieces).reverse.takeWhile insideLine = [] := by
    rcases pieces.eq_nil_or_concat with rfl | ⟨front, piece, rfl⟩
    · rfl
    · rw [List.concat_eq_append, ended_append]
      simp [ended, insideLine]
  rw [unfinishedPiece, List.reverse_append, List.takeWhile_append_of_pos hlast', hnone,
    List.append_nil, List.reverse_reverse]

/-! ## Batches -/

/-- The places of the line ends in data, when `start` bytes stand before it. -/
def placesFrom (start : Nat) (data : Bytes) : List Nat :=
  ((data.zipIdx start).filter fun e => e.1 == newline).map (·.2)

theorem placesFrom_of_unbroken (start : Nat) (hlast : Unbroken last) :
    placesFrom start last = [] := by
  rw [placesFrom, List.map_eq_nil_iff, List.filter_eq_nil_iff]
  intro e he
  have hb := hlast e.1 (List.fst_mem_of_mem_zipIdx he)
  simpa [insideLine] using hb

theorem placesFrom_newline {piece : Bytes} (start : Nat) (hpiece : Unbroken piece) (rest : Bytes) :
    placesFrom start (piece ++ newline :: rest) =
      (start + piece.length) :: placesFrom (start + piece.length + 1) rest := by
  have hnone := placesFrom_of_unbroken start hpiece
  rw [placesFrom, List.map_eq_nil_iff] at hnone
  rw [placesFrom, List.zipIdx_append, List.filter_append, hnone, List.zipIdx_cons,
    List.filter_cons_of_pos (by simp)]
  rfl

theorem piecesAt_ended (start : Nat) (hpieces : ∀ piece ∈ pieces, Unbroken piece)
    (hlast : Unbroken last) :
    Batch.piecesAt start (ended pieces ++ last) (placesFrom start (ended pieces ++ last)) =
      pieces ++ lastPiece last := by
  induction pieces generalizing start with
  | nil =>
    rw [show ended [] ++ last = last from rfl, placesFrom_of_unbroken start hlast, Batch.piecesAt,
      lastPiece]
    simp
  | cons piece pieces ih =>
    obtain ⟨hpiece, hpieces⟩ := List.forall_mem_cons.1 hpieces
    rw [ended_cons, placesFrom_newline start hpiece, Batch.piecesAt, Nat.add_sub_cancel_left,
      List.take_left, Nat.add_assoc, Nat.add_sub_cancel_left, ← List.drop_drop, List.drop_left,
      List.drop_one, List.tail_cons, ih _ hpieces]
    rfl

theorem length_placesFrom_ended (start : Nat) (hpieces : ∀ piece ∈ pieces, Unbroken piece) :
    (placesFrom start (ended pieces)).length = pieces.length := by
  induction pieces generalizing start with
  | nil => rfl
  | cons piece pieces ih =>
    obtain ⟨hpiece, hpieces⟩ := List.forall_mem_cons.1 hpieces
    have hcons := ended_cons piece pieces []
    rw [List.append_nil, List.append_nil] at hcons
    rw [hcons, placesFrom_newline start hpiece, List.length_cons, ih _ hpieces, List.length_cons]

/-- **A batch has the lines of the pieces that its data consists of.** -/
theorem Batch.lines_ofData (first : Nat) (hpieces : ∀ piece ∈ pieces, Unbroken piece)
    (hlast : Unbroken last) :
    (Batch.ofData first (ended pieces ++ last)).lines =
      linesFrom first (pieces ++ lastPiece last) := by
  rw [lines]
  exact congrArg (linesFrom first) (piecesAt_ended 0 hpieces hlast)

theorem linesFrom_append (first : Nat) (front back : List Bytes) :
    linesFrom first (front ++ back) =
      linesFrom first front ++ linesFrom (first + front.length) back := by
  rw [linesFrom, List.zipIdx_append, List.filterMap_append]
  rfl

end

/-! ## Whole sources -/

/-- The pieces of bytes: the finished ones, and the last one if nothing was lost behind it. -/
def piecesOf (endsWell : Bool) (bs : Bytes) : List Bytes :=
  finishedPieces bs ++ if endsWell then lastPiece (unfinishedPiece bs) else []

theorem piecesOf_ended {pieces : List Bytes} {last : Bytes} (endsWell : Bool)
    (hpieces : ∀ piece ∈ pieces, Unbroken piece) (hlast : Unbroken last) :
    piecesOf endsWell (ended pieces ++ last) =
      pieces ++ if endsWell then lastPiece last else [] := by
  rw [piecesOf, finishedPieces_ended hpieces hlast, unfinishedPiece_ended pieces hlast]

theorem piecesOf_ended_append {pieces : List Bytes} (endsWell : Bool)
    (hpieces : ∀ piece ∈ pieces, Unbroken piece) (rest : Bytes) :
    piecesOf endsWell (ended pieces ++ rest) = pieces ++ piecesOf endsWell rest := by
  obtain ⟨more, last, hmore, hlast, rfl⟩ := exists_ended rest
  have hall : ∀ piece ∈ pieces ++ more, Unbroken piece := List.forall_mem_append.2 ⟨hpieces, hmore⟩
  rw [← List.append_assoc, ← ended_append, piecesOf_ended endsWell hall hlast,
    piecesOf_ended endsWell hmore hlast, List.append_assoc]

/-- **One read**: the pieces that are finished when it has arrived become a batch, if there are any,
and the last one waits. -/
theorem batches_cons {pieces : List Bytes} {waiting read last : Bytes} (first : Nat)
    (endsWell : Bool) (reads : List Bytes) (hpieces : ∀ piece ∈ pieces, Unbroken piece)
    (hlast : Unbroken last) (harrived : waiting ++ read = ended pieces ++ last) :
    batches first waiting endsWell (read :: reads) =
      if pieces = [] then batches first last endsWell reads
      else .ofData first (ended pieces) ::
        batches (first + pieces.length) last endsWell reads := by
  have hwhole : (ended pieces ++ last).take ((ended pieces ++ last).length - last.length) =
      ended pieces := by
    rw [List.length_append, Nat.add_sub_cancel, List.take_left]
  have hcount : (Batch.ofData first (ended pieces)).newlines.length = pieces.length :=
    length_placesFrom_ended 0 hpieces
  rw [batches, harrived, unfinishedPiece_ended pieces hlast, hwhole]
  by_cases hnil : pieces = []
  · subst hnil
    rfl
  · rw [if_neg (ended_eq_nil_iff.not.2 hnil), if_neg hnil]
    dsimp only
    rw [hcount]

theorem flatMap_lines_batches (endsWell : Bool) (reads : List Bytes) (first : Nat) {waiting : Bytes}
    (hwaiting : Unbroken waiting) :
    (batches first waiting endsWell reads).flatMap Batch.lines =
      linesFrom first (piecesOf endsWell (waiting ++ reads.flatten)) := by
  induction reads generalizing first waiting with
  | nil =>
    have hnone : ∀ piece ∈ ([] : List Bytes), Unbroken piece := fun _ h => nomatch h
    have hpieces := piecesOf_ended endsWell hnone hwaiting
    have hlines := Batch.lines_ofData first hnone hwaiting
    rw [show ended [] ++ waiting = waiting from rfl] at hpieces hlines
    rw [batches, List.flatten_nil, List.append_nil, hpieces]
    cases endsWell with
    | false => simp [linesFrom]
    | true =>
      by_cases hnil : waiting = []
      · simp [hnil, lastPiece, linesFrom]
      · simpa [hnil] using hlines
  | cons read reads ih =>
    obtain ⟨pieces, last, hpieces, hlast, harrived⟩ := exists_ended (waiting ++ read)
    have hrest : waiting ++ (read :: reads).flatten = ended pieces ++ (last ++ reads.flatten) := by
      rw [List.flatten_cons, ← List.append_assoc, harrived, List.append_assoc]
    rw [batches_cons first endsWell reads hpieces hlast harrived, hrest,
      piecesOf_ended_append endsWell hpieces]
    by_cases hnil : pieces = []
    · subst hnil
      exact ih first hlast
    · have hempty : Unbroken [] := by simp [Unbroken]
      have hlines := Batch.lines_ofData first hpieces hempty
      rw [List.append_nil, lastPiece, if_pos rfl, List.append_nil] at hlines
      rw [if_neg hnil, List.flatMap_cons, hlines, ih _ hlast, ← linesFrom_append]

theorem Stream.pieces_eq (s : Stream) : s.pieces = piecesOf s.fault.isNone s.bytes := by
  rw [Stream.pieces, piecesOf, lastPiece]
  cases s.fault.isNone <;> simp

/-- **However a source arrives, its batches have its lines**, in their order. -/
theorem Stream.flatMap_lines_batches (s : Stream) {reads : List Bytes}
    (hreads : reads.flatten = s.bytes) :
    (IpAtlas.batches 1 [] s.fault.isNone reads).flatMap Batch.lines = s.lines := by
  rw [IpAtlas.flatMap_lines_batches s.fault.isNone reads 1 (by simp [Unbroken]), List.nil_append,
    hreads, Stream.lines, Stream.pieces_eq]

/-- **A source that fails has the first lines of one that goes on.** -/
theorem Stream.lines_prefix {s s' : Stream} (hfault : s.fault.isSome) (hbytes : s.bytes <+: s'.bytes) :
    s.lines <+: s'.lines := by
  obtain ⟨more, hmore⟩ := hbytes
  obtain ⟨pieces, last, hpieces, hlast, hsplit⟩ := exists_ended s.bytes
  have hends : s.fault.isNone = false := Option.isNone_eq_false_iff.2 hfault
  have hfront : s.pieces = pieces := by
    rw [Stream.pieces_eq, hends, hsplit, piecesOf_ended false hpieces hlast]
    exact List.append_nil pieces
  have hall : s'.pieces = pieces ++ piecesOf s'.fault.isNone (last ++ more) := by
    rw [Stream.pieces_eq, ← hmore, hsplit, List.append_assoc, piecesOf_ended_append _ hpieces]
  rw [Stream.lines, Stream.lines, hfront, hall, linesFrom_append]
  exact List.prefix_append _ _

theorem flatten_readsOf (size : Nat) (bs : Bytes) : (readsOf size bs).flatten = bs := by
  induction bs using readsOf.induct size with
  | case1 => simp [readsOf]
  | case2 b rest ih =>
    rw [readsOf, List.flatten_cons, ih, List.cons_append, List.take_append_drop]

end IpAtlas
