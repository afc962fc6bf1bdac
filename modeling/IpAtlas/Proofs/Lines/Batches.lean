import IpAtlas.Proofs.Lines
import IpAtlas.Proofs.Utf8

/-!
# Nothing is lost between batches

A source is cut into batches where its reads happen to end, and a read ends anywhere: in the middle
of a line, between a carriage return and the line end behind it, inside a character or inside a byte
order mark.  What has arrived and is not in a batch yet is always one piece without a line end, and
with that invariant every batch is some whole pieces, so that where the cuts fall does not show: not
in the bytes, not in the numbers and not in the lines.

The lines are told twice.  They are what cutting the bytes at every line end gives, numbered from
one, and what a numbered piece gives is told by the bytes that count of it.

## What is here

* `mem_placesFrom_iff`, `ascending_placesFrom` — the line ends of a batch are all there are.
* `flatMap_data_batches`, `stands_of_batches` — the bytes of all batches, and one among the others.
* `Stream.lines_eq` — the lines of a source are those of its segments.
* `Line.Body`, `Line.ofPiece?_eq_some_iff` — what a piece gives.
* `lossless_batches` — all of it together.
-/

set_option autoImplicit false

namespace IpAtlas

/-! ## The line ends of a batch -/

theorem mem_placesFrom_iff {data : Bytes} {i : Nat} :
    i ∈ placesFrom 0 data ↔ data[i]? = some newline := by
  rw [placesFrom, List.mem_map]
  constructor
  · rintro ⟨e, he, rfl⟩
    obtain ⟨hmem, hb⟩ := List.mem_filter.1 he
    rw [← eq_of_beq hb]
    exact List.mem_zipIdx_iff_getElem?.1 hmem
  · intro h
    exact ⟨(newline, i), List.mem_filter.2 ⟨List.mem_zipIdx_iff_getElem?.2 h, by simp⟩, rfl⟩

theorem ascending_placesFrom (start : Nat) (data : Bytes) :
    (placesFrom start data).Pairwise (· < ·) := by
  have hall : ((data.zipIdx start).map Prod.snd).Pairwise (· < ·) := by
    rw [List.zipIdx_map_snd]
    exact List.pairwise_lt_range'
  exact hall.sublist (List.filter_sublist.map Prod.snd)

theorem length_placesFrom (start : Nat) (data : Bytes) :
    (placesFrom start data).length = data.count newline := by
  have hfst : data.count newline = ((data.zipIdx start).map Prod.fst).count newline := by
    rw [List.zipIdx_map_fst]
  rw [placesFrom, List.length_map, ← List.countP_eq_length_filter, hfst, List.count_eq_countP,
    List.countP_map]
  rfl

/-! ## A batch among the others -/

/-- Where a batch stands between those before it and those after it. -/
structure Batch.Stands (front : List Batch) (b : Batch) (back : List Batch) : Prop where
  ne_nil : b.data ≠ []
  /-- Only the last batch may lack a line end at its end. -/
  ends : back ≠ [] → b.data.getLast? = some newline
  /-- Its first piece is numbered on from the line ends of all batches before. -/
  first_eq : b.first = 1 + (front.flatMap Batch.data).count newline
  ascending : b.newlines.Pairwise (· < ·)
  mem_newlines : ∀ i, i ∈ b.newlines ↔ b.data[i]? = some newline

theorem count_ended {pieces : List Bytes} (hpieces : ∀ piece ∈ pieces, Unbroken piece) :
    (ended pieces).count newline = pieces.length := by
  rw [← length_placesFrom 0, length_placesFrom_ended 0 hpieces]

theorem getLast?_ended {pieces : List Bytes} (h : pieces ≠ []) :
    (ended pieces).getLast? = some newline := by
  obtain ⟨front, piece, rfl⟩ := List.eq_nil_or_concat' pieces |>.resolve_left h
  rw [ended_append, List.getLast?_append]
  simp [ended]

/-- The batches of a source that ends well have its bytes. -/
theorem flatMap_data_batches (first : Nat) {waiting : Bytes} (hwaiting : Unbroken waiting)
    (reads : List Bytes) :
    (batches first waiting true reads).flatMap Batch.data = waiting ++ reads.flatten := by
  induction reads generalizing first waiting with
  | nil =>
    rw [batches]
    by_cases hnil : waiting = []
    · simp [hnil]
    · simp [hnil, Batch.ofData]
  | cons read reads ih =>
    obtain ⟨pieces, last, hpieces, hlast, harrived⟩ := exists_ended (waiting ++ read)
    have hrest : waiting ++ (read :: reads).flatten = ended pieces ++ (last ++ reads.flatten) := by
      rw [List.flatten_cons, ← List.append_assoc, harrived, List.append_assoc]
    rw [batches_cons first true reads hpieces hlast harrived, hrest]
    by_cases hnil : pieces = []
    · subst hnil
      exact ih first hlast
    · rw [if_neg hnil, List.flatMap_cons, ih _ hlast]
      rfl

/-- Every batch is made of its data, ends with a line end unless it is the last, and is numbered on
from those before it. -/
theorem eq_ofData_of_batches (endsWell : Bool) (reads : List Bytes) (first : Nat) {waiting : Bytes}
    (hwaiting : Unbroken waiting) {front : List Batch} {b : Batch} {back : List Batch}
    (h : batches first waiting endsWell reads = front ++ b :: back) :
    b = .ofData (first + (front.flatMap Batch.data).count newline) b.data ∧ b.data ≠ [] ∧
      (back ≠ [] → b.data.getLast? = some newline) := by
  induction reads generalizing first waiting front with
  | nil =>
    rw [batches] at h
    split at h
    · rename_i hlast
      cases front with
      | nil =>
        obtain ⟨rfl, rfl⟩ := List.cons.inj h
        exact ⟨rfl, hlast.2, fun hback => absurd rfl hback⟩
      | cons b' front =>
        exact absurd (List.cons.inj h).2.symm (List.append_ne_nil_of_right_ne_nil _ (by simp))
    · exact absurd h.symm (List.append_ne_nil_of_right_ne_nil _ (by simp))
  | cons read reads ih =>
    obtain ⟨pieces, last, hpieces, hlast, harrived⟩ := exists_ended (waiting ++ read)
    rw [batches_cons first endsWell reads hpieces hlast harrived] at h
    by_cases hnil : pieces = []
    · rw [if_pos hnil] at h
      exact ih first hlast h
    rw [if_neg hnil] at h
    cases front with
    | nil =>
      obtain ⟨rfl, -⟩ := List.cons.inj h
      exact ⟨rfl, ended_eq_nil_iff.not.2 hnil, fun _ => getLast?_ended hnil⟩
    | cons b' front =>
      obtain ⟨rfl, hback⟩ := List.cons.inj h
      obtain ⟨hb, hrest⟩ := ih _ hlast hback
      refine ⟨?_, hrest⟩
      have hcount : (Batch.ofData first (ended pieces)).data.count newline = pieces.length :=
        count_ended hpieces
      rw [List.flatMap_cons, List.count_append, hcount, ← Nat.add_assoc]
      exact hb

/-- **A batch among the others**: where its line ends are, and the number of its first piece. -/
theorem stands_of_batches (endsWell : Bool) (reads : List Bytes) {front : List Batch} {b : Batch}
    {back : List Batch} (h : batches 1 [] endsWell reads = front ++ b :: back) :
    b.Stands front back := by
  have hempty : Unbroken [] := by simp [Unbroken]
  obtain ⟨hb, hne, hends⟩ := eq_ofData_of_batches endsWell reads 1 hempty h
  have hnewlines : b.newlines = placesFrom 0 b.data := congrArg Batch.newlines hb
  refine ⟨hne, hends, congrArg Batch.first hb, ?_, fun i => ?_⟩
  · rw [hnewlines]
    exact ascending_placesFrom 0 b.data
  · rw [hnewlines, mem_placesFrom_iff]

/-! ## Segments -/

theorem splitOn_ended {pieces : List Bytes} {last : Bytes}
    (hpieces : ∀ piece ∈ pieces, Unbroken piece) (hlast : Unbroken last) :
    (ended pieces ++ last).splitOn newline = pieces ++ [last] := by
  have hnot : ∀ {piece : Bytes}, Unbroken piece → newline ∉ piece := fun hpiece hmem => by
    simpa [insideLine] using hpiece newline hmem
  induction pieces with
  | nil => exact List.splitOn_eq_singleton (hnot hlast)
  | cons piece pieces ih =>
    obtain ⟨hpiece, hpieces⟩ := List.forall_mem_cons.1 hpieces
    rw [ended_cons, List.splitOn_append_cons_self_of_not_mem (hnot hpiece), ih hpieces]
    rfl

theorem Line.ofPiece?_nil (number : Nat) : Line.ofPiece? number [] = none := by
  simp [Line.ofPiece?, dropReturn, dropByteOrderMark]

/-- **The lines of a source** are those of the segments between its line ends, numbered from one.
What follows a line end at the end of the source is a segment without a line. -/
theorem Stream.lines_eq (bs : Bytes) :
    Stream.lines ⟨bs, none⟩ =
      ((bs.splitOn newline).zipIdx 1).filterMap fun (segment, number) =>
        Line.ofPiece? number segment := by
  obtain ⟨pieces, last, hpieces, hlast, rfl⟩ := exists_ended bs
  have hlines : Stream.lines ⟨ended pieces ++ last, none⟩ =
      linesFrom 1 (pieces ++ lastPiece last) := by
    rw [Stream.lines, Stream.pieces, finishedPieces_ended hpieces hlast,
      unfinishedPiece_ended pieces hlast, lastPiece]
    simp
  rw [hlines, splitOn_ended hpieces hlast]
  show _ = linesFrom 1 (pieces ++ [last])
  rw [linesFrom_append, linesFrom_append, lastPiece]
  split_ifs with hnil
  · subst hnil
    simp [linesFrom, Line.ofPiece?_nil]
  · rfl

/-! ## What a piece gives -/

/-- The bytes that count of a numbered piece: without one carriage return at the end and, on the
first line only, without a byte order mark in front. -/
def Line.Body (number : Nat) (piece body : Bytes) : Prop :=
  ∃ cut, (piece = cut ++ [0x0D] ∨ piece = cut ∧ ¬ [0x0D] <:+ piece) ∧
    (number = 1 ∧ cut = [0xEF, 0xBB, 0xBF] ++ body ∨
      cut = body ∧ ¬ (number = 1 ∧ [0xEF, 0xBB, 0xBF] <+: cut))

theorem dropReturn_eq_iff {piece cut : Bytes} :
    dropReturn piece = cut ↔ piece = cut ++ [0x0D] ∨ piece = cut ∧ ¬ [0x0D] <:+ piece := by
  by_cases hreturn : [0x0D] <:+ piece
  · obtain ⟨front, rfl⟩ := hreturn
    rw [dropReturn, if_pos (by simp), List.dropLast_concat, List.append_left_inj]
    exact ⟨Or.inl, fun h => h.resolve_right fun hnot => hnot.2 (List.suffix_append _ _)⟩
  · have hlast : ¬ piece.getLast? = some 0x0D := by
      rw [List.getLast?_eq_some_iff]
      rintro ⟨front, rfl⟩
      exact hreturn (List.suffix_append _ _)
    rw [dropReturn, if_neg hlast]
    refine ⟨fun h => Or.inr ⟨h, hreturn⟩, ?_⟩
    rintro (rfl | ⟨rfl, -⟩)
    · exact absurd (List.suffix_append _ _) hreturn
    · rfl

theorem dropByteOrderMark_eq_iff {cut body : Bytes} :
    dropByteOrderMark cut = body ↔
      cut = [0xEF, 0xBB, 0xBF] ++ body ∨ cut = body ∧ ¬ [0xEF, 0xBB, 0xBF] <+: cut := by
  by_cases hmark : [0xEF, 0xBB, 0xBF] <+: cut
  · obtain ⟨rest, rfl⟩ := hmark
    show rest = body ↔ _
    rw [List.append_right_inj]
    exact ⟨Or.inl, fun h => h.resolve_right fun hnot => hnot.2 (List.prefix_append _ _)⟩
  · have hsame : dropByteOrderMark cut = cut := by
      rw [dropByteOrderMark.eq_def]
      split
      · rename_i rest
        exact absurd (List.prefix_append [0xEF, 0xBB, 0xBF] rest) hmark
      · rfl
    rw [hsame]
    refine ⟨fun h => Or.inr ⟨h, hmark⟩, ?_⟩
    rintro (rfl | ⟨rfl, -⟩)
    · exact absurd (List.prefix_append _ _) hmark
    · rfl

theorem Line.body_iff {number : Nat} {piece body : Bytes} :
    Line.Body number piece body ↔
      (if number = 1 then dropByteOrderMark (dropReturn piece) else dropReturn piece) = body := by
  simp only [Line.Body, ← dropReturn_eq_iff, exists_eq_left']
  by_cases hone : number = 1
  · simp only [hone, true_and, if_pos, dropByteOrderMark_eq_iff]
  · simp only [hone, false_and, false_or, not_false_eq_true, and_true, if_neg]

/-- **The line of a piece** has its number, and its text is read from the bytes that count, which
are more than blanks. -/
theorem Line.ofPiece?_eq_some_iff {number : Nat} {piece : Bytes} {line : Line} :
    Line.ofPiece? number piece = some line ↔
      line.number = number ∧ ∃ body, Line.Body number piece body ∧
        (∃ b ∈ body, isAsciiBlank b = false) ∧ Utf8.Lossy body line.text.toList := by
  simp only [Line.body_iff, exists_eq_left', Utf8.lossy_iff, String.toList_inj]
  rw [Line.ofPiece?]
  generalize (if number = 1 then dropByteOrderMark (dropReturn piece) else dropReturn piece) = body
  have hblank : body.all isAsciiBlank = true ↔ ¬ ∃ b ∈ body, isAsciiBlank b = false := by
    simp [List.all_eq_true]
  by_cases hall : body.all isAsciiBlank = true
  · rw [if_pos hall]
    exact ⟨fun h => (nomatch h), fun h => absurd h.2.1 (hblank.1 hall)⟩
  · rw [if_neg hall, Option.some.injEq]
    refine ⟨?_, ?_⟩
    · rintro rfl
      exact ⟨rfl, not_not.1 fun h => hall (hblank.2 h), rfl⟩
    · rintro ⟨rfl, -, htext⟩
      rw [htext]

/-! ## All batches -/

/-- **Nothing is lost between batches.**  However a source arrives, its batches have its bytes;
every one of them ends with a line end unless it is the last, knows where its line ends are and how
many came before it; and their lines are those of sequential reading, which are the lines of the
segments between the line ends, numbered from one. -/
theorem lossless_batches (bs : Bytes) (reads : List Bytes) (hreads : reads.flatten = bs) :
    (batches 1 [] true reads).flatMap Batch.data = bs ∧
    (∀ front b back, batches 1 [] true reads = front ++ b :: back → b.Stands front back) ∧
    (batches 1 [] true reads).flatMap Batch.lines = Stream.lines ⟨bs, none⟩ ∧
    Stream.lines ⟨bs, none⟩ =
      (((bs.splitOn newline).zipIdx 1).filterMap fun (segment, number) =>
        Line.ofPiece? number segment) ∧
    ∀ number segment line, Line.ofPiece? number segment = some line ↔
      line.number = number ∧ ∃ body, Line.Body number segment body ∧
        (∃ b ∈ body, isAsciiBlank b = false) ∧ Utf8.Lossy body line.text.toList := by
  have hempty : Unbroken [] := by simp [Unbroken]
  refine ⟨?_, fun front b back h => stands_of_batches true reads h,
    Stream.flatMap_lines_batches ⟨bs, none⟩ hreads, Stream.lines_eq bs,
    fun number segment line => Line.ofPiece?_eq_some_iff⟩
  rw [flatMap_data_batches 1 hempty, hreads]
  rfl

/-- Reads that end inside the byte order mark, between a carriage return and its line end and inside
a character: the second line is blank, and the third has no line end and is the second batch. -/
theorem lossless_batches_cuts :
    ∃ (bs : Bytes) (reads : List Bytes) (first second : Batch), reads.flatten = bs ∧
      batches 1 [] true reads = [first, second] ∧ first.data ++ second.data = bs ∧
      first.lines ++ second.lines = Stream.lines ⟨bs, none⟩ ∧
      first.Stands [] [second] ∧ second.Stands [first] [] ∧ second.first = 3 ∧
      ∃ line, Line.ofPiece? 3 second.data = some line ∧ line.text.toList = ['é'] := by
  let reads : List Bytes :=
    [[0xEF, 0xBB], [0xBF, 0x61, 0x0D], [0x0A, 0x0A, 0xC3], [0xA9]]
  let first : Batch := .ofData 1 [0xEF, 0xBB, 0xBF, 0x61, 0x0D, 0x0A, 0x0A]
  let second : Batch := .ofData 3 [0xC3, 0xA9]
  have hbatches : batches 1 [] true reads = [first, second] := by decide
  obtain ⟨hdata, hstands, hlines, -, hsome⟩ := lossless_batches reads.flatten reads rfl
  rw [hbatches] at hdata hstands hlines
  have htext : Utf8.Lossy [0xC3, 0xA9] "é".toList := .char 'é' .nil
  refine ⟨reads.flatten, reads, first, second, rfl, hbatches, ?_, ?_, hstands [] first [second] rfl,
    hstands [first] second [] rfl, rfl, ⟨3, "é"⟩, (hsome _ _ _).2 ⟨rfl, [0xC3, 0xA9], ?_, ?_, htext⟩,
    rfl⟩
  · simpa using hdata
  · simpa using hlines
  · exact ⟨[0xC3, 0xA9], Or.inr ⟨rfl, by decide⟩, Or.inr ⟨rfl, by decide⟩⟩
  · exact ⟨0xC3, by decide⟩

end IpAtlas
