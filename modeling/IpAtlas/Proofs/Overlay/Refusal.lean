import IpAtlas.Proofs.Overlay.Remainder

/-!
# Receivers that refuse

A receiver that refuses a piece of a record is not handed the pieces behind it, and the sweep stays
where it was when that piece was cut.  It may then hold a mark that it took for this record, and it
has not looked at those behind.  But the next record begins behind the whole of this one, so it only
matters which marks are left there, and these are the marks that would be left if every piece had
been taken.  A refusal therefore costs the rest of one record and nothing else.

## What is here

* `Sweep.Offered`, `Sweep.OfferedAll` — what a receiver is handed of the pieces of records.
* `Sweep.feedAll` — records fed one after the other, whatever is refused.
* `Sweep.offered_feed` — one record.
* `Sweep.offeredAll_feedAll` — ascending records.
-/

set_option autoImplicit false

namespace IpAtlas.Sweep

variable {α σ ε : Type}

/-! ## What a receiver is handed -/

/-- Pieces offered to a receiver in a state, with those that it is handed, its refusal if there is
one, and its state then: it is handed all of them, or all up to the first that it refuses. -/
inductive Offered (sink : σ → Record → σ × Option ε) :
    σ → List Record → List Record → Option ε → σ → Prop where
  | done (state : σ) : Offered sink state [] [] none state
  | taken {state state' state'' : σ} {piece : Record} {pieces handed : List Record}
      {refusal : Option ε} (h : sink state piece = (state', none))
      (hrest : Offered sink state' pieces handed refusal state'') :
      Offered sink state (piece :: pieces) (piece :: handed) refusal state''
  | refused {state state' : σ} {piece : Record} {e : ε} (pieces : List Record)
      (h : sink state piece = (state', some e)) :
      Offered sink state (piece :: pieces) [piece] (some e) state'

/-- The pieces of records offered to a receiver one record after the other, whatever it refuses. -/
inductive OfferedAll (sink : σ → Record → σ × Option ε) :
    σ → List (List Record) → List (List Record × Option ε) → σ → Prop where
  | done (state : σ) : OfferedAll sink state [] [] state
  | next {state state' state'' : σ} {pieces handed : List Record} {refusal : Option ε}
      {more : List (List Record)} {outcomes : List (List Record × Option ε)}
      (h : Offered sink state pieces handed refusal state')
      (hmore : OfferedAll sink state' more outcomes state'') :
      OfferedAll sink state (pieces :: more) ((handed, refusal) :: outcomes) state''

/-- A receiver that pays no heed to remarks and takes note of the pieces it is handed. -/
def noting (sink : σ → Record → σ × Option ε) (noted : List Record × σ) (_ : Journal)
    (piece : Record) : (List Record × σ) × Option ε :=
  ((noted.1 ++ [piece], (sink noted.2 piece).1), (sink noted.2 piece).2)

/-- Feeds records one after the other, whatever is refused: what the receiver was handed of each, and
its refusal if there was one, its state and the sweep in the end. -/
def feedAll (sink : σ → Record → σ × Option ε) (state : σ) (s : Sweep α) :
    List Record → List (List Record × Option ε) × σ × Sweep α
  | [] => ([], state, s)
  | record :: records =>
    let fed := s.feed (noting sink) ([], state) record
    let more := feedAll sink fed.1.2 fed.2.2 records
    ((fed.1.1, fed.2.1) :: more.1, more.2)

section

variable {sink : σ → Record → σ × Option ε} {state state' : σ} {pieces handed : List Record}
  {refusal : Option ε} {s t : Sweep α} {records : List Record}

/-- What a receiver is handed are the first of the pieces, and all of them if it refuses none. -/
theorem Offered.isPrefix (h : Offered sink state pieces handed refusal state') :
    handed <+: pieces ∧ (refusal = none → handed = pieces) := by
  induction h with
  | done state => exact ⟨List.prefix_refl [], fun _ => rfl⟩
  | taken _ _ ih => exact ⟨(List.prefix_cons_inj _).2 ih.1, fun hnone => by rw [ih.2 hnone]⟩
  | refused pieces _ => exact ⟨⟨pieces, rfl⟩, fun hnone => nomatch hnone⟩

theorem exists_offered_of_handOver (sink : σ → Record → σ × Option ε) (state : σ) (s : Sweep α)
    (cuts : List (Cut α)) (front : List Record) :
    ∃ handed, (handOver (noting sink) (front, state) s cuts).1.1 = front ++ handed ∧
      Offered sink state (cuts.map (·.piece)) handed
        (handOver (noting sink) (front, state) s cuts).2.1
        (handOver (noting sink) (front, state) s cuts).1.2 := by
  induction cuts generalizing state s front with
  | nil => exact ⟨[], (List.append_nil front).symm, .done state⟩
  | cons cut cuts ih =>
    cases hsink : sink state cut.piece with
    | mk state' verdict =>
      have hnoted : noting sink (front, state) cut.remarks cut.piece =
          ((front ++ [cut.piece], state'), verdict) := by
        rw [noting, hsink]
      rw [handOver, hnoted]
      cases verdict with
      | some e => exact ⟨[cut.piece], rfl, .refused _ hsink⟩
      | none =>
        obtain ⟨handed, hhanded, hoffered⟩ := ih state' cut.sweep (front ++ [cut.piece])
        refine ⟨cut.piece :: handed, ?_, .taken hsink hoffered⟩
        rw [← List.append_cons] at hhanded
        exact hhanded

/-- **The pieces of one record** are offered to the receiver. -/
theorem offered_feed (sink : σ → Record → σ × Option ε) (state : σ) (s : Sweep α)
    (record : Record) :
    Offered sink state (s.decorate record).1 (s.feed (noting sink) ([], state) record).1.1
      (s.feed (noting sink) ([], state) record).2.1
      (s.feed (noting sink) ([], state) record).1.2 := by
  obtain ⟨handed, hhanded, hoffered⟩ := exists_offered_of_handOver sink state s (s.cuts record) []
  rw [List.nil_append] at hhanded
  subst hhanded
  exact hoffered

/-! ## Records in ascending order -/

/-- A sweep that has been fed a record is alike to the one before, at every address behind. -/
theorem alike_of_feed (receive : σ → Journal → Record → σ × Option ε) (state : σ) (s : Sweep α)
    (record : Record) {b : Address} (hb : record.range.last < b) :
    Alike b (s.feed receive state record).2.2 s := by
  obtain ⟨cut, hcut, heq⟩ := exists_cut_of_handOver receive state s (s.cuts_ne_nil record)
  rw [feed, heq]
  exact alike_of_mem_cutsFrom hcut hb

theorem alike_of_decorate (s : Sweep α) (record : Record) {b : Address}
    (hb : record.range.last < b) : Alike b (s.decorate record).2.1 s := by
  obtain ⟨cut, hcut, heq⟩ := exists_cut_of_decorate s record
  rw [heq]
  exact alike_of_mem_cutsFrom hcut hb

theorem Alike.decorate_eq {record : Record} (h : Alike record.range.first s t) :
    (s.decorate record).1 = (t.decorate record).1 :=
  h.pieces_eq

/-- What makes the same of a record makes the same of the next, whatever became of the first. -/
theorem Alike.next {u : Sweep α} {record : Record} (h : Alike record.range.first s t)
    (hu : ∀ b, record.range.last < b → Alike b u s)
    (hrecords : (record :: records).IsChain fun r r' => r.range.last < r'.range.first) :
    ∀ record' ∈ records.head?, Alike record'.range.first u t := by
  intro record' hrecord'
  have hbehind := (List.isChain_cons.1 hrecords).1 record' hrecord'
  have hahead := Nat.lt_of_le_of_lt record.range.first_le_last hbehind
  exact (hu _ hbehind).trans (h.mono (Nat.le_of_lt hahead))

theorem decorateAll_of_alike (h : ∀ record ∈ records.head?, Alike record.range.first s t)
    (hrecords : records.IsChain fun r r' => r.range.last < r'.range.first) :
    (s.decorateAll records).1 = records.map fun record => (t.decorate record).1 := by
  induction records generalizing s with
  | nil => rfl
  | cons record records ih =>
    have hfirst := h record rfl
    have hnext := hfirst.next (fun b hb => alike_of_decorate s record hb) hrecords
    rw [decorateAll, List.map_cons, ← hfirst.decorate_eq, ← ih hnext hrecords.tail]

theorem offeredAll_of_alike (state : σ)
    (h : ∀ record ∈ records.head?, Alike record.range.first s t)
    (hrecords : records.IsChain fun r r' => r.range.last < r'.range.first) :
    OfferedAll sink state (records.map fun record => (t.decorate record).1)
      (s.feedAll sink state records).1 (s.feedAll sink state records).2.1 := by
  induction records generalizing s state with
  | nil => exact .done state
  | cons record records ih =>
    have hfirst := h record rfl
    have hnext := hfirst.next (fun b hb => alike_of_feed (noting sink) ([], state) s record hb)
      hrecords
    rw [List.map_cons, ← hfirst.decorate_eq]
    exact .next (offered_feed sink state s record) (ih _ hnext hrecords.tail)

end

/-- **A refusal costs the rest of one record.**  Whatever state a sweep is in, if ascending records
are fed to a receiver that may refuse any pieces, then of each record it is handed the pieces that
there are when nothing is ever refused: all of them, or all up to the first that it refuses, and then
the refusal is what the record comes to.  And what there is of a record does not depend on the
records before. -/
theorem offeredAll_feedAll (s : Sweep α) (records : List Record)
    (hrecords : records.IsChain fun r r' => r.range.last < r'.range.first)
    (sink : σ → Record → σ × Option ε) (state : σ) :
    OfferedAll sink state (s.decorateAll records).1 (s.feedAll sink state records).1
        (s.feedAll sink state records).2.1 ∧
      (s.decorateAll records).1 = records.map (fun record => (s.decorate record).1) ∧
      ∀ state pieces handed refusal state', Offered sink state pieces handed refusal state' →
        handed <+: pieces ∧ (refusal = none → handed = pieces) := by
  have hstart : ∀ record ∈ records.head?, Alike record.range.first s s :=
    fun record _ => Alike.refl record.range.first s
  have halone := decorateAll_of_alike hstart hrecords
  refine ⟨?_, halone, fun _ _ _ _ _ h => h.isPrefix⟩
  rw [halone]
  exact offeredAll_of_alike state hstart hrecords

/-- The piece inside a mark is refused, and the record behind is cut as if it had been taken. -/
theorem offeredAll_feedAll_marked :
    ∃ (m : Mark Flag) (record next : Record) (sink : Nat → Record → Nat × Option String),
      [record, next].IsChain (fun r r' => r.range.last < r'.range.first) ∧
        record.range.CutBy m.span.first ∧ next.range.CutBy m.span.last ∧
        OfferedAll sink 0
          ((ofTracks [Track.ofMarks [[m]]] .privateNetwork).decorateAll [record, next]).1
          ((ofTracks [Track.ofMarks [[m]]] .privateNetwork).feedAll sink 0 [record, next]).1
          ((ofTracks [Track.ofMarks [[m]]] .privateNetwork).feedAll sink 0 [record, next]).2.1 ∧
        ((ofTracks [Track.ofMarks [[m]]] .privateNetwork).feedAll sink 0 [record, next]).1.map
            (fun outcome => (outcome.1.length, outcome.2)) = [(2, some "full"), (2, none)] := by
  let address (n : Nat) (h : n < Family.v4.size) : Address := ⟨.v4, n, h⟩
  let m : Mark Flag := ⟨⟨address 20 (by decide), address 40 (by decide)⟩, .yes⟩
  let first : Range := ⟨⟨address 10 (by decide), address 30 (by decide)⟩, by decide⟩
  let second : Range := ⟨⟨address 31 (by decide), address 50 (by decide)⟩, by decide⟩
  let record : Record := ⟨first, { span := first.toSpan }, ⟨1, "10-30"⟩⟩
  let next : Record := ⟨second, { span := second.toSpan }, ⟨2, "31-50"⟩⟩
  let sink : Nat → Record → Nat × Option String :=
    fun taken _ => (taken + 1, if taken = 1 then some "full" else none)
  have hrecords : [record, next].IsChain fun r r' => r.range.last < r'.range.first := by
    rw [List.isChain_pair]
    decide
  refine ⟨m, record, next, sink, hrecords, by decide, by decide, ?_, ?_⟩
  · exact (offeredAll_feedAll _ _ hrecords sink 0).1
  · decide +kernel

end IpAtlas.Sweep
