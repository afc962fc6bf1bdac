import IpAtlas.Overlay.Track
import IpAtlas.Proofs.Ascending

/-!
# Merging sources

A merge takes one mark after the other: of the marks in front of the sources always the one that
starts least, from the earliest source among equals.  That is a rule on lists of marks, in which
remarks have no part, and it leaves no choice.  Of the marks that are taken those are kept that start
after the end of the last one kept.

If the sources ascend, the marks are taken in the order of their starts, and if no two of them meet,
they are all kept.  Then the order of the sources is of no account.

## What is here

* `Track.marksOf` — the marks of a source.
* `Track.Takes`, `Track.Takes.unique`, `Track.Takes.perm` — the order in which marks are taken.
* `Track.keep`, `Track.ascending_keep` — those of them that are kept.
* `Track.Takes.ascending`, `Track.keep_of_ascending` — sources in order whose marks are all apart.
* `Track.takes_merge` — what a merge takes, and what it keeps.
* `Track.exists_source_of_mem_merge` — where that comes from.
-/

set_option autoImplicit false

namespace IpAtlas

variable {α : Type}

/-- The mark of an item. -/
def Item.mark? : Item α → Option (Mark α)
  | .mark m => some m
  | .remark _ => none

/-- Two marks that have no address in common. -/
def Mark.Apart (m m' : Mark α) : Prop :=
  ∀ a, ¬ (m.span.contains a = true ∧ m'.span.contains a = true)

namespace Track

/-- The marks of a source. -/
def marksOf (source : List (Item α)) : List (Mark α) := source.filterMap Item.mark?

theorem mem_marksOf {source : List (Item α)} {m : Mark α} :
    m ∈ marksOf source ↔ .mark m ∈ source := by
  rw [marksOf, List.mem_filterMap]
  refine ⟨?_, fun h => ⟨_, h, rfl⟩⟩
  rintro ⟨item, hitem, heq⟩
  cases item with
  | mark m' => rwa [← Option.some_inj.1 heq]
  | remark r => cases heq

/-! ## The order in which marks are taken -/

/-- The order in which marks are taken from some sources: the one that starts least of those in
front, from the earliest source among equals, and then the others. -/
inductive Takes : List (List (Mark α)) → List (Mark α) → Prop where
  | done {sources : List (List (Mark α))} (h : ∀ source ∈ sources, source = []) : Takes sources []
  | take {sources : List (List (Mark α))} {i : Nat} {m : Mark α} {rest taken : List (Mark α)}
      (hfront : sources[i]? = some (m :: rest))
      (hleast : ∀ j m' rest', sources[j]? = some (m' :: rest') →
        m.span.first < m'.span.first ∨ m.span.first = m'.span.first ∧ i ≤ j)
      (h : Takes (sources.set i rest) taken) : Takes sources (m :: taken)

section

variable {sources : List (List (Mark α))} {taken taken' : List (Mark α)} {m : Mark α}
  {rest : List (Mark α)} {i : Nat}

/-- There is no choice in what is taken. -/
theorem Takes.unique (h : Takes sources taken) (h' : Takes sources taken') : taken = taken' := by
  induction h generalizing taken' with
  | done hempty =>
    cases h' with
    | done _ => rfl
    | take hfront' _ _ => exact absurd (hempty _ (List.mem_of_getElem? hfront')) (List.cons_ne_nil _ _)
  | @take sources i m rest taken hfront hleast _ ih =>
    cases h' with
    | done hempty => exact absurd (hempty _ (List.mem_of_getElem? hfront)) (List.cons_ne_nil _ _)
    | @take _ i' m' rest' taken' hfront' hleast' htaken' =>
      have hij : i = i' := by
        have hle := hleast i' m' rest' hfront'
        have hle' := hleast' i m rest hfront
        simp only [← Address.rank_inj, Address.lt_iff_rank] at hle hle'
        omega
      subst hij
      obtain ⟨rfl, rfl⟩ := List.cons.inj (Option.some_inj.1 (hfront.symm.trans hfront'))
      rw [ih htaken']

theorem perm_of_front (hfront : sources[i]? = some (m :: rest)) :
    sources.flatten.Perm (m :: (sources.set i rest).flatten) := by
  induction sources generalizing i with
  | nil => exact nomatch hfront
  | cons source sources ih =>
    cases i with
    | zero =>
      obtain rfl : source = m :: rest := Option.some_inj.1 hfront
      exact List.Perm.refl _
    | succ i =>
      rw [List.set_cons_succ, List.flatten_cons, List.flatten_cons]
      exact ((ih hfront).append_left source).trans List.perm_middle

/-- Every mark is taken once. -/
theorem Takes.perm (h : Takes sources taken) : taken.Perm sources.flatten := by
  induction h with
  | done hempty =>
    rw [List.flatten_eq_nil_iff.2 hempty]
  | take hfront _ _ ih => exact (ih.cons _).trans (perm_of_front hfront).symm

/-! ## Sources that ascend -/

/-- Marks in the order of their starts. -/
def InOrder (marks : List (Mark α)) : Prop :=
  marks.Pairwise fun m m' => m.span.first ≤ m'.span.first

theorem le_of_front (hsources : ∀ source ∈ sources, InOrder source)
    (hleast : ∀ j m' rest', sources[j]? = some (m' :: rest') →
      m.span.first < m'.span.first ∨ m.span.first = m'.span.first ∧ i ≤ j) :
    ∀ m' ∈ sources.flatten, m.span.first ≤ m'.span.first := by
  intro m' hm'
  obtain ⟨source, hsource, hm'⟩ := List.mem_flatten.1 hm'
  obtain ⟨j, hj⟩ := List.mem_iff_getElem?.1 hsource
  cases source with
  | nil => exact nomatch hm'
  | cons front others =>
    have hfront : m.span.first ≤ front.span.first := by
      rcases hleast j front others hj with hlt | ⟨heq, -⟩
      · exact Nat.le_of_lt hlt
      · rw [heq]
        exact Address.le_refl _
    rcases List.mem_cons.1 hm' with rfl | hm'
    · exact hfront
    · exact Nat.le_trans hfront ((List.pairwise_cons.1 (hsources _ hsource)).1 m' hm')

/-- From sources in order marks are taken in order. -/
theorem Takes.inOrder (h : Takes sources taken) (hsources : ∀ source ∈ sources, InOrder source) :
    InOrder taken := by
  induction h with
  | done _ => exact List.Pairwise.nil
  | @take sources i m rest taken hfront hleast htaken ih =>
    have hfronts := hsources _ (List.mem_of_getElem? hfront)
    have hrest : ∀ source ∈ sources.set i rest, InOrder source := by
      intro source hsource
      rcases List.mem_or_eq_of_mem_set hsource with hsource | rfl
      · exact hsources source hsource
      · exact (List.pairwise_cons.1 hfronts).2
    refine List.pairwise_cons.2 ⟨fun m' hm' => ?_, ih hrest⟩
    refine le_of_front hsources hleast m' ((perm_of_front hfront).mem_iff.2 ?_)
    exact List.mem_cons_of_mem _ (htaken.perm.mem_iff.1 hm')

/-- Of two marks apart, in order, the second starts after the end of the first. -/
theorem last_lt_of_apart {m' : Mark α} (hm' : m'.span.Valid)
    (hle : m.span.first ≤ m'.span.first) (h : m.Apart m') : m.span.last < m'.span.first := by
  by_contra hge
  have hge := Address.not_lt.1 hge
  exact h m'.span.first
    ⟨Span.contains_iff.2 ⟨hle, hge⟩, Span.contains_iff.2 ⟨Address.le_refl _, hm'.2⟩⟩

/-- **Sources in order, whose marks are all apart, are merged into ascending marks.** -/
theorem Takes.ascending (h : Takes sources taken) (hsources : ∀ source ∈ sources, InOrder source)
    (hvalid : ∀ m ∈ sources.flatten, m.span.Valid) (hapart : sources.flatten.Pairwise Mark.Apart) :
    Span.Ascending (taken.map Mark.span) := by
  have hperm := h.perm
  have hvalid' : ∀ m ∈ taken, m.span.Valid := fun m hm => hvalid m (hperm.mem_iff.1 hm)
  have hsymm : ∀ {m m' : Mark α}, m.Apart m' → m'.Apart m := fun h a ha => h a ha.symm
  have hapart' : taken.Pairwise Mark.Apart := (hperm.pairwise_iff hsymm).2 hapart
  refine ⟨List.forall_mem_map.2 hvalid', List.pairwise_map.2 ?_⟩
  refine ((h.inOrder hsources).and hapart').imp_of_mem fun {m m'} _ hm' hboth => ?_
  exact last_lt_of_apart (hvalid' m' hm') hboth.1 hboth.2

end

/-! ## The marks that are kept -/

/-- Whether a mark starts after an end, if there is one. -/
def clears (last : Option Address) (m : Mark α) : Bool := last.all fun l => l < m.span.first

/-- Of marks in the order in which they are taken, those that start after the end of the last one
kept. -/
def keep (last : Option Address) : List (Mark α) → List (Mark α)
  | [] => []
  | m :: taken =>
    if clears last m then m :: keep (some m.span.last) taken else keep last taken

/-- Ascending marks are all kept. -/
theorem keep_of_ascending {last : Option Address} {taken : List (Mark α)}
    (hasc : Span.Ascending (taken.map Mark.span)) (hlast : ∀ m ∈ taken, clears last m) :
    keep last taken = taken := by
  induction taken generalizing last with
  | nil => rfl
  | cons m taken ih =>
    rw [List.map_cons, Span.ascending_cons] at hasc
    obtain ⟨-, hbehind, hasc⟩ := hasc
    rw [keep, if_pos (hlast m List.mem_cons_self)]
    refine congrArg (m :: ·) (ih hasc fun m' hm' => ?_)
    exact decide_eq_true (hbehind m'.span (List.mem_map_of_mem hm'))

theorem keep_sublist (last : Option Address) (taken : List (Mark α)) :
    (keep last taken).Sublist taken := by
  induction taken generalizing last with
  | nil => exact List.Sublist.refl []
  | cons m taken ih =>
    rw [keep]
    split
    · exact (ih _).cons_cons m
    · exact (ih _).cons m

theorem clears_of_le {last : Option Address} {m m' : Mark α} (h : clears last m = true)
    (hle : m.span.first ≤ m'.span.first) : clears last m' = true := by
  cases last with
  | none => rfl
  | some l => exact decide_eq_true (Nat.lt_of_lt_of_le (of_decide_eq_true h) hle)

/-- **The marks that are kept ascend.** -/
theorem ascending_keep {last : Option Address} {taken : List (Mark α)}
    (hvalid : ∀ m ∈ keep last taken, m.span.Valid) :
    Span.Ascending ((keep last taken).map Mark.span) ∧
      ∀ m ∈ keep last taken, clears last m = true := by
  induction taken generalizing last with
  | nil => exact ⟨Span.ascending_nil, List.forall_mem_nil _⟩
  | cons m taken ih =>
    by_cases hclears : clears last m = true
    · rw [keep, if_pos hclears] at hvalid ⊢
      obtain ⟨hm, hrest⟩ := List.forall_mem_cons.1 hvalid
      obtain ⟨hasc, hbehind⟩ := ih hrest
      have hlt : ∀ m' ∈ keep (some m.span.last) taken, m.span.last < m'.span.first :=
        fun m' hm' => of_decide_eq_true (hbehind m' hm')
      refine ⟨Span.ascending_cons.2 ⟨hm, List.forall_mem_map.2 hlt, hasc⟩, ?_⟩
      refine List.forall_mem_cons.2 ⟨hclears, fun m' hm' => clears_of_le hclears ?_⟩
      exact Nat.le_trans hm.2 (Nat.le_of_lt (hlt m' hm'))
    · rw [keep, if_neg hclears] at hvalid ⊢
      exact ih hvalid

/-! ## What a merge does -/

/-- The marks among what is to happen. -/
def keptOf (events : List (Event α)) : List (Mark α) :=
  events.filterMap fun
    | .kept m => some m
    | _ => none

/-- The marks that are taken in what is to happen, kept or not. -/
def takenOf (events : List (Event α)) : List (Mark α) :=
  events.filterMap fun
    | .kept m => some m
    | .dropped m _ => some m
    | .remark _ => none

/-- How many marks are to be dropped. -/
def dropsOf (events : List (Event α)) : Nat :=
  events.countP fun
    | .dropped .. => true
    | _ => false

theorem length_takenOf (events : List (Event α)) :
    (takenOf events).length = (keptOf events).length + dropsOf events := by
  induction events with
  | nil => rfl
  | cons event events ih =>
    cases event with
    | kept m =>
      show (takenOf events).length + 1 = (keptOf events).length + 1 + dropsOf events
      omega
    | dropped m last =>
      have hdrops : dropsOf (.dropped m last :: events) = dropsOf events + 1 :=
        List.countP_cons_of_pos rfl
      rw [hdrops]
      show (takenOf events).length + 1 = (keptOf events).length + (dropsOf events + 1)
      omega
    | remark r => exact ih

section

variable {sources sources' : List (List (Item α))} {m : Mark α} {last : Option Address}

theorem marksOf_dropWhile (source : List (Item α)) :
    marksOf (source.dropWhile Item.isRemark) = marksOf source := by
  induction source with
  | nil => rfl
  | cons item source ih =>
    cases item with
    | mark m => rfl
    | remark r => exact ih

theorem map_marksOf_fromMarks (sources : List (List (Item α))) :
    (fromMarks sources).map marksOf = sources.map marksOf := by
  rw [fromMarks, List.map_map]
  exact List.map_congr_left fun source _ => marksOf_dropWhile source

/-- Where nothing can be taken, no mark is in front. -/
theorem not_front_of_takeLeast (h : takeLeast sources = none) :
    ∀ (j : Nat) (m : Mark α) (rest : List (Item α)), sources[j]? ≠ some (.mark m :: rest) := by
  induction sources with
  | nil => exact fun j m rest hj => nomatch hj
  | cons source sources ih =>
    intro j m rest hj
    rw [takeLeast.eq_def] at h
    dsimp only at h
    split at h
    · cases h
    · split at h <;> cases h
    · cases h
    · rename_i hother hnone
      cases j with
      | zero => exact hother m rest (Option.some_inj.1 hj)
      | succ j => exact ih hnone j m rest hj

/-- The mark that is taken from sources stands in front of one of them, and starts least. -/
theorem exists_of_takeLeast (h : takeLeast sources = some (m, sources')) :
    ∃ i rest, sources[i]? = some (.mark m :: rest) ∧ sources' = sources.set i rest ∧
      ∀ j m' rest', sources[j]? = some (.mark m' :: rest') →
        m.span.first < m'.span.first ∨ m.span.first = m'.span.first ∧ i ≤ j := by
  induction sources generalizing m sources' with
  | nil => exact nomatch h
  | cons source sources ih =>
    rw [takeLeast.eq_def] at h
    dsimp only at h
    split at h
    · rename_i m rest hnone
      obtain ⟨rfl, rfl⟩ := Prod.mk.inj (Option.some_inj.1 h)
      refine ⟨0, rest, rfl, rfl, fun j m' rest' hj => ?_⟩
      cases j with
      | zero =>
        obtain ⟨hm, -⟩ := List.cons.inj (Option.some_inj.1 hj)
        exact Or.inr ⟨by rw [Item.mark.inj hm], Nat.le_refl 0⟩
      | succ j => exact absurd hj (not_front_of_takeLeast hnone j m' rest')
    · rename_i m rest m' sources'' hsome
      obtain ⟨i, rest', hfront, hset, hleast⟩ := ih hsome
      split at h
      · rename_i hle
        obtain ⟨rfl, rfl⟩ := Prod.mk.inj (Option.some_inj.1 h)
        refine ⟨0, rest, rfl, rfl, fun j m'' rest'' hj => ?_⟩
        cases j with
        | zero =>
          obtain ⟨hm, -⟩ := List.cons.inj (Option.some_inj.1 hj)
          exact Or.inr ⟨by rw [Item.mark.inj hm], Nat.le_refl 0⟩
        | succ j =>
          have hnext := hleast j m'' rest'' hj
          simp only [← Address.rank_inj, Address.le_iff_rank, Address.lt_iff_rank] at hle hnext ⊢
          omega
      · rename_i hlt
        obtain ⟨rfl, rfl⟩ := Prod.mk.inj (Option.some_inj.1 h)
        refine ⟨i + 1, rest', hfront, by rw [hset, List.set_cons_succ], fun j m'' rest'' hj => ?_⟩
        cases j with
        | zero =>
          obtain ⟨hm, -⟩ := List.cons.inj (Option.some_inj.1 hj)
          obtain rfl := Item.mark.inj hm
          exact Or.inl (Address.not_le.1 hlt)
        | succ j => exact (hleast j m'' rest'' hj).imp_right fun h => ⟨h.1, Nat.succ_le_succ h.2⟩
    · rename_i hother hsome
      obtain ⟨i, rest, hfront, hset, hleast⟩ := ih hsome
      obtain ⟨rfl, rfl⟩ := Prod.mk.inj (Option.some_inj.1 h)
      refine ⟨i + 1, rest, hfront, by rw [hset, List.set_cons_succ], fun j m' rest' hj => ?_⟩
      cases j with
      | zero => exact absurd (Option.some_inj.1 hj) (hother m' rest')
      | succ j => exact (hleast j m' rest' hj).imp_right fun h => ⟨h.1, Nat.succ_le_succ h.2⟩
    · cases h

/-- Without the remarks in front, a source is empty or begins with a mark. -/
theorem dropWhile_isRemark (source : List (Item α)) :
    source.dropWhile Item.isRemark = [] ∨
      ∃ m items, source.dropWhile Item.isRemark = .mark m :: items := by
  have hnot := List.head?_dropWhile_not Item.isRemark source
  cases hitems : source.dropWhile Item.isRemark with
  | nil => exact Or.inl rfl
  | cons item items =>
    rw [hitems] at hnot
    cases item with
    | mark m => exact Or.inr ⟨m, items, rfl⟩
    | remark r => exact absurd hnot Bool.noConfusion

theorem eq_mark_of_marksOf {source : List (Item α)} {rest : List (Mark α)}
    (hsource : source ∈ fromMarks sources) (h : marksOf source = m :: rest) :
    ∃ items, source = .mark m :: items := by
  obtain ⟨source, -, rfl⟩ := List.mem_map.1 hsource
  rcases dropWhile_isRemark source with hnil | ⟨m', items, hitems⟩
  · rw [hnil] at h
    exact nomatch h
  · rw [hitems] at h
    obtain ⟨rfl, -⟩ := List.cons.inj h
    exact ⟨items, hitems⟩

/-- The marks of sources from which nothing can be taken. -/
theorem takes_of_none (h : takeLeast (fromMarks sources) = none) :
    Takes (sources.map marksOf) [] := by
  rw [← map_marksOf_fromMarks]
  refine .done fun marks hmarks => ?_
  obtain ⟨source, hsource, rfl⟩ := List.mem_map.1 hmarks
  cases hfront : marksOf source with
  | nil => rfl
  | cons m rest =>
    obtain ⟨items, rfl⟩ := eq_mark_of_marksOf hsource hfront
    obtain ⟨j, hj⟩ := List.mem_iff_getElem?.1 hsource
    exact absurd hj (not_front_of_takeLeast h j m items)

/-- The mark that is taken from sources is the next of their marks. -/
theorem takes_of_some {taken : List (Mark α)}
    (h : takeLeast (fromMarks sources) = some (m, sources'))
    (htaken : Takes (sources'.map marksOf) taken) : Takes (sources.map marksOf) (m :: taken) := by
  obtain ⟨i, rest, hfront, rfl, hleast⟩ := exists_of_takeLeast h
  rw [← map_marksOf_fromMarks]
  rw [List.map_set] at htaken
  have hnext : ((fromMarks sources).map marksOf)[i]? = some (m :: marksOf rest) := by
    rw [List.getElem?_map, hfront]
    rfl
  refine .take hnext (fun j m' rest' hj => ?_) htaken
  rw [List.getElem?_map] at hj
  obtain ⟨source, hsource, hmarks⟩ := Option.map_eq_some_iff.1 hj
  obtain ⟨items, rfl⟩ := eq_mark_of_marksOf (List.mem_of_getElem? hsource) hmarks
  exact hleast j m' items hsource

theorem merge_of_none (h : takeLeast (fromMarks sources) = none) :
    merge last sources = (leadingRemarks sources).map .remark ++ [] := by
  rw [merge.eq_def]
  split
  · rfl
  · rename_i hsome
    cases h.symm.trans hsome

theorem merge_of_clears (h : takeLeast (fromMarks sources) = some (m, sources'))
    (hclears : clears last m = true) :
    merge last sources =
      (leadingRemarks sources).map .remark ++ .kept m :: merge (some m.span.last) sources' := by
  rw [merge.eq_def]
  split
  · rename_i hnone
    cases h.symm.trans hnone
  · rename_i hsome
    obtain ⟨rfl, rfl⟩ := Prod.mk.inj (Option.some_inj.1 (h.symm.trans hsome))
    cases last with
    | none => rfl
    | some l => exact congrArg _ (if_pos (of_decide_eq_true hclears))

theorem merge_of_not_clears (h : takeLeast (fromMarks sources) = some (m, sources'))
    (hclears : ¬ clears last m = true) :
    ∃ l, last = some l ∧
      merge last sources =
        (leadingRemarks sources).map .remark ++ .dropped m l :: merge (some l) sources' := by
  rw [merge.eq_def]
  split
  · rename_i hnone
    cases h.symm.trans hnone
  · rename_i hsome
    obtain ⟨rfl, rfl⟩ := Prod.mk.inj (Option.some_inj.1 (h.symm.trans hsome))
    cases last with
    | none => exact absurd rfl hclears
    | some l => exact ⟨l, rfl, congrArg _ (if_neg fun hlt => hclears (decide_eq_true hlt))⟩

theorem keptOf_remarks (remarks : Journal) (events : List (Event α)) :
    keptOf (remarks.map Event.remark ++ events) = keptOf events := by
  induction remarks with
  | nil => rfl
  | cons r remarks ih => exact ih

theorem takenOf_remarks (remarks : Journal) (events : List (Event α)) :
    takenOf (remarks.map Event.remark ++ events) = takenOf events := by
  induction remarks with
  | nil => rfl
  | cons r remarks ih => exact ih

/-- **A merge takes the marks of its sources**, and keeps of them what starts late enough. -/
theorem takes_merge (last : Option Address) (sources : List (List (Item α))) :
    Takes (sources.map marksOf) (takenOf (merge last sources)) ∧
      keptOf (merge last sources) = keep last (takenOf (merge last sources)) := by
  induction last, sources using merge.induct with
  | case1 last sources ihkept ihdropped =>
    cases hleast : takeLeast (fromMarks sources) with
    | none =>
      rw [merge_of_none hleast, takenOf_remarks, keptOf_remarks]
      exact ⟨takes_of_none hleast, rfl⟩
    | some taken =>
      obtain ⟨m, sources'⟩ := taken
      by_cases hclears : clears last m = true
      · obtain ⟨htakes, hkept⟩ := ihkept m sources' hleast
        rw [merge_of_clears hleast hclears, takenOf_remarks, keptOf_remarks]
        refine ⟨takes_of_some hleast htakes, ?_⟩
        show m :: keptOf (merge (some m.span.last) sources') =
          keep last (m :: takenOf (merge (some m.span.last) sources'))
        rw [keep, if_pos hclears, hkept]
      · obtain ⟨l, rfl, hmerge⟩ := merge_of_not_clears hleast hclears
        obtain ⟨htakes, hkept⟩ := ihdropped m sources' hleast l
        rw [hmerge, takenOf_remarks, keptOf_remarks]
        refine ⟨takes_of_some hleast htakes, ?_⟩
        show keptOf (merge (some l) sources') =
          keep (some l) (m :: takenOf (merge (some l) sources'))
        rw [keep, if_neg hclears, hkept]

/-- Every mark of a merge comes from one of its sources. -/
theorem exists_source_of_mem_merge (last : Option Address) (sources : List (List (Item α)))
    (hm : m ∈ keptOf (merge last sources)) : ∃ source ∈ sources, .mark m ∈ source := by
  obtain ⟨htakes, hkept⟩ := takes_merge last sources
  rw [hkept] at hm
  have htaken := htakes.perm.mem_iff.1 ((keep_sublist _ _).subset hm)
  obtain ⟨marks, hmarks, hm⟩ := List.mem_flatten.1 htaken
  obtain ⟨source, hsource, rfl⟩ := List.mem_map.1 hmarks
  exact ⟨source, hsource, mem_marksOf.1 hm⟩

end

end Track

end IpAtlas
