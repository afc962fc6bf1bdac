import IpAtlas.Proofs.Catalog
import IpAtlas.Proofs.Catalog.Answers
import IpAtlas.Proofs.Catalog.Failures

/-!
# What registrations come to

Registrations are checked one after the other, so what is told is what is wrong with the first of
them that is wrong, whatever there is on the disk.  If nothing is wrong, all sources are built.  They
may be built at the same time, and then they get done in any order; but each result is put in the
place of its registration, and the first place that holds an error gives the error of them all.  If
none does, the catalogue answers for the providers in the order of their registration, each as its
own database.

## What is here

* `Registration.comesTo`, `Catalog.outcomes` — what sources come to, by their places.
* `Catalog.inPlace`, `Catalog.inPlace_of_perm` — results that arrive in any order.
* `Catalog.Settles`, `Catalog.settles_of_perm` — what a catalogue comes to of them.
* `Catalog.build_outcome` — what a catalogue comes to.
-/

set_option autoImplicit false

namespace IpAtlas

variable {σ : Type}

/-- What a registration comes to, given what building its source comes to.  A database that is there
already needs no building. -/
def Registration.comesTo (r : Registration σ) (built : Except Error Database) :
    Except Error (Provider × Database) :=
  match r.source with
  | .database database => .ok (r.provider, database)
  | .lines _ => built.map fun database => (r.provider, database)

namespace Catalog

open Registration

/-- What registrations come to, in their order, given what building the source at each place comes
to. -/
def outcomes (built : Nat → Except Error Database) (registrations : List (Registration σ)) :
    List (Except Error (Provider × Database)) :=
  registrations.mapIdx fun place r => r.comesTo (built place)

/-- Results with the numbers of their places. -/
def numbered {β : Type} (results : List β) : List (Nat × β) := results.zipIdx.map Prod.swap

/-- Numbered results as they arrive, each put in its place. -/
def inPlace {β : Type} (count : Nat) (arrivals : List (Nat × β)) : List β :=
  (List.range count).filterMap fun place => arrivals.lookup place

/-- What registrations come to that may stand together: the error of the first place whose source has
one, or a catalogue of all of them that answers as their databases do. -/
inductive Settles (built : Nat → Except Error Database) (registrations : List (Registration σ)) :
    Except Error Catalog → Prop where
  | failed {place : Nat} {provider : Provider} {source : LineSource σ} {e : Error}
      (hplace : registrations[place]? = some ⟨provider, .lines source⟩)
      (h : built place = .error e)
      (hbefore : ∀ i < place, ∀ provider source,
        registrations[i]? = some ⟨provider, .lines source⟩ → ∃ database, built i = .ok database) :
      Settles built registrations (.error e)
  | built {c : Catalog} {databases : List (Provider × Database)}
      (hresults : outcomes built registrations = databases.map .ok)
      (hproviders : c.providers = registrations.map Registration.provider)
      (hanswers : c.Answers databases) : Settles built registrations (.ok c)

section

variable {built : Nat → Except Error Database} {registrations : List (Registration σ)}
  {interrupted : Bool} {disk : Disk}

/-! ## Results in any order -/

theorem filterMap_range_getElem? {β : Type} (results : List β) :
    (List.range results.length).filterMap (results[·]?) = results := by
  induction results with
  | nil => rfl
  | cons x results ih =>
    rw [List.length_cons, List.range_succ_eq_map, List.filterMap_cons, List.filterMap_map]
    exact congrArg (x :: ·) ih

theorem nodup_numbered {β : Type} (results : List β) :
    ((numbered results).map Prod.fst).Nodup := by
  have hkeys : (numbered results).map Prod.fst = List.range' 0 results.length := by
    rw [numbered, List.map_map, ← List.zipIdx_map_snd]
    rfl
  rw [hkeys]
  exact List.nodup_range'

theorem mem_numbered {β : Type} {results : List β} {place : Nat} {x : β}
    (h : results[place]? = some x) : (place, x) ∈ numbered results :=
  List.mem_map.2 ⟨(x, place), List.mem_zipIdx_iff_getElem?.2 h, rfl⟩

/-- **Numbered results are put in their places**, in whichever order they arrive. -/
theorem inPlace_of_perm {β : Type} {results : List β} {arrivals : List (Nat × β)}
    (h : arrivals.Perm (numbered results)) : inPlace results.length arrivals = results := by
  have hnodup : (arrivals.map Prod.fst).Nodup :=
    (h.map Prod.fst).nodup_iff.2 (nodup_numbered results)
  have hlookup : ∀ place ∈ List.range results.length,
      arrivals.lookup place = results[place]? := by
    intro place hplace
    have hfound := List.getElem?_eq_getElem (List.mem_range.1 hplace)
    rw [hfound]
    exact lookup_of_mem hnodup (h.mem_iff.2 (mem_numbered hfound))
  rw [inPlace, List.filterMap_congr hlookup]
  exact filterMap_range_getElem? results

/-! ## What the results come to -/

theorem getElem?_outcomes (place : Nat) :
    (outcomes built registrations)[place]? =
      registrations[place]?.map fun r => r.comesTo (built place) :=
  List.getElem?_mapIdx

/-- Only a source can come to an error, and it is that of building it. -/
theorem exists_lines_of_comesTo {r : Registration σ} {result : Except Error Database} {e : Error}
    (h : r.comesTo result = .error e) : ∃ source, r.source = .lines source ∧ result = .error e := by
  rw [Registration.comesTo] at h
  split at h
  · exact nomatch h
  · rename_i source hsource
    cases result with
    | ok database => exact nomatch h
    | error e' => exact ⟨source, hsource, congrArg _ (Except.error.inj h)⟩

theorem provider_of_comesTo {r : Registration σ} {result : Except Error Database}
    {x : Provider × Database} (h : r.comesTo result = .ok x) : x.1 = r.provider := by
  rw [Registration.comesTo] at h
  split at h
  · rw [← Except.ok.inj h]
  · cases result with
    | ok database => rw [← Except.ok.inj h]
    | error e => exact nomatch h

theorem exists_ok_of_comesTo {provider : Provider} {source : LineSource σ}
    {result : Except Error Database} {x : Provider × Database}
    (h : (⟨provider, .lines source⟩ : Registration σ).comesTo result = .ok x) :
    ∃ database, result = .ok database := by
  cases result with
  | ok database => exact ⟨database, rfl⟩
  | error e => exact nomatch h

/-- The providers of results without an error are those of the registrations. -/
theorem map_fst_of_outcomes {databases : List (Provider × Database)}
    (h : outcomes built registrations = databases.map .ok) :
    databases.map Prod.fst = registrations.map Registration.provider := by
  refine List.ext_getElem? fun place => ?_
  have hplace := congrArg (·[place]?) h
  simp only [getElem?_outcomes, List.getElem?_map] at hplace ⊢
  cases hr : registrations[place]? with
  | none =>
    rw [hr] at hplace
    rw [Option.map_eq_none_iff.1 hplace.symm]
    rfl
  | some r =>
    rw [hr] at hplace
    obtain ⟨x, hx, hcomes⟩ := Option.map_eq_some_iff.1 hplace.symm
    rw [hx]
    exact congrArg some (provider_of_comesTo hcomes.symm)

/-- **What the catalogue of registrations comes to**, of which no two have one provider. -/
theorem settles_collect (hkeys : (registrations.map Registration.provider).Nodup) :
    Settles built registrations ((collect (outcomes built registrations)).map Catalog.mk) := by
  rcases collect_cases (outcomes built registrations) with
    ⟨databases, hresults, hcollect⟩ | ⟨place, e, hplace, hbefore, hcollect⟩
  · rw [hcollect]
    have hproviders := map_fst_of_outcomes hresults
    refine .built hresults hproviders (answers_of_nodup (c := ⟨databases⟩) ?_)
    rw [providers, hproviders]
    exact hkeys
  · rw [hcollect]
    rw [getElem?_outcomes] at hplace
    obtain ⟨r, hr, hcomes⟩ := Option.map_eq_some_iff.1 hplace
    obtain ⟨source, hsource, herror⟩ := exists_lines_of_comesTo hcomes
    obtain ⟨provider, source'⟩ := r
    obtain rfl : source' = .lines source := hsource
    refine .failed hr herror fun i hi provider' source' hi' => ?_
    obtain ⟨x, hx⟩ := hbefore i hi
    rw [getElem?_outcomes, hi'] at hx
    exact exists_ok_of_comesTo (Option.some_inj.1 hx)

/-- **It does not matter which source is done first.** -/
theorem settles_of_perm (hkeys : (registrations.map Registration.provider).Nodup)
    {arrivals : List (Nat × Except Error (Provider × Database))}
    (h : arrivals.Perm (numbered (outcomes built registrations))) :
    Settles built registrations
      ((collect (inPlace registrations.length arrivals)).map Catalog.mk) := by
  have hlength : registrations.length = (outcomes built registrations).length :=
    List.length_mapIdx.symm
  rw [hlength, inPlace_of_perm h]
  exact settles_collect hkeys

/-! ## One after the other -/

/-- Sources that are built one after the other come to what each comes to on the disk that those
before it leave. -/
theorem exists_built (registrations : List (Registration σ)) (interrupted : Bool) (disk : Disk) :
    ∃ built, (buildAll interrupted disk registrations).1 = outcomes built registrations ∧
      ∀ place provider source, registrations[place]? = some ⟨provider, .lines source⟩ →
        ∃ interrupted', built place = (source.build provider interrupted'
          (buildAll interrupted disk (registrations.take place)).2.1).result := by
  induction registrations generalizing interrupted disk with
  | nil =>
    refine ⟨fun _ => .error .noProviders, rfl, fun place provider source h => ?_⟩
    cases h
  | cons r registrations ih =>
    obtain ⟨built, hresults, hbuilt⟩ :=
      ih (r.build interrupted disk).interrupted (r.build interrupted disk).disk
    -- the source of `r` is at the first place, and every other comes one place later
    refine ⟨Nat.rec (r.build interrupted disk).result fun place _ => built place, ?_, ?_⟩
    · rw [buildAll, outcomes, List.mapIdx_cons]
      refine congrArg₂ (· :: ·) ?_ hresults
      obtain ⟨provider, source⟩ := r
      cases source <;> rfl
    · intro place provider source hplace
      cases place with
      | zero =>
        obtain rfl := Option.some_inj.1 hplace
        exact ⟨interrupted, rfl⟩
      | succ place => exact hbuilt place provider source hplace

/-! ## What a catalogue comes to -/

theorem nodup_of_compatible (h : registrations.Pairwise Compatible) :
    (registrations.map Registration.provider).Nodup :=
  List.pairwise_map.2 (h.imp Compatible.providers)

theorem build_of_conflict {e : Error} (h : conflict? [] registrations = some e)
    (interrupted : Bool) (disk : Disk) :
    build registrations interrupted disk = { result := .error e, disk } := by
  have hne : ¬ registrations.isEmpty = true := by
    rw [List.isEmpty_iff]
    rintro rfl
    exact nomatch h
  rw [build, if_neg hne, h]

theorem result_of_apart (hapart : registrations.Pairwise Compatible) (hne : registrations ≠ [])
    (interrupted : Bool) (disk : Disk) : (build registrations interrupted disk).result =
      (collect (buildAll interrupted disk registrations).1).map Catalog.mk := by
  have hnone : conflict? [] registrations = none :=
    (conflict?_eq_none_iff_compatible List.Pairwise.nil).2 hapart
  have hne' : ¬ registrations.isEmpty = true := by rwa [List.isEmpty_iff]
  rw [build, if_neg hne', hnone]

/-- **Registrations that may not stand together** give the error of the first that is wrong. -/
theorem exists_fault_of_shared (hshared : ¬ registrations.Pairwise Compatible) :
    ∃ before s after e, registrations = before ++ s :: after ∧ before.Pairwise Compatible ∧
      Fault before s e ∧ ∀ interrupted disk,
        build registrations interrupted disk = { result := .error e, disk } := by
  cases hconflict : conflict? [] registrations with
  | none => exact absurd ((conflict?_eq_none_iff_compatible List.Pairwise.nil).1 hconflict) hshared
  | some e =>
    obtain ⟨before, s, after, hsplit, hbefore, hfault⟩ := exists_fault_of_conflict? hconflict
    have hfront := (conflict?_eq_none_iff_compatible List.Pairwise.nil).1 hbefore
    exact ⟨before, s, after, e, hsplit, hfront, hfault, build_of_conflict hconflict⟩

/-- **Others are built one after the other.** -/
theorem exists_settles_build (hapart : registrations.Pairwise Compatible)
    (hne : registrations ≠ []) (interrupted : Bool) (disk : Disk) :
    ∃ built, (∀ place provider source, registrations[place]? = some ⟨provider, .lines source⟩ →
        ∃ interrupted', built place = (source.build provider interrupted'
          (buildAll interrupted disk (registrations.take place)).2.1).result) ∧
      Settles built registrations (build registrations interrupted disk).result := by
  obtain ⟨built, hresults, hbuilt⟩ := exists_built registrations interrupted disk
  refine ⟨built, hbuilt, ?_⟩
  rw [result_of_apart hapart hne, hresults]
  exact settles_collect (nodup_of_compatible hapart)

/-- Only a listener can tell of some registrations that there are none. -/
theorem handsOut_of_build (hne : registrations ≠ [])
    (h : (build registrations interrupted disk).result = .error .noProviders) :
    ∃ provider source, ⟨provider, .lines source⟩ ∈ registrations ∧
      source.listener.HandsOut provider .noProviders := by
  by_cases hapart : registrations.Pairwise Compatible
  · obtain ⟨built, hbuilt, hsettles⟩ := exists_settles_build hapart hne interrupted disk
    rw [h] at hsettles
    cases hsettles with
    | failed hplace herror _ =>
      obtain ⟨interrupted', hbuild⟩ := hbuilt _ _ _ hplace
      rw [herror] at hbuild
      cases LineSource.mayFail_of_build hbuild.symm with
      | handedOut hout => exact ⟨_, _, List.mem_of_getElem? hplace, hout⟩
  · obtain ⟨before, s, after, e, -, -, hfault, hbuild⟩ := exists_fault_of_shared hapart
    rw [hbuild] at h
    obtain rfl : e = .noProviders := Except.error.inj h
    cases hfault

end

/-- **What registrations come to.**  If there are none, that is told, and it is told of no others if
no listener tells it.  If one has the provider of an earlier one, or the index file, the first such
gives the error, the provider before the file, whatever is on the disk, and the disk stays as it is.
Otherwise the sources may be done in any order: the first of those that fail gives the error, and if
none fails, the catalogue has the providers in the order of registration and answers for each of them
as its own database.  So it is if they are built one after the other. -/
theorem build_outcome (registrations : List (Registration σ)) :
    (registrations = [] → ∀ interrupted disk,
      build registrations interrupted disk = { result := .error .noProviders, disk }) ∧
    ((∀ provider source, ⟨provider, .lines source⟩ ∈ registrations →
        ¬ source.listener.HandsOut provider .noProviders) → ∀ interrupted disk,
      ((build registrations interrupted disk).result = .error .noProviders ↔
        registrations = [])) ∧
    (¬ registrations.Pairwise Compatible → ∃ before s after e,
      registrations = before ++ s :: after ∧ before.Pairwise Compatible ∧ Fault before s e ∧
      ∀ interrupted disk,
        build registrations interrupted disk = { result := .error e, disk }) ∧
    (registrations.Pairwise Compatible →
      (∀ built arrivals, arrivals.Perm (numbered (outcomes built registrations)) →
        Settles built registrations
          ((collect (inPlace registrations.length arrivals)).map Catalog.mk)) ∧
      (registrations ≠ [] → ∀ interrupted disk, ∃ built,
        (∀ place provider source, registrations[place]? = some ⟨provider, .lines source⟩ →
          ∃ interrupted', built place = (source.build provider interrupted'
            (buildAll interrupted disk (registrations.take place)).2.1).result) ∧
        Settles built registrations (build registrations interrupted disk).result)) := by
  refine ⟨?_, fun hquiet interrupted disk => ⟨fun h => ?_, ?_⟩, exists_fault_of_shared,
    fun hapart => ⟨?_, ?_⟩⟩
  · rintro rfl interrupted disk
    rfl
  · by_contra hne
    obtain ⟨provider, source, hmem, hout⟩ := handsOut_of_build hne h
    exact hquiet provider source hmem hout
  · rintro rfl
    rfl
  · exact fun built arrivals => settles_of_perm (nodup_of_compatible hapart)
  · exact exists_settles_build hapart

/-- Two sources fail, and the second is done before the first. -/
theorem build_outcome_reversed :
    ∃ (registrations : List (Registration Unit)) (built : Nat → Except Error Database)
      (arrivals : List (Nat × Except Error (Provider × Database))),
      registrations.Pairwise Compatible ∧
        arrivals.Perm (numbered (outcomes built registrations)) ∧
        collect (arrivals.map Prod.snd) = .error (.io .zeroInPath) ∧
        Settles built registrations (.error (.io .notFound)) ∧
        ∀ interrupted disk,
          (build registrations interrupted disk).result ≠ .error .noProviders := by
  let source (path index : Path) (listener : Listener Unit) : Source Unit := .lines
    { path, reader := LineReader.singleAddress, settings := { storage := .file index 0 }, listener
      state := () }
  let registrations : List (Registration Unit) :=
    [⟨⟨"a"⟩, .database (.memory {})⟩, ⟨⟨"b"⟩, source ⟨"b.csv"⟩ ⟨"b.idx"⟩ .failFast⟩,
      ⟨⟨"c"⟩, source ⟨"c\x00.csv"⟩ ⟨"c.idx"⟩ .skipping⟩]
  let built : Nat → Except Error Database := fun place =>
    .error (.io (if place = 1 then .notFound else .zeroInPath))
  have hapart : registrations.Pairwise Compatible := by
    have hspelled : ¬ Path.same ⟨"b.idx"⟩ ⟨"c.idx"⟩ = true := by decide
    refine (pairwise_compatible_iff (by decide)).2 ?_
    simpa [registrations, source, SpelledApart, Registration.indexPath?] using hspelled
  have hquiet : ∀ provider source', ⟨provider, .lines source'⟩ ∈ registrations →
      ¬ source'.listener.HandsOut provider .noProviders := by
    intro provider source' hmem hout
    simp only [registrations, source, List.mem_cons, List.not_mem_nil, or_false,
      Registration.mk.injEq, reduceCtorEq, and_false, false_or, Source.lines.injEq] at hmem
    rcases hmem with ⟨-, rfl⟩ | ⟨-, rfl⟩
    · obtain ⟨_, _, _, herror⟩ := hout.of_failFast
      cases herror
    · exact Listener.not_handsOut_skipping hout
  have hperm := List.reverse_perm (numbered (outcomes built registrations))
  obtain ⟨-, hnone, -, hbuild⟩ := build_outcome registrations
  refine ⟨registrations, built, _, hapart, hperm, rfl, (hbuild hapart).1 built _ hperm, ?_⟩
  exact fun interrupted disk h => List.cons_ne_nil _ _ ((hnone hquiet interrupted disk).1 h)

/-- A listener answers a line that is no record with the error that there are no providers, and that
is what its only source comes to.  And of three registrations the third repeats the provider of the
first; it is the first that is wrong, for the index file of the second is that of the first, but
spelled in another way. -/
theorem build_outcome_handedOut :
    (∃ (registrations : List (Registration Unit)) (disk : Disk), registrations ≠ [] ∧
      (build registrations false disk).result = .error .noProviders) ∧
    ∃ first second : Registration Unit, first.provider ≠ second.provider ∧
      (∀ cwd, ¬ FilesApart cwd first second) ∧ ∀ interrupted disk,
        (build [first, second, first] interrupted disk).result =
          .error (.duplicateProvider first.provider) := by
  let listener : Listener Unit :=
    { Listener.failFast with parseFailed := fun state _ _ => (.error .noProviders, { state }) }
  let source (path : Path) : LineSource Unit :=
    { path := ⟨"lines.csv"⟩, reader := LineReader.singleAddress, listener, state := ()
      settings := { storage := .file path 0 } }
  let first : Registration Unit := ⟨⟨"a"⟩, .lines (source ⟨"ranges.idx"⟩)⟩
  let second : Registration Unit := ⟨⟨"b"⟩, .lines (source ⟨"./ranges.idx"⟩)⟩
  let disk : Disk := { entries := [(["lines.csv"], .file "x".toUTF8.toList)] }
  refine ⟨⟨[first], disk, List.cons_ne_nil _ _, eq_error_of_errorOf? ?_⟩, first, second, by decide,
    ?_, fun interrupted disk => ?_⟩
  · decide +kernel
  · intro cwd hapart
    have hplain : Path.components ⟨"ranges.idx"⟩ = [.normal "ranges.idx"] := by decide
    have hdot : Path.components ⟨"./ranges.idx"⟩ = [.current, .normal "ranges.idx"] := by decide
    refine hapart _ rfl _ rfl ?_
    rw [Path.resolve, Path.resolve, hplain, hdot]
    rfl
  · have hconflict : conflict? [] [first, second, first] =
        some (.duplicateProvider first.provider) := by decide
    rw [build_of_conflict hconflict]

end Catalog

end IpAtlas
