import IpAtlas.Catalog
import IpAtlas.Proofs.Database
import Mathlib.Data.List.Nodup

/-!
# The answers of a catalogue

A catalogue can be asked for what all of its providers know of an address, or for what one of them
knows.  A question may change databases, since one on disk remembers what it decoded.  It changes
none but those it is put to, so after any questions each database is in the state that the addresses
it was asked for bring it to, as if it stood alone; and what the catalogue answers for a provider is
what its own database answers then, by whichever of the two ways it is asked.

## What is here

* `Catalog.Query`, `Catalog.after` — questions, and the catalogue after some.
* `Catalog.Query.putTo` — the addresses that one of the providers is asked for.
* `Catalog.databases_after` — every database on its own.
* `Catalog.Answers`, `Catalog.answers_of_nodup` — what a catalogue answers.
-/

set_option autoImplicit false

namespace IpAtlas.Catalog

/-! ## Questions -/

/-- What a catalogue is asked. -/
inductive Query where
  /-- What every provider knows of an address. -/
  | all (a : Address)
  /-- What one provider knows of an address. -/
  | one (p : Provider) (a : Address)

/-- The addresses that a question puts to a provider. -/
def Query.putTo (p : Provider) : Query → List Address
  | .all a => [a]
  | .one q a => if q = p then [a] else []

/-- The catalogue after a question. -/
def ask (c : Catalog) : Query → Catalog
  | .all a => (c.resolve a).2.1
  | .one p a => (c.resolveProvider p a).2.1

/-- The catalogue after some questions. -/
def after (c : Catalog) (asked : List Query) : Catalog := asked.foldl ask c

/-- What a provider's own database answers to an address, after those that some questions put to
it. -/
def ownAnswer (p : Provider) (database : Database) (asked : List Query) (a : Address) :
    Option Location :=
  (database.after (asked.flatMap (Query.putTo p))).answer a

/-- A catalogue that answers for some providers as their databases do, whatever it was asked
before.  It answers for all of them together or for one, and for no other. -/
structure Answers (databases : List (Provider × Database)) (c : Catalog) : Prop where
  providers_eq : c.providers = databases.map Prod.fst
  nodup : c.providers.Nodup
  all (asked : List Query) (a : Address) : ((c.after asked).resolve a).1 =
    databases.map fun (p, database) => (p, ownAnswer p database asked a)
  one (asked : List Query) (a : Address) : ∀ p database, (p, database) ∈ databases →
    ((c.after asked).resolveProvider p a).1 = .ok (ownAnswer p database asked a)
  other (asked : List Query) (a : Address) : ∀ p, p ∉ c.providers →
    (c.after asked).resolveProvider p a = (.error (.unknownProvider p), c.after asked, [])

/-- What is found under a key that occurs once. -/
theorem lookup_of_mem {κ β : Type} [DecidableEq κ] {entries : List (κ × β)} {k : κ} {x : β}
    (hnodup : (entries.map Prod.fst).Nodup) (h : (k, x) ∈ entries) :
    entries.lookup k = some x := by
  obtain ⟨front, back, rfl⟩ := List.append_of_mem h
  refine List.lookup_eq_some_iff.2 ⟨front, back, rfl, fun e he => bne_iff_ne.2 fun heq => ?_⟩
  rw [List.map_append, List.map_cons] at hnodup
  exact (List.nodup_append.1 hnodup).2.2 e.1 (List.mem_map_of_mem he) k List.mem_cons_self heq.symm

section

variable {c : Catalog} {p : Provider} {a : Address}

/-! ## One question -/

theorem askAll_eq (a : Address) (databases : List (Provider × Database)) :
    (askAll a databases).1 = databases.map (fun (p, database) => (p, database.answer a)) ∧
      (askAll a databases).2.1 =
        databases.map fun (p, database) => (p, database.after [a]) := by
  induction databases with
  | nil => exact ⟨rfl, rfl⟩
  | cons e databases ih => exact ⟨congrArg (_ :: ·) ih.1, congrArg (_ :: ·) ih.2⟩

theorem not_mem_of_database? (h : c.database? p = none) : p ∉ c.providers := by
  intro hp
  obtain ⟨e, he, rfl⟩ := List.mem_map.1 hp
  exact absurd rfl (bne_iff_ne.1 (List.lookup_eq_none_iff.1 h e he))

theorem database?_of_not_mem (h : p ∉ c.providers) : c.database? p = none := by
  refine List.lookup_eq_none_iff.2 fun e he => bne_iff_ne.2 fun heq => h ?_
  rw [heq]
  exact List.mem_map_of_mem he

/-- **A question does to every database what the addresses put to it do.** -/
theorem databases_ask (hnodup : c.providers.Nodup) (query : Query) :
    (c.ask query).databases =
      c.databases.map fun (p, database) => (p, database.after (query.putTo p)) := by
  cases query with
  | all a => exact (askAll_eq a c.databases).2
  | one q a =>
    rw [ask, resolveProvider]
    cases hfound : c.database? q with
    | none =>
      refine (List.map_id c.databases).symm.trans (List.map_congr_left fun e he => ?_)
      have hne : q ≠ e.1 := fun heq =>
        not_mem_of_database? hfound (heq ▸ List.mem_map_of_mem he)
      show e = (e.1, e.2.after (if q = e.1 then [a] else []))
      rw [if_neg hne]
      rfl
    | some database =>
      refine List.map_congr_left fun e he => ?_
      show (if e.1 = q then _ else e) = (e.1, e.2.after (if q = e.1 then [a] else []))
      by_cases heq : e.1 = q
      · have hown : database = e.2 := by
          rw [← heq] at hfound
          exact Option.some_inj.1 (hfound.symm.trans (lookup_of_mem hnodup he))
        rw [if_pos heq, if_pos heq.symm, hown, heq]
        rfl
      · rw [if_neg heq, if_neg fun h => heq h.symm]
        rfl

theorem providers_ask (hnodup : c.providers.Nodup) (query : Query) :
    (c.ask query).providers = c.providers := by
  rw [providers, databases_ask hnodup, List.map_map]
  rfl

/-! ## Some questions -/

theorem databases_after (hnodup : c.providers.Nodup) (asked : List Query) :
    (c.after asked).databases =
      c.databases.map fun (p, database) =>
        (p, database.after (asked.flatMap (Query.putTo p))) := by
  induction asked generalizing c with
  | nil => exact (List.map_id c.databases).symm
  | cons query asked ih =>
    have hrest := ih (c := c.ask query) (by rwa [providers_ask hnodup])
    rw [databases_ask hnodup, List.map_map] at hrest
    refine hrest.trans (List.map_congr_left fun e _ => ?_)
    show (e.1, (e.2.after _).after _) = (e.1, e.2.after _)
    rw [List.flatMap_cons, Database.after, Database.after, Database.after, List.foldl_append]

theorem providers_after (hnodup : c.providers.Nodup) (asked : List Query) :
    (c.after asked).providers = c.providers := by
  rw [providers, databases_after hnodup, List.map_map]
  rfl

theorem resolveProvider_of_not_mem (h : p ∉ c.providers) (a : Address) :
    c.resolveProvider p a = (.error (.unknownProvider p), c, []) := by
  rw [resolveProvider, database?_of_not_mem h]

theorem resolveProvider_of_mem (hnodup : c.providers.Nodup) {database : Database}
    (h : (p, database) ∈ c.databases) (a : Address) :
    (c.resolveProvider p a).1 = .ok (database.answer a) := by
  have hfound : c.database? p = some database := lookup_of_mem hnodup h
  rw [resolveProvider, hfound]
  rfl

/-- **A catalogue of distinct providers answers as their databases do.** -/
theorem answers_of_nodup (hnodup : c.providers.Nodup) : c.Answers c.databases where
  providers_eq := rfl
  nodup := hnodup
  all asked a := by
    show (askAll a (c.after asked).databases).1 = _
    rw [(askAll_eq a _).1, databases_after hnodup, List.map_map]
    rfl
  one asked a p database h := by
    refine resolveProvider_of_mem (by rwa [providers_after hnodup]) ?_ a
    rw [databases_after hnodup]
    exact List.mem_map_of_mem h
  other asked a p h := resolveProvider_of_not_mem (by rwa [providers_after hnodup]) a

end

end IpAtlas.Catalog
