import IpAtlas.Proofs.Index.Lookup

/-!
# Databases that hold some entries

A database in memory and one on disk have nothing in common but what they answer.  Both hold
entries; a database that holds them answers as they do, has no remark to make, and holds them still
when it has answered.  So any number of lookups later it answers as it did at first, and two
databases of the same entries can not be told apart by looking things up.

## What is here

* `Database.Holds` — the databases of some entries, in memory and on disk.
* `Database.get_eq` — one lookup.
* `Database.after`, `Database.answers` — lookups one after the other.
* `Database.Holds.after`, `Database.Holds.answers_eq` — and what they come to.
-/

set_option autoImplicit false

namespace IpAtlas

namespace Database

/-- A database that holds some entries. -/
inductive Holds (entries : List Entry) : Database → Prop where
  | memory {ranges : Memory} (h : ranges.entries.toList = entries) : Holds entries (.memory ranges)
  | file {reader : Index.Reader} (h : reader.Serves entries) : Holds entries (.file reader)

/-- The database when some addresses have been looked up. -/
def after (database : Database) (asked : List Address) : Database :=
  asked.foldl (fun database a => (database.get a).2.1) database

/-- The answers to some addresses, looked up one after the other. -/
def answers (database : Database) : List Address → List (Option Location)
  | [] => []
  | a :: asked => (database.get a).1 :: answers (database.get a).2.1 asked

section

variable {entries : List Entry} {database : Database}

/-- **A lookup answers as the entries do**, without a remark, and the database holds them still. -/
theorem get_eq (h : database.Holds entries) (hasc : Span.Ascending (entries.map Entry.span))
    (hret : ∀ e ∈ entries, e.Retrievable) (a : Address) :
    ∃ database', database.get a = (Entry.answerOf entries a, database', []) ∧
      database'.Holds entries := by
  cases h with
  | memory h =>
    rename_i ranges
    refine ⟨.memory ranges, ?_, .memory h⟩
    subst h
    rw [get, Memory.get_eq hasc]
  | file h =>
    rename_i reader
    obtain ⟨hanswer, hserves⟩ := Index.Reader.lookup_eq h hasc hret a
    have hlookup : reader.lookup a = (.ok (Entry.answerOf entries a), (reader.lookup a).2) :=
      Prod.ext hanswer rfl
    refine ⟨.file (reader.lookup a).2, ?_, .file hserves⟩
    rw [get, Index.Reader.get, hlookup]

theorem Holds.answer_eq (h : database.Holds entries)
    (hasc : Span.Ascending (entries.map Entry.span)) (hret : ∀ e ∈ entries, e.Retrievable)
    (a : Address) : database.answer a = Entry.answerOf entries a := by
  obtain ⟨database', hget, -⟩ := get_eq h hasc hret a
  rw [answer, hget]

/-- A database holds its entries whatever it was asked. -/
theorem Holds.after (h : database.Holds entries)
    (hasc : Span.Ascending (entries.map Entry.span)) (hret : ∀ e ∈ entries, e.Retrievable)
    (asked : List Address) : (database.after asked).Holds entries := by
  induction asked generalizing database with
  | nil => exact h
  | cons a asked ih =>
    obtain ⟨database', hget, h'⟩ := get_eq h hasc hret a
    rw [Database.after, List.foldl_cons, hget]
    exact ih h'

/-- **Any sequence of lookups gets the answers of the entries.** -/
theorem Holds.answers_eq (h : database.Holds entries)
    (hasc : Span.Ascending (entries.map Entry.span)) (hret : ∀ e ∈ entries, e.Retrievable)
    (asked : List Address) : database.answers asked = asked.map (Entry.answerOf entries) := by
  induction asked generalizing database with
  | nil => rfl
  | cons a asked ih =>
    obtain ⟨database', hget, h'⟩ := get_eq h hasc hret a
    rw [answers, hget, List.map_cons]
    exact congrArg _ (ih h')

theorem Holds.rangeCount?_eq (h : database.Holds entries) :
    database.rangeCount? = some entries.length := by
  cases h with
  | memory h =>
    subst h
    simp [rangeCount?, Memory.size]
  | file h =>
    rw [rangeCount?, Index.Reader.size, h.header]
    rfl

end

end Database

end IpAtlas
