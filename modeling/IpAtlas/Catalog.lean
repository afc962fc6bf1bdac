import IpAtlas.LineSource

/-!
# Catalogues of providers

A catalogue answers an address with what each of its providers knows.  Providers are registered
under their names, with a database that is there already or with a line source to build one from.

Registrations are checked before anything is read: there must be one, no two may have the same name,
and no two line sources may write the same index file.  Then all sources are built, and if some
fail, the first of them in the order of registration gives the error.

## What is here

* `Registration`, `conflict?` — what is registered, and what may not be registered together.
* `Catalog.build` — a catalogue from registrations.
* `Catalog.resolve`, `Catalog.resolveText`, `Catalog.resolveProvider` — its answers.
-/

set_option autoImplicit false

namespace IpAtlas

/-- What answers for a provider. -/
inductive Source (σ : Type) where
  | database (database : Database)
  | lines (source : LineSource σ)

/-- A source under the name of its provider. -/
structure Registration (σ : Type) where
  provider : Provider
  source : Source σ

/-- Databases by provider, in the order of registration. -/
structure Catalog where
  databases : List (Provider × Database)

namespace Registration

variable {σ : Type}

/-- The index file that a registration writes, if it writes one. -/
def indexPath? (r : Registration σ) : Option Path :=
  match r.source with
  | .lines source =>
    match source.settings.storage with
    | .file path _ => some path
    | .memory => none
  | .database _ => none

/-- The registration among earlier ones that writes the same index file. -/
def owner? (earlier : List (Registration σ)) (path : Path) : Option (Registration σ) :=
  earlier.find? fun r => r.indexPath?.any path.same

/-- What is wrong with a registration after earlier ones. -/
def fault? (earlier : List (Registration σ)) (r : Registration σ) : Option Error :=
  if earlier.any (·.provider = r.provider) then some (.duplicateProvider r.provider)
  else do
    let path ← r.indexPath?
    let owner ← owner? earlier path
    some (.config (.sharedIndex owner.provider r.provider path))

/-- What is wrong with the first registration of which something is, after earlier ones. -/
def conflict? (earlier : List (Registration σ)) : List (Registration σ) → Option Error
  | [] => none
  | r :: rs => (r.fault? earlier).or (conflict? (earlier ++ [r]) rs)

/-- The database of a registration. -/
def build (r : Registration σ) (interrupted : Bool) (disk : Disk) : BuildOutcome :=
  match r.source with
  | .database database => { result := .ok database, disk, interrupted }
  | .lines source => source.build r.provider interrupted disk

end Registration

namespace Catalog

/-! ## Building -/

/-- What building a catalogue comes to. -/
structure Outcome where
  result : Except Error Catalog
  disk : Disk
  remarks : Journal := []

/-- What the registrations come to, one after the other, and the disk and the remarks then. -/
def buildAll {σ : Type} (interrupted : Bool) (disk : Disk) :
    List (Registration σ) → List (Except Error (Provider × Database)) × Disk × Journal
  | [] => ([], disk, [])
  | r :: rs =>
    let outcome := r.build interrupted disk
    let (results, disk, remarks) := buildAll outcome.interrupted outcome.disk rs
    (outcome.result.map (fun database => (r.provider, database)) :: results, disk,
      outcome.remarks ++ remarks)

/-- All values, or the first error. -/
def collect {ε β : Type} : List (Except ε β) → Except ε (List β)
  | [] => .ok []
  | .ok x :: results => (collect results).map (x :: ·)
  | .error e :: _ => .error e

/-- The catalogue of some registrations.  `interrupted` tells whether an interruption was asked for
already. -/
def build {σ : Type} (registrations : List (Registration σ)) (interrupted : Bool) (disk : Disk) :
    Outcome :=
  if registrations.isEmpty then { result := .error .noProviders, disk }
  else
    match Registration.conflict? [] registrations with
    | some e => { result := .error e, disk }
    | none =>
      let (results, disk, remarks) := buildAll interrupted disk registrations
      let opening : Remark := ⟨.debug, s!"building {registrations.length} providers"⟩
      { result := (collect results).map Catalog.mk, disk, remarks := opening :: remarks }

/-! ## Answers -/

/-- The providers in the order of registration. -/
def providers (c : Catalog) : List Provider := c.databases.map (·.1)

/-- The database of a provider. -/
def database? (c : Catalog) (p : Provider) : Option Database := c.databases.lookup p

/-- A catalogue as it is shown for debugging. -/
def summary (c : Catalog) : String :=
  let names := c.providers.map fun p => s!"ProviderKey({Text.quoted p.name})"
  "Resolver \x7b providers: [" ++ String.intercalate ", " names ++ "] \x7d"

/-- What every database answers, the databases then, and the remarks made. -/
def askAll (a : Address) :
    List (Provider × Database) →
      List (Provider × Option Location) × List (Provider × Database) × Journal
  | [] => ([], [], [])
  | (p, database) :: databases =>
    let (location, database, remarks) := database.get a
    let (answers, databases, more) := askAll a databases
    ((p, location) :: answers, (p, database) :: databases, remarks ++ more)

/-- What every provider knows of an address. -/
def resolve (c : Catalog) (a : Address) : List (Provider × Option Location) × Catalog × Journal :=
  let (answers, databases, remarks) := askAll a c.databases
  (answers, ⟨databases⟩, remarks)

/-- What every provider knows of the address that a text spells. -/
def resolveText (c : Catalog) (s : String) :
    Except Error (List (Provider × Option Location)) × Catalog × Journal :=
  match Address.ofText s with
  | .ok a =>
    let (answers, c, remarks) := c.resolve a
    (.ok answers, c, remarks)
  | .error e => (.error e, c, [])

/-- Databases with another in the place of that of a provider. -/
def replace (p : Provider) (database : Database) (databases : List (Provider × Database)) :
    List (Provider × Database) :=
  databases.map fun e => if e.1 = p then (p, database) else e

/-- What one provider knows of an address. -/
def resolveProvider (c : Catalog) (p : Provider) (a : Address) :
    Except Error (Option Location) × Catalog × Journal :=
  match c.database? p with
  | some database =>
    let (location, database, remarks) := database.get a
    (.ok location, ⟨replace p database c.databases⟩, remarks)
  | none => (.error (.unknownProvider p), c, [])

end Catalog

end IpAtlas
