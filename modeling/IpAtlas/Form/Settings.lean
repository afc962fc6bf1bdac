import IpAtlas.Form.Location
import IpAtlas.Overlay.VpnTable
import IpAtlas.Settings

/-!
# JSON forms of settings

Layouts and settings are objects in which everything may be left out, and is then what it is by
default.  A storage is an object that tells its type.

## What is here

* `Form.numberFamily`, `Form.policy`, `Form.layout`, `Form.vpnLayout`, `Form.storage`,
  `Form.settings` — reading.
* `Form.ofNumberFamily`, `Form.ofPolicy`, `Form.ofLayout`, `Form.ofVpnLayout`, `Form.ofStorage`,
  `Form.ofSettings` — writing.
-/

set_option autoImplicit false

namespace IpAtlas.Form

open Json (Decoder Fault Slot Shape)

/-! ## Reading -/

/-- The family of numbers. -/
def numberFamily : Decoder NumberFamily := Decoder.variant NumberFamily.named

/-- A policy. -/
def policy : Decoder Policy := Decoder.variant Policy.named

/-- A column that may be missing. -/
def column : Decoder (Option Nat) := Decoder.optional Decoder.size

/-- The shape of a structure in which everything may be left out. -/
def settled {α : Type} (title : String) (blank : α) (fields : List (Slot α)) : Shape α α :=
  { title, fields, blank, build := .ok }

/-- The shape of a layout. -/
def layoutShape : Shape Layout Layout :=
  settled "struct CsvLayout" {}
    [field "delimiter" Decoder.byte (fun x l => { l with delimiter := x }) false,
      field "start" Decoder.size (fun x l => { l with first := x }) false,
      field "end" Decoder.size (fun x l => { l with last := x }) false,
      field "integer_family" numberFamily (fun x l => { l with numbers := x }) false,
      field "country_code" column (fun x l => { l with countryCode := x }) false,
      field "geoname_id" column (fun x l => { l with geonameId := x }) false,
      field "city" column (fun x l => { l with city := x }) false,
      field "most_specific_subdivision" column
        (fun x l => { l with mostSpecificDivision := x }) false,
      field "least_specific_subdivision" column
        (fun x l => { l with leastSpecificDivision := x }) false,
      field "postal_code" column (fun x l => { l with postalCode := x }) false]

/-- A layout. -/
def layout : Decoder Layout := layoutShape.decoder

/-- The shape of the layout of a table of private networks. -/
def vpnLayoutShape : Shape VpnLayout VpnLayout :=
  settled "struct VpnLayout" {}
    [field "delimiter" Decoder.byte (fun x l => { l with delimiter := x }) false,
      field "start" Decoder.size (fun x l => { l with first := x }) false,
      field "end" Decoder.size (fun x l => { l with last := x }) false,
      field "flag" column (fun x l => { l with flag := x }) false,
      field "integer_family" numberFamily (fun x l => { l with numbers := x }) false]

/-- The layout of a table of private networks. -/
def vpnLayout : Decoder VpnLayout := vpnLayoutShape.decoder

/-- A path. -/
def path : Decoder Path := fun ctx draft => (Decoder.stringAs "path string" ctx draft).map Path.mk

/-- The types of storage. -/
inductive StorageType where
  | memory
  | file

/-- The types of storage with the names they go by. -/
def storageTypes : List (String × StorageType) := [("in_memory", .memory), ("file", .file)]

/-- The shape of a storage in an index file. -/
def fileShape : Shape (Option Path × Nat) Storage where
  title := "struct variant StorageStrategy::File"
  fields :=
    [field "path" path (fun x p => (some x, p.2)) true,
      field "cache_capacity" Decoder.size (fun x p => (p.1, x)) false]
  blank := (none, 0)
  build p := do return .file (← given "path" p.1) p.2

/-- A storage in memory, of which nothing more is to be told. -/
def memoryStorage : Decoder Storage := fun ctx draft => do
  match draft with
  | .array elements => Shape.leftover ctx 0 elements
  | _ => pure ()
  return .memory

/-- A storage. -/
def storage : Decoder Storage := fun ctx draft => do
  let (type, content) ←
    Decoder.tagged "internally tagged enum StorageStrategy" "type" storageTypes ctx draft
  match type with
  | .memory => memoryStorage.runBuffered content
  | .file => fileShape.decoder.runBuffered content

/-- The shape of the settings of a build. -/
def settingsShape : Shape Settings Settings :=
  settled "struct IngestConfig" {}
    [field "workers" Decoder.size (fun x s => { s with workers := some x }) false,
      field "batch_bytes" Decoder.size (fun x s => { s with batchBytes := x }) false,
      field "retain_original_line" Decoder.boolean (fun x s => { s with keepSource := x }) false,
      field "storage" storage (fun x s => { s with storage := x }) false]

/-- The settings of a build. -/
def settings : Decoder Settings := settingsShape.decoder

/-! ## Writing -/

/-- The name of a variant. -/
def nameOf {α : Type} [DecidableEq α] (variants : List (String × α)) (x : α) : Json :=
  .ofOption (fun e => .text e.1) (variants.find? fun e => e.2 = x)

/-- The family of numbers. -/
def ofNumberFamily (numbers : NumberFamily) : Json := nameOf NumberFamily.named numbers

/-- A policy. -/
def ofPolicy (policy : Policy) : Json := nameOf Policy.named policy

/-- A column that may be missing. -/
def ofColumn : Option Nat → Json := .ofOption .ofNat

/-- A layout. -/
def ofLayout (l : Layout) : Json :=
  .object
    [("delimiter", .ofNat l.delimiter.toNat), ("start", .ofNat l.first), ("end", .ofNat l.last),
      ("integer_family", ofNumberFamily l.numbers),
      ("country_code", ofColumn l.countryCode), ("geoname_id", ofColumn l.geonameId),
      ("city", ofColumn l.city),
      ("most_specific_subdivision", ofColumn l.mostSpecificDivision),
      ("least_specific_subdivision", ofColumn l.leastSpecificDivision),
      ("postal_code", ofColumn l.postalCode)]

/-- The layout of a table of private networks. -/
def ofVpnLayout (l : VpnLayout) : Json :=
  .object
    [("delimiter", .ofNat l.delimiter.toNat), ("start", .ofNat l.first), ("end", .ofNat l.last),
      ("flag", ofColumn l.flag), ("integer_family", ofNumberFamily l.numbers)]

/-- A path. -/
def ofPath (p : Path) : Json := .text p.text

/-- A storage. -/
def ofStorage : Storage → Json
  | .memory => .object [("type", .text "in_memory")]
  | .file path cacheCapacity =>
    .object
      [("type", .text "file"), ("path", ofPath path), ("cache_capacity", .ofNat cacheCapacity)]

/-- How the number of workers is written where it is not given. -/
def unspecified : Json := .text "default"

/-- The settings of a build. -/
def ofSettings (s : Settings) : Json :=
  .object
    [("workers", match s.workers with
        | some n => .ofNat n
        | none => unspecified),
      ("batch_bytes", .ofNat s.batchBytes), ("retain_original_line", .bool s.keepSource),
      ("storage", ofStorage s.storage)]

end IpAtlas.Form
