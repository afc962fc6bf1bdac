import IpAtlas.Catalog
import IpAtlas.Form.Settings

/-!
# Configurations

A configuration is a JSON object that lists providers with their sources.  A provider may have a
layout and settings of its own; without a layout it must be one of the built-in providers, and
without settings those of the configuration count.

In a file, relative paths are meant from the directory of the file.  The path of standard input
stays what it is.

## What is here

* `Config`, `Config.Item` — a configuration and one of its providers.
* `Config.Item.resolvedLayout`, `Config.settingsFor` — what counts for a provider.
* `Config.ofText`, `Config.load` — reading, from a text and from a file.
* `Config.registrations` — what to build a catalogue from.
-/

set_option autoImplicit false

namespace IpAtlas

/-- One provider of a configuration. -/
structure Config.Item where
  provider : Provider
  path : Path
  layout : Option Layout := none
  vpnSources : List Path := []
  vpnLayout : VpnLayout := {}
  settings : Option Settings := none
  deriving DecidableEq, Repr

/-- Providers in the order of registration, and the settings of those that have none. -/
structure Config where
  providers : List Config.Item
  defaults : Settings := {}
  deriving DecidableEq, Repr

namespace Config

/-! ## JSON form -/

open Json (Decoder Fault Shape)

/-- A provider that is being read: its name, its path, and what it is once there are both. -/
structure Item.Parts where
  provider : Option Provider := none
  path : Option Path := none
  item : Provider → Path → Item := fun provider path => { provider, path }

/-- A field that changes a provider. -/
def Item.field {α : Type} (name : String) (decode : Decoder α) (put : α → Item → Item) :
    Json.Slot Item.Parts :=
  Form.field name decode
    (fun x p => { p with item := fun provider path => put x (p.item provider path) }) false

/-- The shape of a provider. -/
def Item.shape : Shape Item.Parts Item where
  title := "struct ProviderConfig"
  fields :=
    [Form.field "name" Form.provider (fun x p => { p with provider := some x }) true,
      Form.field "path" Form.path (fun x p => { p with path := some x }) true,
      Item.field "layout" (Decoder.optional Form.layout) (fun x i => { i with layout := x }),
      Item.field "vpn_sources" (Decoder.list Form.path) (fun x i => { i with vpnSources := x }),
      Item.field "vpn_layout" Form.vpnLayout (fun x i => { i with vpnLayout := x }),
      Item.field "ingest" (Decoder.optional Form.settings) (fun x i => { i with settings := x })]
  blank := {}
  build p := do
    return p.item (← Form.given "name" p.provider) (← Form.given "path" p.path)

/-- Reads a provider. -/
def Item.decoder : Decoder Item := Item.shape.decoder

/-- The shape of a configuration. -/
def shape : Shape (Option (List Item) × Settings) Config where
  title := "struct ResolverConfig"
  fields :=
    [Form.field "providers" (Decoder.list Item.decoder) (fun x p => (some x, p.2)) true,
      Form.field "defaults" Form.settings (fun x p => (p.1, x)) false]
  blank := (none, {})
  build p := do return ⟨← Form.given "providers" p.1, p.2⟩

/-- Reads a configuration. -/
def decoder : Decoder Config := shape.decoder

/-- Writes a provider. -/
def Item.toJson (i : Item) : Json :=
  .object
    [("name", Form.ofProvider i.provider), ("path", Form.ofPath i.path),
      ("layout", .ofOption Form.ofLayout i.layout),
      ("vpn_sources", .array (i.vpnSources.map Form.ofPath)),
      ("vpn_layout", Form.ofVpnLayout i.vpnLayout),
      ("ingest", .ofOption Form.ofSettings i.settings)]

/-- Writes a configuration. -/
def toJson (c : Config) : Json :=
  .object
    [("providers", .array (c.providers.map Item.toJson)), ("defaults", Form.ofSettings c.defaults)]

/-! ## What counts for a provider -/

/-- The layout of a provider's source. -/
def Item.resolvedLayout (i : Item) : Except Error Layout :=
  match i.layout.or (Layout.ofProvider? i.provider) with
  | some layout => .ok layout
  | none => .error (.config (.layoutNeeded i.provider))

/-- The settings for a provider. -/
def settingsFor (c : Config) (i : Item) : Settings := i.settings.getD c.defaults

/-! ## Files -/

/-- A path that is meant from a directory. -/
def rebasePath (base p : Path) : Path :=
  if p.isAbsolute ∨ p = .standardInput then p else base.join p

/-- A storage whose path is meant from a directory. -/
def rebaseStorage (base : Path) : Storage → Storage
  | .memory => .memory
  | .file path cacheCapacity => .file (rebasePath base path) cacheCapacity

/-- Settings whose path is meant from a directory. -/
def rebaseSettings (base : Path) (s : Settings) : Settings :=
  { s with storage := rebaseStorage base s.storage }

/-- A provider whose paths are meant from a directory. -/
def Item.rebase (base : Path) (i : Item) : Item :=
  { i with
    path := rebasePath base i.path
    vpnSources := i.vpnSources.map (rebasePath base)
    settings := i.settings.map (rebaseSettings base) }

/-- A configuration whose paths are meant from a directory. -/
def rebase (base : Path) (c : Config) : Config :=
  { providers := c.providers.map (Item.rebase base)
    defaults := rebaseSettings base c.defaults }

/-- The configuration that a text says. -/
def ofText (s : String) : Except Error Config := (decoder.runText s).mapError .json

/-- The text of a file. -/
def readText (disk : Disk) (path : Path) : Except IoError String := do
  let bytes ← (← disk.read path).contents
  match Utf8.decode bytes with
  | .ok s => return s
  | .error _ => throw .notText

/-- The configuration in a file. -/
def load (disk : Disk) (path : Path) : Except Error Config := do
  let text ← (readText disk path).mapError .io
  let config ← ofText text
  match path.parent? with
  | some base => return config.rebase base
  | none => return config

/-! ## Building -/

/-- What is registered for a provider. -/
def registration {σ : Type} (c : Config) (listener : Listener σ) (state : σ) (i : Item) :
    Except Error (Registration σ) := do
  let layout ← i.resolvedLayout
  return {
    provider := i.provider
    source := .lines {
      path := i.path
      reader := layout.reader
      settings := c.settingsFor i
      vpnSources := i.vpnSources
      vpnLayout := i.vpnLayout
      listener
      state } }

/-- What is registered for the providers of a configuration, who all have the same listener. -/
def registrations {σ : Type} (c : Config) (listener : Listener σ) (state : σ) :
    Except Error (List (Registration σ)) :=
  c.providers.mapM (c.registration listener state)

end Config

end IpAtlas
