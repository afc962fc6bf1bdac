import IpAtlas.IoError
import IpAtlas.Path
import IpAtlas.Record
import IpAtlas.Text.Quoted
import IpAtlas.Text.Utf8

/-!
# What can go wrong

Every failure is a cause: a constructor that carries what the message tells.  The wording of each
is given once, beside the cause.

## What is here

* `Bounds.Fault` — a pair of range bounds that cannot be read.
* `ParseError`, `ParseError.Reason` — a line that is no record.
* `Codec.Fault` — bytes that are no key or location.
* `Index.Fault` — bytes that are no index file.
* `Config.Fault`, `Json.Fault` — a configuration that cannot be used, or not be read.
* `Error`, `Error.message` — all of them together.
-/

set_option autoImplicit false

namespace IpAtlas

/-! ## Lines -/

/-- Why two range bounds cannot be read. -/
inductive Bounds.Fault where
  /-- Both look like addresses, and this one is none. -/
  | address (text : String)
  /-- Both look like numbers, and this one is none below 2¹²⁸. -/
  | number (text : String)
  /-- A number of 2³² or more where IPv4 is meant. -/
  | exceedsV4 (value : Nat)
  /-- One looks like an address and the other like a number. -/
  | mixed (first last : String)
  deriving DecidableEq, Repr

/-- The wording of a fault in two range bounds. -/
def Bounds.Fault.message : Bounds.Fault → String
  | address text => s!"invalid address {Text.quoted text}"
  | number text => s!"invalid integer address {Text.quoted text}"
  | exceedsV4 value => s!"{value} exceeds IPv4 range"
  | mixed first last => s!"mixed bound notation {Text.quoted first} / {Text.quoted last}"

/-- The wording for bounds that are crossed or of two families. -/
def Span.invalidMessage (s : Span) : String := s!"invalid range {s.first} - {s.last}"

/-- Why a line is no record. -/
inductive ParseError.Reason where
  /-- The line holds no fields. -/
  | emptyLine
  /-- Cutting the line into fields tore a character apart. -/
  | tornField (field offset : Nat)
  /-- A column that must be filled is not. -/
  | missingField (name : String) (column : Nat)
  /-- The bounds cannot be read. -/
  | bounds (fault : Bounds.Fault)
  /-- The bounds do not bound a range. -/
  | range (span : Span)
  /-- The number of a place is none. -/
  | geonameId (text : String)
  /-- A reason in the words of a reader of some other format. -/
  | other (text : String)
  deriving DecidableEq, Repr

/-- The wording of a reason. -/
def ParseError.Reason.message : ParseError.Reason → String
  | emptyLine => "empty line"
  | tornField field offset =>
    s!"malformed csv: CSV parse error: record 0 (line 1, field: {field}, byte: 0): " ++
      s!"invalid utf-8: invalid UTF-8 in field {field} near byte index {offset}"
  | missingField name column => s!"missing {name} field (column {column})"
  | bounds fault => fault.message
  | range span => span.invalidMessage
  | geonameId text => s!"invalid geoname id {Text.quoted text}"
  | other text => text

/-- A line that is no record, and why. -/
structure ParseError where
  line : Line
  reason : ParseError.Reason
  deriving DecidableEq, Repr

/-- The wording of an unreadable line. -/
def ParseError.message (e : ParseError) : String :=
  s!"line {e.line.number}: {e.reason.message}: {Text.quoted e.line.text}"

/-! ## Stored bytes -/

/-- Why bytes are no key or location. -/
inductive Codec.Fault where
  /-- A read of so many bytes at an offset goes past the end. -/
  | overrun (length offset size : Nat)
  /-- Addresses have four or sixteen bytes. -/
  | keyLength (length : Nat)
  /-- No flag has this byte. -/
  | flagTag (tag : UInt8)
  /-- A string that is not text, known when the read had come to `offset`. -/
  | text (offset : Nat) (fault : Utf8.Fault)
  deriving DecidableEq, Repr

/-- The wording of a fault in stored bytes. -/
def Codec.Fault.message : Codec.Fault → String
  | overrun length offset size =>
    s!"read of {length} bytes at offset {offset} exceeds buffer of {size}"
  | keyLength length => s!"invalid key length {length}"
  | flagTag tag => s!"invalid vpn tag {tag}"
  | text offset fault => s!"invalid utf-8 at offset {offset}: {fault.message}"

/-- Why bytes are no index file. -/
inductive Index.Fault where
  | tooSmall (size : Nat)
  | badMagic (expected found : Bytes)
  | unsupportedVersion (version : Nat)
  /-- The sections the header describes are not those of a file of this size. -/
  | sections (size records table entries : Nat)
  /-- A slot of the offset table lies outside the file. -/
  | slot (index : Nat)
  /-- An offset that points outside the records. -/
  | recordOffset (offset : Nat)
  /-- A location that is said to reach beyond the records. -/
  | location (index : Nat)
  deriving DecidableEq, Repr

/-- Bytes as a list of numbers between brackets. -/
def Bytes.listText (bs : Bytes) : String :=
  "[" ++ String.intercalate ", " (bs.map fun b => toString b.toNat) ++ "]"

/-- The wording of a fault in an index file. -/
def Index.Fault.message : Index.Fault → String
  | tooSmall size => s!"file too small: {size} bytes (need at least 40)"
  | badMagic expected found =>
    s!"bad magic: expected {expected.listText}, got {found.listText}"
  | unsupportedVersion version => s!"unsupported version {version}"
  | sections size records table entries =>
    s!"section bounds do not match file size {size} (records {records}, index {table}, " ++
      s!"entries {entries})"
  | slot index => s!"offset slot {index} out of bounds"
  | recordOffset offset => s!"record offset {offset} out of bounds"
  | location index => s!"payload of record {index} out of bounds"

/-! ## Configurations -/

/-- Why a configuration cannot be used. -/
inductive Config.Fault where
  /-- Only the built-in providers have a layout of their own. -/
  | layoutNeeded (provider : Provider)
  /-- Two providers would write one index file. -/
  | sharedIndex (owner provider : Provider) (path : Path)
  deriving DecidableEq, Repr

/-- The wording of an unusable configuration. -/
def Config.Fault.message : Config.Fault → String
  | layoutNeeded provider => s!"provider {provider} needs an explicit layout"
  | sharedIndex owner provider path =>
    s!"providers {owner} and {provider} both write the index {path}"

/-- Why a JSON text cannot be read as a value of some type. -/
inductive Json.Fault where
  /-- The text is not JSON, or not where the value may stand. -/
  | malformed
  /-- The text ends inside a value. -/
  | truncated
  /-- The text is JSON and no value of the type. -/
  | mismatch (reason : String)
  deriving DecidableEq, Repr

/-- The wording of an unreadable JSON text. -/
def Json.Fault.message : Json.Fault → String
  | malformed => "malformed JSON"
  | truncated => "JSON ends early"
  | mismatch reason => reason

/-! ## All together -/

/-- A failure of building or asking a database. -/
inductive Error where
  /-- A line is no record. -/
  | parse (error : ParseError)
  /-- A record does not start after the end of the one before. -/
  | outOfOrder (provider : Provider) (line : Nat) (previous first : Address)
  /-- A build was interrupted. -/
  | interrupted (provider : Provider)
  /-- A build was over already. -/
  | finished (provider : Provider)
  /-- Two sources were registered under one provider. -/
  | duplicateProvider (provider : Provider)
  /-- No source was registered. -/
  | noProviders
  /-- A provider was asked for that was never registered. -/
  | unknownProvider (provider : Provider)
  /-- Bounds that are crossed or of two families. -/
  | invalidRange (span : Span)
  /-- A text that is no address. -/
  | invalidAddress (text : String)
  | codec (fault : Codec.Fault)
  | index (fault : Index.Fault)
  | config (fault : Config.Fault)
  | io (error : IoError)
  | json (fault : Json.Fault)
  deriving DecidableEq, Repr

/-- The wording of a failure. -/
def Error.message : Error → String
  | parse error => error.message
  | outOfOrder provider line previous first =>
    s!"{provider}: line {line} out of order: start {first} does not follow {previous}"
  | interrupted provider => s!"{provider}: build interrupted"
  | finished provider => s!"{provider}: builder already finished"
  | duplicateProvider provider => s!"duplicate provider: {provider}"
  | noProviders => "no providers registered"
  | unknownProvider provider => s!"provider unavailable: {provider}"
  | invalidRange span => span.invalidMessage
  | invalidAddress text => s!"invalid address: {Text.quoted text}"
  | codec fault => s!"codec error: {fault.message}"
  | index fault => s!"invalid index: {fault.message}"
  | config fault => s!"config error: {fault.message}"
  | io error => error.message
  | json fault => fault.message

namespace Range

/-- The range with the given bounds, or the failure they give. -/
def ofBounds (first last : Address) : Except Error Range :=
  match ofBounds? first last with
  | some range => .ok range
  | none => .error (.invalidRange ⟨first, last⟩)

end Range

namespace Address

/-- The wording for a text that is no address, where the text itself is not shown. -/
def textFault : String := "invalid IP address syntax"

/-- The address a text spells, or the failure to be told to whoever asked for it. -/
def ofText (s : String) : Except Error Address :=
  match ofText? s with
  | some a => .ok a
  | none => .error (.invalidAddress s)

end Address

end IpAtlas
