import IpAtlas.Json.Draft

/-!
# Reading values of a type

A decoder reads a value of a type from a draft.  It walks the draft in the order of the text and
fails at the first fault, which may be one of the text or that the draft says something else than
was expected.

A structure is given as an object, with members in any order, or as an array, with its fields in
their order.  Members that no field is named for are passed over; so is nothing in an array.

Drafts come from three origins, which differ in small things.  A draft of a text may have faults,
and containers in it may not be nested too deeply.  A draft of a value has no faults, and its
objects are maps.  A draft of something that was buffered while a text was read has no faults
either.

## What is here

* `Origin`, `Context`, `Decoder` — what a decoder is.
* `Decoder.string`, `Decoder.natural`, `Decoder.boolean`, `Decoder.optional`, `Decoder.list`,
  `Decoder.variant` — decoders of simple types.
* `Draft.skip`, `Draft.buffer` — passing over a draft, and keeping it.
* `Slot`, `Shape`, `Shape.decoder` — structures.
* `Decoder.tagged` — one of several structures, told by a member.
* `Decoder.runText`, `Decoder.runValue` — running a decoder.
-/

set_option autoImplicit false

namespace IpAtlas.Json

/-- Where a draft comes from. -/
inductive Origin where
  | text
  | value
  | buffered
  deriving DecidableEq, Repr

/-- Where a draft comes from, and how many containers it is in. -/
structure Context where
  origin : Origin
  depth : Nat := 0
  deriving Repr

/-- How deep containers may be nested in a text, less one. -/
def maxDepth : Nat := 127

/-- The context inside a container. -/
def Context.inside (ctx : Context) : Except Fault Context :=
  if ctx.origin = .text ∧ maxDepth ≤ ctx.depth then .error .malformed
  else .ok { ctx with depth := ctx.depth + 1 }

/-- Reads a value of a type. -/
abbrev Decoder (α : Type) := Context → Draft → Except Fault α

/-! ## Faults -/

/-- How a number is shown in a fault. -/
def Number.describe : Number → String
  | float x => s!"floating point `{x.toText}`"
  | n => s!"integer `{n.toText}`"

/-- The fault that something has the wrong type. -/
def Fault.wrongType (found expected : String) : Fault :=
  .mismatch s!"invalid type: {found}, expected {expected}"

/-- The fault that something of the right type is out of range. -/
def Fault.wrongValue (found expected : String) : Fault :=
  .mismatch s!"invalid value: {found}, expected {expected}"

/-- The fault that a list has the wrong length. -/
def Fault.wrongLength (length : Nat) (expected : String) : Fault :=
  .mismatch s!"invalid length {length}, expected {expected}"

/-- The fault that a member is missing. -/
def Fault.missing (name : String) : Fault := .mismatch s!"missing field `{name}`"

/-- The fault that a member is there twice. -/
def Fault.duplicate (name : String) : Fault := .mismatch s!"duplicate field `{name}`"

/-- A number of things. -/
def counted (count : Nat) : String := if count = 1 then "1 element" else s!"{count} elements"

/-- A choice of names. -/
def choice (names : List String) : String :=
  let quoted := names.map fun name => s!"`{name}`"
  match quoted with
  | [a] => a
  | [a, b] => s!"{a} or {b}"
  | _ => "one of " ++ String.intercalate ", " quoted

/-- The fault of a draft for someone who expects something else than it says. -/
def Draft.mismatch (expected : String) : Draft → Fault
  | null => .wrongType "null" expected
  | bool b => .wrongType s!"boolean `{b}`" expected
  | number (.ok n) => .wrongType n.describe expected
  | number (.error fault) => fault.fault
  | text s =>
    match s.content with
    | .ok s => .wrongType s!"string {Text.quoted s}" expected
    | .error fault => fault
  | array _ => .wrongType "sequence" expected
  | object _ => .wrongType "map" expected
  | broken fault => fault
  | absent => .truncated

/-- Fails if there is a fault. -/
def refuse : Option Fault → Except Fault Unit
  | none => .ok ()
  | some fault => .error fault

/-! ## Passing over -/

mutual

/-- Passes over a draft.  A number that ends too early counts as malformed here. -/
def Draft.skip : Draft → Except Fault Unit
  | .null => .ok ()
  | .bool _ => .ok ()
  | .number (.ok _) => .ok ()
  | .number (.error .outOfRange) => .ok ()
  | .number (.error _) => .error .malformed
  | .text s => refuse s.skipFault
  | .array elements => elements.skip
  | .object members => members.skip
  | .broken fault => .error fault
  | .absent => .error .truncated

/-- Passes over elements. -/
def Elements.skip : Elements → Except Fault Unit
  | .ended ending => refuse ending.fault?
  | .element first rest =>
    match first.skip with
    | .ok () => rest.skip
    | .error fault => .error fault

/-- Passes over members. -/
def Members.skip : Members → Except Fault Unit
  | .ended ending => refuse ending.fault?
  | .notName _ => .error .malformed
  | .member name colon value rest =>
    match refuse name.skipFault, refuse colon, value.skip with
    | .ok (), .ok (), .ok () => rest.skip
    | .error fault, _, _ => .error fault
    | _, .error fault, _ => .error fault
    | _, _, .error fault => .error fault

end

/-! ## Keeping for later -/

mutual

/-- The value that a draft says. -/
def Draft.buffer (ctx : Context) : Draft → Except Fault Json
  | .null => .ok .null
  | .bool b => .ok (.bool b)
  | .number n => (n.map .number).mapError NumberFault.fault
  | .text s => s.content.map .text
  | .array elements => do return .array (← elements.buffer (← ctx.inside))
  | .object members => do return .object (← members.buffer (← ctx.inside))
  | .broken fault => .error fault
  | .absent => .error .truncated

/-- The values that elements say. -/
def Elements.buffer (ctx : Context) : Elements → Except Fault (List Json)
  | .ended ending => do
    refuse ending.fault?
    return []
  | .element first rest => do return (← first.buffer ctx) :: (← rest.buffer ctx)

/-- The values that members say. -/
def Members.buffer (ctx : Context) : Members → Except Fault (List (String × Json))
  | .ended ending => do
    refuse ending.fault?
    return []
  | .notName _ => .error .malformed
  | .member name colon value rest => do
    let name ← name.content
    refuse colon
    let x ← value.buffer ctx
    return (name, x) :: (← rest.buffer ctx)

end

/-! ## Simple types -/

namespace Decoder

variable {α : Type}

/-- A string; `expected` is how it is called. -/
def stringAs (expected : String) : Decoder String := fun _ draft =>
  match draft with
  | .text s => s.content
  | _ => .error (draft.mismatch expected)

/-- A string. -/
def string : Decoder String := stringAs "a string"

/-- A whole number below a bound; `name` is how its type is called. -/
def natural (bound : Nat) (name : String) : Decoder Nat := fun _ draft =>
  match draft with
  | .number (.ok (.natural n)) =>
    if n < bound then .ok n else .error (.wrongValue s!"integer `{n}`" name)
  | .number (.ok (.negative n)) => .error (.wrongValue s!"integer `-{n}`" name)
  | _ => .error (draft.mismatch name)

/-- A number that counts something. -/
def size : Decoder Nat := natural UInt64.size "usize"

/-- A byte. -/
def byte : Decoder UInt8 := fun ctx draft => (natural 256 "u8" ctx draft).map UInt8.ofNat

/-- A yes or a no. -/
def boolean : Decoder Bool := fun _ draft =>
  match draft with
  | .bool b => .ok b
  | _ => .error (draft.mismatch "a boolean")

/-- A value or null. -/
def optional (decode : Decoder α) : Decoder (Option α) := fun ctx draft =>
  match draft with
  | .null => .ok none
  | _ => (decode ctx draft).map some

/-- Elements, each read alike. -/
def elements (decode : Decoder α) (ctx : Context) : Elements → Except Fault (List α)
  | .ended ending => do
    refuse ending.fault?
    return []
  | .element first rest => do return (← decode ctx first) :: (← elements decode ctx rest)

/-- A list. -/
def list (decode : Decoder α) : Decoder (List α) := fun ctx draft =>
  match draft with
  | .array xs => do elements decode (← ctx.inside) xs
  | _ => .error (draft.mismatch "a sequence")

/-! ## Names of variants -/

/-- The variant of a name. -/
def named (variants : List (String × α)) (name : String) : Except Fault α :=
  match variants.lookup name with
  | some x => .ok x
  | none =>
    .error (.mismatch s!"unknown variant `{name}`, expected {choice (variants.map Prod.fst)}")

/-- The name of a variant. -/
def variantName (variants : List (String × α)) : Decoder α := fun ctx draft => do
  named variants (← stringAs "variant identifier" ctx draft)

/-- What a variant without content has for content. -/
def unit : Draft → Except Fault Unit
  | .null => .ok ()
  | draft => .error (draft.mismatch "unit")

/-- The fault if an object of a text goes on after its only member. -/
def closeVariant : Members → Except Fault Unit
  | .ended .closed => .ok ()
  | .ended .cut => .error .truncated
  | _ => .error .malformed

/-- A variant as the only member of an object. -/
def variantMember (variants : List (String × α)) (ctx : Context) :
    Members → Except Fault α
  | .ended .cut => .error .truncated
  | .ended _ => .error .malformed
  | .notName value => variantName variants ctx value
  | .member name colon value rest => do
    let x ← named variants (← name.content)
    refuse colon
    unit value
    closeVariant rest
    return x

/-- A variant as the only member of an object that is a map. -/
def variantEntry (variants : List (String × α)) : Members → Except Fault α
  | .member name _ value (.ended _) => do
    let x ← named variants (← name.content)
    unit value
    return x
  | _ => .error (.wrongValue "map" "map with a single key")

/-- One of several variants without content: its name, or an object with its name and null. -/
def variant (variants : List (String × α)) : Decoder α := fun ctx draft =>
  match ctx.origin, draft with
  | _, .text s => do named variants (← s.content)
  | .text, .object members => do variantMember variants (← ctx.inside) members
  | .text, .absent => .error .truncated
  | .text, _ => .error .malformed
  | _, .object members => variantEntry variants members
  | _, _ => .error (draft.mismatch "string or map")

end Decoder

/-! ## Structures -/

/-- A field of a structure that is filled in step by step. -/
structure Slot (π : Type) where
  name : String
  /-- Whether an array must be long enough to have it. -/
  needed : Bool := false
  read : Decoder (π → π)

/-- A structure: how it is called, its fields, what it is before any of them is read, and what
becomes of it in the end, which may be that a field is missing. -/
structure Shape (π α : Type) where
  title : String
  fields : List (Slot π)
  blank : π
  build : π → Except Fault α

/-- How many elements there are. -/
def Elements.length : Elements → Nat
  | .ended _ => 0
  | .element _ rest => rest.length + 1

namespace Shape

variable {π α : Type}

/-- What is left of an array after the last field: it should be nothing. -/
def leftover (ctx : Context) (read : Nat) (rest : Elements) : Except Fault Unit :=
  match ctx.origin, rest with
  | .text, .ended .closed => .ok ()
  | .text, .ended .cut => .error .truncated
  | .text, _ => .error .malformed
  | _, .ended _ => .ok ()
  | .value, _ => .error (.wrongLength (read + rest.length) "fewer elements in array")
  | .buffered, _ =>
    .error (.wrongLength (read + rest.length) s!"{counted read} in sequence")

/-- Fields from the elements of an array, of which `read` are read already. -/
def fromElements (shape : Shape π α) (ctx : Context) (read : Nat) (p : π) :
    List (Slot π) → Elements → Except Fault π
  | [], rest => do
    leftover ctx read rest
    return p
  | field :: fields, .element first rest => do
    let set ← field.read ctx first
    fromElements shape ctx (read + 1) (set p) fields rest
  | field :: fields, .ended ending => do
    refuse ending.fault?
    match (field :: fields).findIdx? (·.needed) with
    | some i =>
      throw (.wrongLength (read + i) s!"{shape.title} with {counted shape.fields.length}")
    | none => return p

/-- Fields from the members of an object, where those of the names `seen` are read already. -/
def fromMembers (shape : Shape π α) (ctx : Context) (seen : List String) (p : π) :
    Members → Except Fault π
  | .ended ending => do
    refuse ending.fault?
    return p
  | .notName _ => .error .malformed
  | .member name colon value rest => do
    let name ← name.content
    match shape.fields.find? fun field => field.name = name with
    | none =>
      refuse colon
      value.skip
      fromMembers shape ctx seen p rest
    | some field =>
      if seen.contains name then throw (.duplicate name)
      refuse colon
      let set ← field.read ctx value
      fromMembers shape ctx (name :: seen) (set p) rest

/-- Reads a structure. -/
def decoder (shape : Shape π α) : Decoder α := fun ctx draft =>
  match draft with
  | .array elements => do
    shape.build (← shape.fromElements (← ctx.inside) 0 shape.blank shape.fields elements)
  | .object members => do
    shape.build (← shape.fromMembers (← ctx.inside) [] shape.blank members)
  | _ => .error (draft.mismatch shape.title)

end Shape

/-! ## Structures told by a member -/

namespace Decoder

variable {α : Type}

/-- The variant that the member `tag` names, and the other members. -/
def taggedMembers (tag : String) (variants : List (String × α)) (ctx : Context)
    (found : Option α) (others : List (String × Json)) :
    Members → Except Fault (α × List (String × Json))
  | .ended ending => do
    refuse ending.fault?
    match found with
    | some x => return (x, others.reverse)
    | none => throw (.missing tag)
  | .notName _ => .error .malformed
  | .member name colon value rest => do
    let name ← name.content
    if name = tag then
      if found.isSome then throw (.duplicate tag)
      refuse colon
      let x ← variantName variants ctx value
      taggedMembers tag variants ctx (some x) others rest
    else
      refuse colon
      let x ← value.buffer ctx
      taggedMembers tag variants ctx found ((name, x) :: others) rest

/-- The variant that the first element names, and the other elements. -/
def taggedElements (tag : String) (variants : List (String × α)) (ctx : Context) :
    Elements → Except Fault (α × List Json)
  | .ended ending => do
    refuse ending.fault?
    throw (.missing tag)
  | .element first rest => do
    let x ← variantName variants ctx first
    return (x, ← rest.buffer ctx)

/-- One of several structures, told by the member `tag` or the first element, and what else is
there, buffered. -/
def tagged (title tag : String) (variants : List (String × α)) : Decoder (α × Draft) :=
  fun ctx draft =>
    match draft with
    | .array elements => do
      let (x, content) ← taggedElements tag variants (← ctx.inside) elements
      return (x, (Json.array content).draft)
    | .object members => do
      let (x, content) ← taggedMembers tag variants (← ctx.inside) none [] members
      return (x, (Json.object content).draft)
    | _ => .error (draft.mismatch title)

end Decoder

/-! ## Values as maps -/

/-- Members in ascending order of their names, the last of one name only. -/
def normalMembers (members : List (String × Json)) : List (String × Json) :=
  let latest := members.zipIdx.filter fun e =>
    !(members.drop (e.2 + 1)).any fun later => later.1 = e.1.1
  (latest.map (·.1)).mergeSort fun a b => a.1 ≤ b.1

mutual

/-- A value whose objects are maps. -/
def normal : Json → Json
  | array elements => array (normalList elements)
  | object members => object (normalMembers (normalValues members))
  | x => x

/-- Values whose objects are maps. -/
def normalList : List Json → List Json
  | [] => []
  | x :: xs => x.normal :: normalList xs

/-- Members whose values' objects are maps. -/
def normalValues : List (String × Json) → List (String × Json)
  | [] => []
  | (name, x) :: rest => (name, x.normal) :: normalValues rest

end

/-! ## Running -/

namespace Decoder

variable {α : Type}

/-- The value of a type that a whole text says. -/
def runText (decode : Decoder α) (s : String) : Except Fault α := do
  let (draft, more) := Draft.ofText s
  let x ← decode { origin := .text } draft
  if more then throw .malformed
  return x

/-- The value of a type that a value says. -/
def runValue (decode : Decoder α) (x : Json) : Except Fault α :=
  decode { origin := .value } x.normal.draft

/-- The value of a type that something buffered says. -/
def runBuffered (decode : Decoder α) (draft : Draft) : Except Fault α :=
  decode { origin := .buffered } draft

/-- Any value. -/
def any : Decoder Json := fun ctx draft => draft.buffer ctx

end Decoder

end IpAtlas.Json
