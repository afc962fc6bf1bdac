import IpAtlas.Error
import IpAtlas.Json

/-!
# Drafts of JSON texts

A JSON text is read into a draft before anyone knows what it should mean.  A draft is a tree of
values with the faults of the text left in it, where they stand, so whoever walks it in the order of
the text meets the first fault first.  Nothing follows a fault in a draft, with two exceptions:
whoever passes over a number that is too large, or over a string with half a character in it, need
not mind.

## What is here

* `Draft`, `Elements`, `Members`, `Ending` — the tree.
* `Draft.readString`, `Draft.readNumber`, `Draft.readWord` — its leaves.
* `Draft.ofChars` — the draft at the front of a text.
* `Json.draft` — the draft of a value.
-/

set_option autoImplicit false

namespace IpAtlas.Json

/-- How a list of elements or members ends. -/
inductive Ending where
  /-- With its bracket. -/
  | closed
  /-- The text ends where another element or the bracket might stand. -/
  | cut
  /-- The text ends behind a comma. -/
  | cutAfterComma
  /-- Something stands there that may not. -/
  | stray
  deriving DecidableEq, Repr

/-- The fault of an ending for someone who looks for another element there. -/
def Ending.fault? : Ending → Option Fault
  | closed => none
  | cut => some .truncated
  | cutAfterComma => some .truncated
  | stray => some .malformed

/-- Why a number cannot be read. -/
inductive NumberFault where
  | malformed
  /-- The text ends inside the number. -/
  | truncated
  /-- No number of the floating-point format comes near. -/
  | outOfRange
  deriving DecidableEq, Repr

/-- The fault of a number as a fault of its text. -/
def NumberFault.fault : NumberFault → Fault
  | malformed => .malformed
  | truncated => .truncated
  | outOfRange => .malformed

/-- A string of a JSON text: its content, or the fault for someone who wants to read it, and the
fault for someone who passes over it. -/
structure Quoted where
  content : Except Fault String
  skipFault : Option Fault := none
  deriving Repr

mutual

/-- A value of a JSON text with the faults in it. -/
inductive Draft where
  | null
  | bool (b : Bool)
  | number (n : Except NumberFault Number)
  | text (s : Quoted)
  | array (elements : Elements)
  | object (members : Members)
  /-- Something that begins no value, or a word that is none. -/
  | broken (fault : Fault)
  /-- The text ends where the value should stand. -/
  | absent

/-- Elements of an array. -/
inductive Elements where
  | ended (ending : Ending)
  | element (first : Draft) (rest : Elements)

/-- Members of an object. -/
inductive Members where
  | ended (ending : Ending)
  /-- Something else stands in the place of the first name. -/
  | notName (value : Draft)
  /-- A name, the fault if no colon follows it, and a value. -/
  | member (name : Quoted) (colon : Option Fault) (value : Draft) (rest : Members)

end

namespace Draft

/-! ## Leaves -/

/-- Whether a character is a blank of JSON. -/
def isBlank (c : Char) : Bool := c = ' ' || c = '\n' || c = '\t' || c = '\r'

/-- A text without the blanks in front. -/
def skipBlanks (cs : List Char) : List Char := cs.dropWhile isBlank

/-- Whether a character is a decimal digit. -/
def isDigit (c : Char) : Bool := '0' ≤ c && c ≤ '9'

/-- The number that four hexadecimal digits in front spell, and the rest.  A text of fewer than four
bytes ends too early, whatever it holds. -/
def readHex (cs : List Char) : Except Fault (Nat × List Char) :=
  let digits := (cs.take 4).filterMap AddressText.hexDigit?
  if digits.length = 4 then .ok (AddressText.ofDigits 16 digits, cs.drop 4)
  else if (Utf8.encode (String.ofList (cs.take 4))).length < 4 then .error .truncated
  else .error .malformed

/-- What stands in a string. -/
inductive Piece where
  /-- A character. -/
  | char (c : Char) (rest : List Char)
  /-- Half a character, or two halves that do not belong together; the fault for someone who wants
  to read it, and where someone who passes over it goes on. -/
  | half (fault : Fault) (rest : List Char)
  /-- The quote that ends the string. -/
  | quote (rest : List Char)
  | broken (fault : Fault)

/-- Where an escape by number stands for half a character: the other half must follow. -/
def secondHalf (high : Nat) (rest : List Char) : Piece :=
  match rest with
  | [] => .half .truncated rest
  | '\\' :: [] => .half .truncated rest
  | '\\' :: 'u' :: more =>
    match readHex more with
    | .error fault => .half fault rest
    | .ok (low, after) =>
      if 0xDC00 ≤ low ∧ low ≤ 0xDFFF then
        .char (Char.ofNat (0x10000 + (high - 0xD800) * 0x400 + (low - 0xDC00))) after
      else .half .malformed rest
  | _ => .half .malformed rest

/-- The character that an escape by number stands for. -/
def numbered (cs : List Char) : Piece :=
  match readHex cs with
  | .error fault => .broken fault
  | .ok (n, rest) =>
    if 0xD800 ≤ n ∧ n ≤ 0xDBFF then secondHalf n rest
    else if 0xDC00 ≤ n ∧ n ≤ 0xDFFF then .half .malformed rest
    else .char (Char.ofNat n) rest

/-- What an escape stands for, of which the backslash is read. -/
def escaped : List Char → Piece
  | [] => .broken .truncated
  | c :: cs =>
    if c = '"' || c = '\\' || c = '/' then .char c cs
    else if c = 'b' then .char '\x08' cs
    else if c = 'f' then .char '\x0C' cs
    else if c = 'n' then .char '\n' cs
    else if c = 'r' then .char '\r' cs
    else if c = 't' then .char '\t' cs
    else if c = 'u' then numbered cs
    else .broken .malformed

/-- What stands at the front of a string. -/
def piece : List Char → Piece
  | [] => .broken .truncated
  | c :: cs =>
    if c = '"' then .quote cs
    else if c = '\\' then escaped cs
    else if c.toNat < 0x20 then .broken .malformed
    else .char c cs

/-- A string of which `content` is read, in reverse, or the fault in it, and what follows.  Nothing
follows one that does not end. -/
def readStringFrom (content : Except Fault (List Char)) :
    Nat → List Char → Quoted × List Char
  | 0, _ => (⟨.error .truncated, some .truncated⟩, [])
  | fuel + 1, cs =>
    match piece cs with
    | .char c rest => readStringFrom (content.map (c :: ·)) fuel rest
    | .half fault rest =>
      readStringFrom (content.bind fun _ => .error fault) fuel rest
    | .quote rest => (⟨content.map fun cs => String.ofList cs.reverse, none⟩, rest)
    | .broken fault => (⟨content.bind fun _ => .error fault, some fault⟩, [])

/-- The string of which the first quote is read. -/
def readString (cs : List Char) : Quoted × List Char :=
  readStringFrom (.ok []) (cs.length + 1) cs

/-- A word of which the first letter is read. -/
def readWord (value : Draft) (word : List Char) : List Char → Draft × List Char
  | cs =>
    if word.isPrefixOf cs then (value, cs.drop word.length)
    else if cs.isPrefixOf word then (.broken .truncated, [])
    else (.broken .malformed, [])

/-! ## Numbers -/

/-- The digits of a number as far as they count: a whole number below 2⁶⁴ and a power of ten. -/
structure Significand where
  value : Nat := 0
  exponent : Int := 0

/-- Whole digits count until one of them would bring the number out of 64 bits; those that follow
only raise the power.  The result tells whether that came about. -/
def wholeDigits (s : Significand) : List Char → Significand × Bool
  | [] => (s, false)
  | c :: cs =>
    let next := s.value * 10 + (c.toNat - '0'.toNat)
    if next < UInt64.size then wholeDigits { s with value := next } cs
    else ({ s with exponent := s.exponent + (cs.length + 1) }, true)

/-- Digits of the fraction count until one of them would bring the number out of 64 bits; those that
follow say nothing. -/
def fractionDigits (s : Significand) : List Char → Significand
  | [] => s
  | c :: cs =>
    let next := s.value * 10 + (c.toNat - '0'.toNat)
    if next < UInt64.size then fractionDigits ⟨next, s.exponent - 1⟩ cs
    else s

/-- The floating-point number of a significand. -/
def floatOf (negative : Bool) (s : Significand) : Except NumberFault Number :=
  match (Magnitude.ofRatio s.value 1).scale? s.exponent with
  | some magnitude => .ok (.float ⟨negative, magnitude⟩)
  | none => .error .outOfRange

/-- The number that some digits spell. -/
def digitsValue (digits : List Char) : Nat :=
  digits.foldl (fun n c => 10 * n + (c.toNat - '0'.toNat)) 0

/-- The exponent of a number, of which the letter is read. -/
def readExponent (negative : Bool) (s : Significand) (cs : List Char) :
    Except NumberFault Number × List Char :=
  let (down, cs) := match cs with
    | '+' :: rest => (false, rest)
    | '-' :: rest => (true, rest)
    | _ => (false, cs)
  let digits := cs.takeWhile isDigit
  let rest := cs.drop digits.length
  if digits.isEmpty then
    (.error (if cs.isEmpty then .truncated else .malformed), [])
  else
    let e : Int := if down then -digitsValue digits else digitsValue digits
    (floatOf negative { s with exponent := s.exponent + e }, rest)

/-- What may follow the whole digits of a number: its exponent or nothing. -/
def readTail (negative : Bool) (s : Significand) (cs : List Char)
    (plain : Except NumberFault Number) : Except NumberFault Number × List Char :=
  match cs with
  | c :: rest => if c = 'e' || c = 'E' then readExponent negative s rest else (plain, cs)
  | [] => (plain, [])

/-- The fraction of a number, of which the dot is read. -/
def readFraction (negative : Bool) (s : Significand) (cs : List Char) :
    Except NumberFault Number × List Char :=
  let digits := cs.takeWhile isDigit
  let rest := cs.drop digits.length
  if digits.isEmpty then
    (.error (if cs.isEmpty then .truncated else .malformed), [])
  else
    let s := fractionDigits s digits
    readTail negative s rest (floatOf negative s)

/-- The number of whole digits alone.  Zero has no opposite among whole numbers, and a number that
is too large or too small for 64 bits is a floating-point number. -/
def wholeNumber (negative : Bool) (s : Significand) (long : Bool) : Except NumberFault Number :=
  if long then floatOf negative s
  else if !negative then .ok (.natural s.value)
  else if s.value = 0 ∨ UInt64.size / 2 < s.value then floatOf true s
  else .ok (.negative s.value)

/-- A number of which the sign is read. -/
def readNumber (negative : Bool) (cs : List Char) : Except NumberFault Number × List Char :=
  let digits := cs.takeWhile isDigit
  let rest := cs.drop digits.length
  if digits.isEmpty then (.error (if cs.isEmpty then .truncated else .malformed), [])
  else if digits.head? = some '0' ∧ 1 < digits.length then (.error .malformed, [])
  else
    let (s, long) := wholeDigits {} digits
    match rest with
    | '.' :: more => readFraction negative s more
    | _ => readTail negative s rest (wholeNumber negative s long)

/-! ## The tree -/

/-- The fault if no colon is in front, and the text behind it. -/
def readColon (cs : List Char) : Option Fault × List Char :=
  match skipBlanks cs with
  | ':' :: rest => (none, rest)
  | [] => (some .truncated, [])
  | _ => (some .malformed, [])

mutual

/-- The value at the front of a text, and what follows it. -/
def readValue : Nat → List Char → Draft × List Char
  | 0, _ => (.absent, [])
  | fuel + 1, cs =>
    match skipBlanks cs with
    | [] => (.absent, [])
    | c :: rest =>
      if c = 'n' then readWord .null ['u', 'l', 'l'] rest
      else if c = 't' then readWord (.bool true) ['r', 'u', 'e'] rest
      else if c = 'f' then readWord (.bool false) ['a', 'l', 's', 'e'] rest
      else if c = '"' then
        let (s, rest) := readString rest
        (.text s, rest)
      else if c = '-' then
        let (n, rest) := readNumber true rest
        (.number n, rest)
      else if isDigit c then
        let (n, rest) := readNumber false (c :: rest)
        (.number n, rest)
      else if c = '[' then
        let (elements, rest) := readFirstElement fuel rest
        (.array elements, rest)
      else if c = '\x7b' then
        let (members, rest) := readFirstMember fuel rest
        (.object members, rest)
      else (.broken .malformed, [])

/-- The elements of an array of which the bracket is read. -/
def readFirstElement : Nat → List Char → Elements × List Char
  | 0, _ => (.ended .cut, [])
  | fuel + 1, cs =>
    match skipBlanks cs with
    | [] => (.ended .cut, [])
    | ']' :: rest => (.ended .closed, rest)
    | cs => readElement fuel cs

/-- An element and all that follow it. -/
def readElement : Nat → List Char → Elements × List Char
  | 0, _ => (.ended .cut, [])
  | fuel + 1, cs =>
    let (first, rest) := readValue fuel cs
    let (elements, rest) := readMoreElements fuel rest
    (.element first elements, rest)

/-- What follows an element. -/
def readMoreElements : Nat → List Char → Elements × List Char
  | 0, _ => (.ended .cut, [])
  | fuel + 1, cs =>
    match skipBlanks cs with
    | [] => (.ended .cut, [])
    | ']' :: rest => (.ended .closed, rest)
    | ',' :: rest =>
      match skipBlanks rest with
      | [] => (.ended .cutAfterComma, [])
      | ']' :: _ => (.ended .stray, [])
      | rest => readElement fuel rest
    | _ => (.ended .stray, [])

/-- The members of an object of which the brace is read. -/
def readFirstMember : Nat → List Char → Members × List Char
  | 0, _ => (.ended .cut, [])
  | fuel + 1, cs =>
    match skipBlanks cs with
    | [] => (.ended .cut, [])
    | '\x7d' :: rest => (.ended .closed, rest)
    | '"' :: rest => readMember fuel rest
    | cs => (.notName (readValue fuel cs).1, [])

/-- A member of whose name the first quote is read, and all that follow it. -/
def readMember : Nat → List Char → Members × List Char
  | 0, _ => (.ended .cut, [])
  | fuel + 1, cs =>
    let (name, rest) := readString cs
    let (colon, rest) := readColon rest
    let (value, rest) := readValue fuel rest
    let (members, rest) := readMoreMembers fuel rest
    (.member name colon value members, rest)

/-- What follows a member. -/
def readMoreMembers : Nat → List Char → Members × List Char
  | 0, _ => (.ended .cut, [])
  | fuel + 1, cs =>
    match skipBlanks cs with
    | [] => (.ended .cut, [])
    | '\x7d' :: rest => (.ended .closed, rest)
    | ',' :: rest =>
      match skipBlanks rest with
      | [] => (.ended .cutAfterComma, [])
      | '"' :: rest => readMember fuel rest
      | _ => (.ended .stray, [])
    | _ => (.ended .stray, [])

end

/-- The draft at the front of a text, and what follows it.  Every step that does not read a
character is followed by one that does, with two such steps between at most. -/
def ofChars (cs : List Char) : Draft × List Char := readValue (3 * cs.length + 3) cs

/-- The draft of a text, and whether anything but blanks follows it. -/
def ofText (s : String) : Draft × Bool :=
  let (draft, rest) := ofChars s.toList
  (draft, !(skipBlanks rest).isEmpty)

end Draft

/-! ## Drafts of values -/

mutual

/-- The draft of a value, in which there are no faults. -/
def draft : Json → Draft
  | null => .null
  | bool b => .bool b
  | number n => .number (.ok n)
  | text s => .text ⟨.ok s, none⟩
  | array elements => .array (draftElements elements)
  | object members => .object (draftMembers members)

/-- The drafts of the elements of an array. -/
def draftElements : List Json → Elements
  | [] => .ended .closed
  | x :: xs => .element x.draft (draftElements xs)

/-- The drafts of the members of an object. -/
def draftMembers : List (String × Json) → Members
  | [] => .ended .closed
  | (name, x) :: rest => .member ⟨.ok name, none⟩ none x.draft (draftMembers rest)

end

end IpAtlas.Json
