/-!
# Reading bytes as UTF-8

Bytes become text in two ways.  Stored strings must be well formed, and a fault is told with the
place where it starts and, if the bytes do not merely end too early, the number of bytes that cannot
belong to a character.  Source lines are read whatever they hold: each such group of bytes becomes
one replacement character.

Both rest on the same view of the front of a byte string.  After a lead byte the second byte is
held to the range that rules out overlong forms, surrogates and numbers above U+10FFFF, and the
group of bytes that cannot be a character ends before the first byte that does not fit.

## What is here

* `Head`, `head` — the first character of some bytes, or the first group that is none.
* `Fault`, `decode` — strict reading.
* `decodeLossy` — reading with replacement.
* `encode` — the bytes of a text.
-/

set_option autoImplicit false

namespace IpAtlas.Utf8

/-- What stands at the front of some bytes. -/
inductive Head where
  /-- A character, then the rest. -/
  | char (c : Char) (rest : List UInt8)
  /-- So many bytes that cannot be a character, then the rest. -/
  | invalid (length : Nat) (rest : List UInt8)
  /-- The bytes end inside a character. -/
  | incomplete

/-- Reads `need` further bytes of a character, the next of them between `low` and `high`, after
`taken` bytes that are worth `value`. -/
def continuation (need : Nat) (low high : UInt8) (value taken : Nat) (bytes : List UInt8) : Head :=
  match need, bytes with
  | 0, rest => .char (Char.ofNat value) rest
  | _ + 1, [] => .incomplete
  | more + 1, b :: rest =>
    if low ≤ b ∧ b ≤ high then
      continuation more 0x80 0xBF (64 * value + b.toNat % 64) (taken + 1) rest
    else .invalid taken (b :: rest)

/-- The front of the bytes `b :: rest`. -/
def head (b : UInt8) (rest : List UInt8) : Head :=
  if b < 0x80 then .char (Char.ofNat b.toNat) rest
  else if 0xC2 ≤ b ∧ b ≤ 0xDF then continuation 1 0x80 0xBF (b.toNat % 32) 1 rest
  else if 0xE0 ≤ b ∧ b ≤ 0xEF then
    let low := if b = 0xE0 then 0xA0 else 0x80
    let high := if b = 0xED then 0x9F else 0xBF
    continuation 2 low high (b.toNat % 16) 1 rest
  else if 0xF0 ≤ b ∧ b ≤ 0xF4 then
    let low := if b = 0xF0 then 0x90 else 0x80
    let high := if b = 0xF4 then 0x8F else 0xBF
    continuation 3 low high (b.toNat % 8) 1 rest
  else .invalid 1 rest

/-- The bytes after the front, if the front does not swallow them all. -/
def Head.rest? : Head → Option (List UInt8)
  | .char _ rest => some rest
  | .invalid _ rest => some rest
  | .incomplete => none

theorem continuation_rest_length (need : Nat) (low high : UInt8) (value taken : Nat)
    (bytes rest : List UInt8) (h : (continuation need low high value taken bytes).rest? = some rest) :
    rest.length ≤ bytes.length := by
  fun_induction continuation need low high value taken bytes with
  | case1 => simp [Head.rest?] at h; simp [h]
  | case2 => simp [Head.rest?] at h
  | case3 _ _ _ _ _ _ _ _ ih => have := ih h; simp; omega
  | case4 => simp [Head.rest?] at h; simp [← h]

theorem head_rest_length {b : UInt8} {bytes rest : List UInt8}
    (h : (head b bytes).rest? = some rest) : rest.length ≤ bytes.length := by
  unfold head at h
  dsimp only at h
  split at h
  · simp [Head.rest?] at h; simp [h]
  split at h
  · exact continuation_rest_length _ _ _ _ _ _ _ h
  split at h
  · exact continuation_rest_length _ _ _ _ _ _ _ h
  split at h
  · exact continuation_rest_length _ _ _ _ _ _ _ h
  · simp [Head.rest?] at h; simp [h]

/-- Where bytes stop being UTF-8, and for how many bytes; no length when they merely end. -/
structure Fault where
  offset : Nat
  length : Option Nat
  deriving DecidableEq, Repr

/-- The wording of a fault. -/
def Fault.message (fault : Fault) : String :=
  match fault.length with
  | some n => s!"invalid utf-8 sequence of {n} bytes from index {fault.offset}"
  | none => s!"incomplete utf-8 byte sequence from index {fault.offset}"

/-- The first fault of some bytes that follow `offset` others. -/
def faultFrom (offset : Nat) (bytes : List UInt8) : Option Fault :=
  match bytes with
  | [] => none
  | b :: tail =>
    match h : head b tail with
    | .char _ rest =>
      have := head_rest_length (congrArg Head.rest? h)
      faultFrom (offset + (tail.length + 1 - rest.length)) rest
    | .invalid n _ => some ⟨offset, some n⟩
    | .incomplete => some ⟨offset, none⟩
  termination_by bytes.length
  decreasing_by simp only [List.length_cons]; omega

/-- The text of well-formed bytes, or their first fault. -/
def decode (bytes : List UInt8) : Except Fault String :=
  match String.fromUTF8? ⟨bytes.toArray⟩ with
  | some s => .ok s
  | none => .error ((faultFrom 0 bytes).getD ⟨0, none⟩)

/-- The characters of some bytes, with a replacement for each group that is none. -/
def charsLossy (bytes : List UInt8) : List Char :=
  match bytes with
  | [] => []
  | b :: tail =>
    match h : head b tail with
    | .char c rest =>
      have := head_rest_length (congrArg Head.rest? h)
      c :: charsLossy rest
    | .invalid _ rest =>
      have := head_rest_length (congrArg Head.rest? h)
      '\uFFFD' :: charsLossy rest
    | .incomplete => ['\uFFFD']
  termination_by bytes.length
  decreasing_by all_goals simp only [List.length_cons]; omega

/-- The text of any bytes, ill-formed groups replaced. -/
def decodeLossy (bytes : List UInt8) : String := String.ofList (charsLossy bytes)

/-- The bytes of a text. -/
def encode (s : String) : List UInt8 := s.toByteArray.data.toList

end IpAtlas.Utf8
