import IpAtlas.Proofs.Codec.Canonical

/-!
# Reading with machine words

The walk through a buffer is told with numbers that never overflow and lists that can be cut
anywhere.  Here it is told again as it runs on a machine: a walk keeps its buffer and a place in it,
places are words of 64 bits, and bytes are sliced out of the buffer.  A sum that does not fit a word,
a slice that does not lie in its buffer and an element that is not there break the run off.

On a buffer whose length fits a word this never happens, whatever the buffer holds: every length
that is read is compared with what is left before it is used.

## What is here

* `add?`, `mul?`, `sub?`, `slice?` — what may break a run off.
* `Run`, `Run.demand` — runs that may be broken off.
* `Cursor`, `Walk` and the steps `Walk.take`, `Walk.address`, `Walk.string`, `Walk.location`.
* `Walk.Agrees`, `Walk.Agrees.bind` — a walk does what a read does, and does not break off.
* `Walk.agrees_location` — neither does reading a location.
-/

set_option autoImplicit false

namespace IpAtlas.Checked

/-- How many numbers a word can hold. -/
def wordCount : Nat := 2 ^ 64

/-- The sum of two words, if it is one. -/
def add? (x y : Nat) : Option Nat := if x + y < wordCount then some (x + y) else none

/-- The product of two words, if it is one. -/
def mul? (x y : Nat) : Option Nat := if x * y < wordCount then some (x * y) else none

/-- The difference of two words, if it is one. -/
def sub? (x y : Nat) : Option Nat := if y ≤ x then some (x - y) else none

/-- The bytes from one place up to another, if these lie in the buffer in this order. -/
def slice? (bs : Bytes) (start stop : Nat) : Option Bytes :=
  if start ≤ stop ∧ stop ≤ bs.length then some ((bs.take stop).drop start) else none

theorem add?_eq {x y : Nat} (h : x + y < wordCount) : add? x y = some (x + y) := if_pos h

theorem mul?_eq {x y : Nat} (h : x * y < wordCount) : mul? x y = some (x * y) := if_pos h

theorem sub?_eq {x y : Nat} (h : y ≤ x) : sub? x y = some (x - y) := if_pos h

theorem slice?_eq {bs : Bytes} {start stop : Nat} (hle : start ≤ stop) (hstop : stop ≤ bs.length) :
    slice? bs start stop = some ((bs.take stop).drop start) := if_pos ⟨hle, hstop⟩

/-! ## Runs -/

/-- A run gives a value or fails, unless it is broken off. -/
abbrev Run (α : Type) : Type := ExceptT Error Option α

namespace Run

variable {α β : Type}

/-- A run that is not broken off. -/
def ended (x : Except Error α) : Run α := ExceptT.mk (some x)

/-- A value without which a run is broken off. -/
def demand (x : Option α) : Run α := ExceptT.lift x

@[simp] theorem run_ended (x : Except Error α) : (ended x).run = some x := rfl

@[simp] theorem demand_some (x : α) : demand (some x) = ended (.ok x) := rfl

@[simp] theorem ended_ok_bind (x : α) (f : α → Run β) : ended (.ok x) >>= f = f x := rfl

end Run

/-! ## Walks -/

/-- A place in a buffer. -/
structure Cursor where
  buffer : Bytes
  position : Nat

/-- A step of a walk: it moves on in the buffer and gives a value. -/
abbrev Walk (α : Type) : Type := StateT Cursor Run α

namespace Walk

variable {α β : Type}

/-- The next `count` bytes. -/
def take (count : Nat) : Walk Bytes := fun c =>
  match (add? c.position count).filter (· ≤ c.buffer.length) with
  | some stop => do
    let bytes ← Run.demand (slice? c.buffer c.position stop)
    return (bytes, ⟨c.buffer, stop⟩)
  | none => throw (.codec (.overrun count c.position c.buffer.length))

/-- The next byte. -/
def byte : Walk UInt8 := do
  let bytes ← take 1
  Run.demand bytes[0]?

/-- The next four bytes as a number. -/
def word : Walk Nat := do
  let bytes ← take 4
  let b₀ ← Run.demand bytes[0]?
  let b₁ ← Run.demand bytes[1]?
  let b₂ ← Run.demand bytes[2]?
  let b₃ ← Run.demand bytes[3]?
  return Bytes.toNatLE [b₀, b₁, b₂, b₃]

/-- The next address. -/
def address : Walk Address := do
  let length := (← byte).toNat
  if length = 4 ∨ length = 16 then
    match Address.ofBytes? (← take length) with
    | some a => return a
    | none => throw (.codec (.keyLength length))
  else throw (.codec (.keyLength length))

/-- The next string. -/
def string : Walk String := do
  let bytes ← take (← word)
  match Utf8.decode bytes with
  | .ok s => return s
  | .error fault => throw (.codec (.text (← get).position fault))

/-- The next value if a bit of the presence byte says that it is there. -/
def field (flags : UInt8) (bit : Nat) (walk : Walk α) : Walk (Option α) :=
  if flags.toNat.testBit bit then some <$> walk else pure none

/-- The next location. -/
def location : Walk Location := do
  let first ← address
  let last ← address
  let flags ← byte
  let tag ← byte
  let some vpn := Flag.ofTag? tag | throw (.codec (.flagTag tag))
  if (Span.mk first last).Valid then
    let countryCode ← field flags 0 string
    let geonameId ← field flags 1 word
    let city ← field flags 2 string
    let mostSpecificDivision ← field flags 3 string
    let leastSpecificDivision ← field flags 4 string
    let postalCode ← field flags 5 string
    let sourceText ← field flags 6 string
    return { span := ⟨first, last⟩, countryCode, geonameId := geonameId.map UInt32.ofNat, city,
             mostSpecificDivision, leastSpecificDivision, postalCode, sourceText, vpn }
  else throw (.invalidRange ⟨first, last⟩)

/-! ## Walks that do what reads do -/

/-- On every buffer whose length is a word, a walk does what a read does, and is not broken off. -/
def Agrees (walk : Walk α) (read : Codec.Read α) : Prop :=
  ∀ c : Cursor, c.buffer.length < wordCount → c.position ≤ c.buffer.length →
    match read ⟨c.position, c.buffer.drop c.position⟩ with
    | .ok x r => r.position ≤ c.buffer.length ∧ r.rest = c.buffer.drop r.position ∧
        walk c = Run.ended (.ok (x, ⟨c.buffer, r.position⟩))
    | .error e _ => walk c = Run.ended (.error e)

theorem agrees_pure (x : α) : Agrees (pure x) (pure x) := fun _ _ hle => ⟨hle, rfl, rfl⟩

/-- Failing, with no more told than how far the walk has come. -/
theorem agrees_fail (e : Nat → Error) :
    Agrees (do throw (e (← get).position) : Walk α) (do throw (e (← get).position)) :=
  fun _ _ _ => rfl

theorem agrees_throw (e : Error) : Agrees (throw e : Walk α) (throw e) := fun _ _ _ => rfl

/-- **One step after the other**, where the second may rely on what every value of the first is
like. -/
theorem Agrees.bind_of {walk : Walk α} {read : Codec.Read α} {next : α → Walk β}
    {next' : α → Codec.Read β} {p : α → Prop} (h : Agrees walk read)
    (hvalue : ∀ {r x r'}, read r = .ok x r' → p x)
    (hnext : ∀ x, p x → Agrees (next x) (next' x)) :
    Agrees (walk >>= next) (read >>= next') := by
  intro c hword hle
  have hfirst := h c hword hle
  change match EStateM.bind read next' _ with
    | .ok y r => _ ∧ _ ∧ (walk c >>= fun p => next p.1 p.2) = _
    | .error e _ => (walk c >>= fun p => next p.1 p.2) = _
  rw [EStateM.bind]
  cases hread : read ⟨c.position, c.buffer.drop c.position⟩ with
  | ok x r =>
    obtain ⟨position, rest⟩ := r
    rw [hread] at hfirst
    obtain ⟨hposition, hrest, hwalk⟩ := hfirst
    dsimp only at hposition hrest
    subst hrest
    rw [hwalk]
    exact hnext x (hvalue hread) ⟨c.buffer, position⟩ hword hposition
  | error e r =>
    rw [hread] at hfirst
    dsimp only at hfirst ⊢
    rw [hfirst]
    rfl

theorem Agrees.bind {walk : Walk α} {read : Codec.Read α} {next : α → Walk β}
    {next' : α → Codec.Read β} (h : Agrees walk read) (hnext : ∀ x, Agrees (next x) (next' x)) :
    Agrees (walk >>= next) (read >>= next') :=
  h.bind_of (p := fun _ => True) (fun _ => trivial) fun x _ => hnext x

/-- **Taking bytes** compares their number with what is left before the buffer is sliced. -/
theorem agrees_take (count : Nat) : Agrees (take count) (Codec.Read.take count) := by
  intro c hword hle
  rw [Codec.Read.take]
  dsimp only
  rw [List.length_drop]
  by_cases hcount : count ≤ c.buffer.length - c.position
  · have hstop : c.position + count ≤ c.buffer.length := by omega
    have hslice : (c.buffer.take (c.position + count)).drop c.position =
        (c.buffer.drop c.position).take count := by
      rw [List.drop_take, Nat.add_sub_cancel_left]
    rw [if_pos hcount]
    refine ⟨hstop, List.drop_drop, ?_⟩
    rw [take, add?_eq (Nat.lt_of_le_of_lt hstop hword), Option.filter_some,
      if_pos (by simpa using hstop)]
    dsimp only
    rw [slice?_eq (Nat.le_add_right _ _) hstop, hslice]
    rfl
  · have hnone : (add? c.position count).filter (· ≤ c.buffer.length) = none := by
      rw [add?, Option.filter_eq_none_iff]
      intro stop hstop
      split_ifs at hstop
      obtain rfl := Option.some.inj hstop
      simp only [decide_eq_true_eq]
      omega
    rw [if_neg hcount, take, hnone]
    show _ = Run.ended (.error _)
    rw [Codec.Reader.size, List.length_drop, Nat.add_sub_cancel' hle]
    rfl

theorem agrees_byte : Agrees byte Codec.Read.byte := by
  intro c hword hle
  have htake := agrees_take 1 c hword hle
  rw [Codec.Read.byte]
  dsimp only
  cases hdrop : c.buffer.drop c.position with
  | nil =>
    rw [hdrop] at htake
    change (take 1 c >>= _) = _
    rw [show take 1 c = Run.ended (.error _) from htake]
    rfl
  | cons b rest =>
    rw [hdrop] at htake
    obtain ⟨hposition, hrest, hwalk⟩ := htake
    refine ⟨hposition, hrest, ?_⟩
    change (take 1 c >>= _) = _
    rw [hwalk]
    rfl

theorem agrees_word : Agrees word Codec.Read.word := by
  refine (agrees_take 4).bind_of (fun h => (Codec.Read.rest_of_take h).1) fun bytes hlen => ?_
  match bytes, hlen with
  | [b₀, b₁, b₂, b₃], _ => exact agrees_pure _

theorem agrees_address : Agrees address Codec.Read.address := by
  refine agrees_byte.bind fun b => ?_
  dsimp only
  split
  · refine (agrees_take b.toNat).bind fun bytes => ?_
    cases Address.ofBytes? bytes with
    | some a => exact agrees_pure a
    | none => exact agrees_throw _
  · exact agrees_throw _

theorem agrees_string : Agrees string Codec.Read.string := by
  refine agrees_word.bind fun count => (agrees_take count).bind fun bytes => ?_
  cases Utf8.decode bytes with
  | ok s => exact agrees_pure s
  | error fault => exact agrees_fail fun position => .codec (.text position fault)

theorem Agrees.field {walk : Walk α} {read : Codec.Read α} (flags : UInt8) (bit : Nat)
    (h : Agrees walk read) : Agrees (field flags bit walk) (Codec.Read.field flags bit read) := by
  rw [Walk.field, Codec.Read.field]
  split
  · rw [map_eq_pure_bind, map_eq_pure_bind]
    exact h.bind fun x => agrees_pure (some x)
  · exact agrees_pure none

/-- **Reading a location is never broken off**, whatever the buffer holds. -/
theorem agrees_location : Agrees location Codec.Read.location := by
  refine agrees_address.bind fun first => agrees_address.bind fun last =>
    agrees_byte.bind fun flags => agrees_byte.bind fun tag => ?_
  cases Flag.ofTag? tag with
  | none => exact agrees_throw _
  | some vpn =>
    dsimp only
    split
    · exact (agrees_string.field flags 0).bind fun _ => (agrees_word.field flags 1).bind fun _ =>
        (agrees_string.field flags 2).bind fun _ => (agrees_string.field flags 3).bind fun _ =>
          (agrees_string.field flags 4).bind fun _ => (agrees_string.field flags 5).bind fun _ =>
            (agrees_string.field flags 6).bind fun _ => agrees_pure _
    · exact agrees_throw _

/-- The value of a walk from the start of a buffer, and how many bytes it used. -/
def runOn (walk : Walk α) (buffer : Bytes) : Run (α × Nat) := do
  let (x, c) ← walk ⟨buffer, 0⟩
  return (x, c.position)

theorem Agrees.runOn {walk : Walk α} {read : Codec.Read α} (h : Agrees walk read) {buffer : Bytes}
    (hword : buffer.length < wordCount) : walk.runOn buffer = Run.ended (read.runOn buffer) := by
  have hrun := h ⟨buffer, 0⟩ hword (Nat.zero_le _)
  dsimp only at hrun
  rw [Walk.runOn, Codec.Read.runOn, Codec.Reader.start]
  cases hread : read ⟨0, buffer⟩ with
  | ok x r =>
    rw [List.drop_zero, hread] at hrun
    rw [hrun.2.2]
    rfl
  | error e r =>
    rw [List.drop_zero, hread] at hrun
    rw [show walk ⟨buffer, 0⟩ = Run.ended (.error e) from hrun]
    rfl

end Walk

end IpAtlas.Checked
