/-!
# Binary floating-point numbers

The finite numbers of the 64-bit binary format, as a mantissa of at most 53 bits times a power of
two.  Arithmetic is done on exact fractions of natural numbers and rounded to the nearest number of
the format afterwards, a tie going to the even mantissa.

A number is written with the fewest decimal digits that only it rounds to; of several such decimals
the nearest, and of two equally near the even one.

## What is here

* `Magnitude`, `Magnitude.ofRatio` — rounding a fraction.
* `Magnitude.scale?` — multiplying by a power of ten.
* `Magnitude.shortest` — the digits.
* `Binary64`, `Binary64.toText` — a number with its sign, and its text.
-/

set_option autoImplicit false

namespace IpAtlas

/-- A fraction rounded to a whole number, a tie going to the even one. -/
def roundHalfEven (n d : Nat) : Nat :=
  let q := n / d
  let r := n % d
  if 2 * r < d then q else if d < 2 * r then q + 1 else q + q % 2

/-- A number of the format without its sign: `mantissa · 2 ^ exponent`. -/
structure Magnitude where
  mantissa : Nat
  exponent : Int
  deriving DecidableEq, Repr

namespace Magnitude

/-- The least exponent of the format. -/
def minExponent : Int := -1074

/-- The greatest exponent of a mantissa of 53 bits. -/
def maxExponent : Int := 971

/-- The least mantissa of 53 bits. -/
def leastFull : Nat := 1 <<< 52

/-- Zero. -/
def zero : Magnitude := ⟨0, minExponent⟩

/-- A fraction times a power of two, as a fraction. -/
def shifted (n d : Nat) (e : Int) : Nat × Nat :=
  if 0 ≤ e then (n <<< e.toNat, d) else (n, d <<< (-e).toNat)

/-- The exponent of the highest bit of a positive fraction. -/
def topBit (n d : Nat) : Int :=
  let e : Int := (n.log2 : Int) - d.log2
  let (n', d') := shifted n d (-e)
  if d' ≤ n' then e else e - 1

/-- A positive fraction rounded to the format; its exponent may come out too large. -/
def ofRatio (n d : Nat) : Magnitude :=
  if n = 0 then zero
  else
    let e := max (topBit n d - 52) minExponent
    let (n', d') := shifted n d (-e)
    let m := roundHalfEven n' d'
    if m = 2 * leastFull then ⟨leastFull, e + 1⟩ else ⟨m, e⟩

/-- A magnitude as a fraction. -/
def ratio (x : Magnitude) : Nat × Nat := shifted x.mantissa 1 x.exponent

/-- Whether a magnitude is too large for the format. -/
def overflows (x : Magnitude) : Bool := maxExponent < x.exponent

/-- A power of ten, rounded. -/
def powerOfTen (k : Nat) : Magnitude := ofRatio (Nat.pow 10 k) 1

/-- A product, rounded. -/
def times (x y : Magnitude) : Magnitude :=
  ofRatio (x.ratio.1 * y.ratio.1) (x.ratio.2 * y.ratio.2)

/-- A quotient, rounded. -/
def dividedBy (x y : Magnitude) : Magnitude :=
  ofRatio (x.ratio.1 * y.ratio.2) (x.ratio.2 * y.ratio.1)

/-- The largest power of ten in the format. -/
def maxPower : Nat := 308

/-- A magnitude divided by a power of ten, by the largest one at a time. -/
def downBy (x : Magnitude) (k : Nat) : Magnitude :=
  if x.mantissa = 0 then x
  else if k ≤ maxPower then x.dividedBy (powerOfTen k)
  else (x.dividedBy (powerOfTen maxPower)).downBy (k - maxPower)
  termination_by k
  decreasing_by simp only [maxPower] at *; omega

/-- A magnitude multiplied by a power of ten, unless it becomes too large. -/
def upBy? (x : Magnitude) (k : Nat) : Option Magnitude :=
  if x.mantissa = 0 then some x
  else if maxPower < k then none
  else
    let y := x.times (powerOfTen k)
    if y.overflows then none else some y

/-- A magnitude times a power of ten, unless it becomes too large. -/
def scale? (x : Magnitude) (k : Int) : Option Magnitude :=
  if 0 ≤ k then x.upBy? k.toNat else some (x.downBy (-k).toNat)

/-! ## Digits -/

/-- A fraction divided by a power of ten, as a fraction. -/
def tenth (n d : Nat) (k : Int) : Nat × Nat :=
  if 0 ≤ k then (n, d * Nat.pow 10 k.toNat) else (n * Nat.pow 10 (-k).toNat, d)

/-- The exponent of the leading decimal digit of a positive fraction below one, which is sought from
the given place down. -/
def smallLead (n d : Nat) : Nat → Nat → Int
  | 0, place => -place
  | fuel + 1, place =>
    if d ≤ n * Nat.pow 10 place then -place else smallLead n d fuel (place + 1)

/-- The exponent of the leading decimal digit of a positive fraction. -/
def lead (n d : Nat) : Int :=
  if d ≤ n then (Nat.toDigits 10 (n / d)).length - 1 else smallLead n d 400 1

/-- Whether a decimal `digits · 10 ^ k` rounds to a magnitude.  Half-way points belong to it if its
mantissa is even; below a power of two the numbers of the format lie twice as dense. -/
def readsAs (x : Magnitude) (digits : Nat) (k : Int) : Bool :=
  let narrow := x.mantissa = leastFull ∧ minExponent < x.exponent
  let below := if narrow then 4 * x.mantissa - 1 else 4 * x.mantissa - 2
  let (n, d) := if 0 ≤ k then (digits * Nat.pow 10 k.toNat, 1) else (digits, Nat.pow 10 (-k).toNat)
  let (ln, ld) := shifted below 1 (x.exponent - 2)
  let (hn, hd) := shifted (4 * x.mantissa + 2) 1 (x.exponent - 2)
  let (low, high) := (compare (ln * d) (n * ld), compare (n * hd) (hn * d))
  if x.mantissa % 2 = 0 then low != .gt && high != .gt else low == .lt && high == .lt

/-- Of the two decimals around a magnitude on the grid of `10 ^ k`, the one that rounds to it; the
nearer if both do. -/
def onGrid? (x : Magnitude) (k : Int) : Option Nat :=
  let (n, d) := tenth x.ratio.1 x.ratio.2 k
  let down := n / d
  match x.readsAs down k, x.readsAs (down + 1) k with
  | true, true => some (roundHalfEven n d)
  | true, false => some down
  | false, true => some (down + 1)
  | false, false => none

/-- The digits on the coarsest grid on which some decimal rounds to a magnitude, and the exponent of
that grid.  The grids are those of `count` digits and more. -/
def digitsFrom (x : Magnitude) (top : Int) : Nat → Nat → Nat × Int
  | 0, count => (0, top - count)
  | fuel + 1, count =>
    let k := top - count
    match x.onGrid? k with
    | some digits => (digits, k)
    | none => digitsFrom x top fuel (count + 1)

/-- The fewest digits of a positive magnitude, and the exponent of the first of them. -/
def shortest (x : Magnitude) : List Char × Int :=
  let (digits, k) := x.digitsFrom (lead x.ratio.1 x.ratio.2) 17 0
  let cs := Nat.toDigits 10 digits
  ((cs.reverse.dropWhile (· = '0')).reverse, k + cs.length - 1)

end Magnitude

/-- A finite number of the 64-bit binary format. -/
structure Binary64 where
  negative : Bool
  magnitude : Magnitude
  deriving DecidableEq, Repr

namespace Binary64

/-- The exponents from the first of which up to the second numbers are written without one. -/
def plainExponents : Int × Int := (-5, 15)

/-- Digits whose first has a given exponent, written without it. -/
def plain (digits : List Char) (exponent : Int) : List Char :=
  if exponent < 0 then
    '0' :: '.' :: List.replicate ((-exponent).toNat - 1) '0' ++ digits
  else
    let whole := exponent.toNat + 1
    let fraction := digits.drop whole
    digits.take whole ++ List.replicate (whole - digits.length) '0' ++
      '.' :: (if fraction.isEmpty then ['0'] else fraction)

/-- Digits whose first has a given exponent, written with it: signed, and two digits at least. -/
def scientific (digits : List Char) (exponent : Int) : List Char :=
  let power := Nat.toDigits 10 exponent.natAbs
  digits.take 1 ++ (if digits.length ≤ 1 then [] else '.' :: digits.drop 1) ++
    ['e', if exponent < 0 then '-' else '+'] ++
    List.replicate (2 - power.length) '0' ++ power

/-- The text of a number. -/
def toText (x : Binary64) : String :=
  let digits :=
    if x.magnitude.mantissa = 0 then ['0', '.', '0']
    else
      let (digits, exponent) := x.magnitude.shortest
      if plainExponents.1 ≤ exponent ∧ exponent ≤ plainExponents.2 then plain digits exponent
      else scientific digits exponent
  String.ofList (if x.negative then '-' :: digits else digits)

end Binary64

end IpAtlas
