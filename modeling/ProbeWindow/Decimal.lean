import ProbeWindow.LoadFactor
import ProbeWindow.Text

/-!
# Decimals

Numbers as decimal texts, in two ways. Both read a binary number as an exact quotient.

**Fixed places**: a nonnegative quotient is written as the nearest decimal with so many places, of
two equally near ones the one with an even last digit.

**Shortest decimals**: the fewest decimal digits that read back as the same binary number, and among
the decimals with that many digits the nearest one, of two equally near ones the larger. A binary
number reads back from every decimal of an interval: from half-way to its lower neighbour up to
half-way to its upper neighbour, ends included when its significand is even. For one digit, two
digits, … the two neighbours of the number on that decimal grid are tested; the first grid with a
neighbour inside the interval decides.

Single-precision numbers are written with the fewest digits, in one of two styles: `message` for
sentences, which never uses an exponent, and `detail` for field listings, which marks a whole number
as a fraction and uses an exponent far from one.
-/

namespace ProbeWindow.Decimal

/-! ### Fixed places -/

/-- The quotient `num / den` with so many places behind the point. -/
def fixed (places num den : Nat) : String :=
  let n := Rounding.nearest (num * Nat.pow 10 places) den
  let whole := toString (n / Nat.pow 10 places)
  if places = 0 then whole else whole ++ "." ++ Text.zeroPadded places (n % Nat.pow 10 places)

/-- A number `m * 2 ^ e` as a quotient. -/
def quotient (m : Nat) (e : Int) : Nat × Nat := (m * Nat.pow 2 e.toNat, Nat.pow 2 (-e).toNat)

/-- The exact value of a nonnegative finite double-precision number. -/
def exact (x : Float) : Nat × Nat :=
  let bits := x.toBits.toNat
  let exponent : Nat := bits / 0x10000000000000 % 0x800
  let fraction : Nat := bits % 0x10000000000000
  if exponent = 0 then quotient fraction (-1074)
  else quotient (0x10000000000000 + fraction) ((exponent : Int) - 1075)

/-- A nonnegative finite double-precision number with so many places behind the point. -/
def fixedPlaces (places : Nat) (x : Float) : String :=
  let (num, den) := exact x
  fixed places num den

/-! ### Shortest decimals -/

/-- The number `coefficient * 10 ^ exponent`. -/
structure Scientific where
  /-- The digits. -/
  coefficient : Nat
  /-- The place of the last digit. -/
  exponent : Int
deriving DecidableEq, Repr

/-- The decimals that read back as one binary number: numerators over one denominator. -/
structure ReadBack where
  /-- The lower end. -/
  low : Nat
  /-- The number itself. -/
  value : Nat
  /-- The upper end. -/
  high : Nat
  /-- The common denominator. -/
  den : Nat
  /-- Whether the ends belong to the interval. -/
  closed : Bool

/-- The interval of the number `m * 2 ^ e`; its lower neighbour is half as far as its upper one
when `narrow` is set. -/
def ReadBack.of (m : Nat) (e : Int) (narrow : Bool) : ReadBack :=
  let (unit, den) := quotient 1 (e - 2)
  { low := (4 * m - if narrow then 1 else 2) * unit
    value := 4 * m * unit
    high := (4 * m + 2) * unit
    den := den
    closed := m % 2 == 0 }

namespace ReadBack

variable (r : ReadBack)

/-- The number of digits before the point, or less than zero by the zeroes behind it: the least
power of ten above the number has this exponent. -/
def position : Int :=
  if r.den ≤ r.value then
    (toString (r.value / r.den)).length
  else
    -((List.range (r.den.log2 + 1)).takeWhile fun j ↦ r.value * Nat.pow 10 (j + 1) < r.den).length

/-- The nearest decimal with so many digits that reads back, if there is one. -/
def onGrid? (digits : Nat) : Option Scientific :=
  let exponent := r.position - digits
  let grid := Nat.pow 10 exponent.toNat * r.den
  let scale := Nat.pow 10 (-exponent).toNat
  let inside := fun d ↦
    if r.closed then r.low * scale ≤ d * grid ∧ d * grid ≤ r.high * scale
    else r.low * scale < d * grid ∧ d * grid < r.high * scale
  let below := r.value * scale / grid
  let nearer := (2 * r.value * scale + grid) / (2 * grid)
  if inside below ∧ inside (below + 1) then some ⟨nearer, exponent⟩
  else if inside below then some ⟨below, exponent⟩
  else if inside (below + 1) then some ⟨below + 1, exponent⟩
  else none

/-- Seventeen digits are enough for every double-precision number. -/
abbrev enoughDigits : Nat := 17

/-- The shortest decimal that reads back. -/
def shortest : Scientific :=
  ((List.range enoughDigits).findSome? fun n ↦ r.onGrid? (n + 1)).getD ⟨r.value / r.den, 0⟩

end ReadBack

namespace Scientific

/-- The digits without trailing zeroes, and the place of the last one. -/
def digits (x : Scientific) : List Char × Int :=
  let all := Nat.toDigits 10 x.coefficient
  let kept := (all.reverse.dropWhile (· == '0')).reverse
  (kept, x.exponent + (all.length - kept.length : Nat))

/-- How a decimal is written. -/
structure Style where
  /-- Whether a whole number keeps a point and a zero. -/
  pointZero : Bool
  /-- The powers of ten, from the first up to but not including the second, whose numbers are
  written without an exponent; all numbers are when there is no such range. -/
  positional : Option (Int × Int)

/-- Digits with a point where it belongs and no exponent. -/
def plain (pointZero : Bool) (digits : List Char) (exponent : Int) : String :=
  if 0 ≤ exponent then
    String.ofList (digits ++ List.replicate exponent.toNat '0') ++ if pointZero then ".0" else ""
  else
    let places := (-exponent).toNat
    let padded := List.replicate (places + 1 - digits.length) '0' ++ digits
    let whole := padded.length - places
    String.ofList (padded.take whole) ++ "." ++ String.ofList (padded.drop whole)

/-- Digits with a point behind the first and an exponent. -/
def exponential (digits : List Char) (power : Int) : String :=
  let rest := digits.drop 1
  String.ofList (digits.take 1) ++ (if rest.isEmpty then "" else "." ++ String.ofList rest) ++
    "e" ++ toString power

/-- The text of a positive decimal. -/
def render (style : Style) (x : Scientific) : String :=
  let (digits, exponent) := x.digits
  let power := exponent + digits.length - 1
  match style.positional with
  | none => plain style.pointZero digits exponent
  | some (first, past) =>
    if first ≤ power ∧ power < past then plain style.pointZero digits exponent
    else exponential digits power

end Scientific

/-! ### Single-precision numbers -/

namespace Single

/-- The style of sentences. -/
def message : Scientific.Style := ⟨false, none⟩

/-- The style of field listings: no exponent from a ten-thousandth up to ten to the sixteenth. -/
def detail : Scientific.Style := ⟨true, some (-4, 16)⟩

/-- The text of the number with the given bits. -/
def render (style : Scientific.Style) (bits : UInt32) : String :=
  let magnitude : Nat := bits.toNat % 0x80000000
  let sign := if bits.toNat < 0x80000000 then "" else "-"
  let exponent : Nat := magnitude / 0x800000
  let fraction : Nat := magnitude % 0x800000
  if exponent = 255 then
    if fraction = 0 then sign ++ "inf" else "NaN"
  else if magnitude = 0 then
    sign ++ if style.pointZero then "0.0" else "0"
  else
    let readBack :=
      if exponent = 0 then ReadBack.of fraction (-149) false
      else ReadBack.of (0x800000 + fraction) ((exponent : Int) - 150)
        (fraction == 0 && exponent != 1)
    sign ++ readBack.shortest.render style

end Single

end ProbeWindow.Decimal
