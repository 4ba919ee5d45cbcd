/-! Decimal numbers and the floating-point numbers of 64 bits that stand for them. All arithmetic
is exact. -/
namespace SurveyForms.Config

/-- A number: digits times a power of ten. -/
structure Decimal where
  digits : Nat
  exponent : Int
  deriving DecidableEq, Repr

/-- A floating-point number without sign: a significand below `2 ^ 53` times a power of two. -/
structure Double where
  significand : Nat
  exponent : Int
  deriving DecidableEq, Repr

/-- A quotient rounded to the nearest whole number; a tie goes to the even neighbour. -/
def roundQuotient (num den : Nat) : Nat :=
  let q := num / den
  let r := num % den
  if 2 * r < den then q else if den < 2 * r then q + 1 else q + q % 2

namespace Double

def precision : Nat := 53
def minExponent : Int := -1074
def maxExponent : Int := 971

/-- The double nearest to a quotient; there is none beyond the largest one. -/
def nearest? (num den : Nat) : Option Double :=
  let guess : Int := (Nat.log2 num : Int) - Nat.log2 den - precision
  let scaled (e : Int) : Nat × Nat := (num * Nat.pow 2 (-e).toNat, den * Nat.pow 2 e.toNat)
  let fits (e : Int) : Bool := (scaled e).1 < (scaled e).2 * Nat.pow 2 precision
  let e := max minExponent (if fits guess then guess else guess + 1)
  let m := roundQuotient (scaled e).1 (scaled e).2
  let (m, e) := if m = Nat.pow 2 precision then (Nat.pow 2 (precision - 1), e + 1) else (m, e)
  if e ≤ maxExponent then some ⟨m, e⟩ else none

def ratio (x : Double) : Nat × Nat :=
  (x.significand * Nat.pow 2 x.exponent.toNat, Nat.pow 2 (-x.exponent).toNat)

end Double

namespace Decimal

def ratio (x : Decimal) : Nat × Nat :=
  (x.digits * Nat.pow 10 x.exponent.toNat, Nat.pow 10 (-x.exponent).toNat)

/-- More digits than this in front of the point are too many for a double, and with more zeros
than this behind it nothing is left. -/
def magnitudeLimit : Nat := 400

def nearest? (x : Decimal) : Option Double :=
  let magnitude : Int := (Nat.toDigits 10 x.digits).length + x.exponent
  if x.digits = 0 ∨ magnitude < -magnitudeLimit then some ⟨0, Double.minExponent⟩
  else if magnitudeLimit < magnitude then none
  else Double.nearest? x.ratio.1 x.ratio.2

/-- Of the two decimals around a double with the last digit at `10 ^ e` the nearer one of those
that read back as the double. -/
def around? (x : Double) (e : Int) : Option Decimal :=
  let (num, den) := x.ratio
  let num := num * Nat.pow 10 (-e).toNat
  let den := den * Nat.pow 10 e.toNat
  let lower := num / den
  let readsBack (n : Nat) : Bool := (Decimal.nearest? ⟨n, e⟩) == some x
  let order := if 2 * (num % den) ≤ den then [lower, lower + 1] else [lower + 1, lower]
  (order.find? readsBack).map (⟨·, e⟩)

/-- With this many digits every double has a decimal that reads back. -/
def enoughDigits : Nat := 17

/-- Without the zero that rounding up to a power of ten leaves at the end. -/
def dropZero (x : Decimal) : Decimal :=
  if x.digits % 10 = 0 then ⟨x.digits / 10, x.exponent + 1⟩ else x

/-- The decimal with the fewest digits that reads back as a double. -/
def shortest (x : Double) : Decimal :=
  let (num, den) := x.ratio
  let magnitude : Int :=
    (Nat.toDigits 10 (num * Nat.pow 10 magnitudeLimit / den)).length - (magnitudeLimit : Int)
  if x.significand = 0 then ⟨0, 0⟩
  else
    let found := (List.range enoughDigits).findSome? fun (n : Nat) =>
      around? x (magnitude - (n + 1))
    (found.map dropZero).getD ⟨0, 0⟩

def rounded? (x : Decimal) : Option Decimal := x.nearest?.map shortest

/-- Without exponent, and with a point only in front of digits. -/
def text (x : Decimal) : String :=
  let digits := Nat.toDigits 10 x.digits
  let zeros (n : Nat) : List Char := List.replicate n '0'
  String.ofList <|
    if 0 ≤ x.exponent then digits ++ zeros x.exponent.toNat
    else
      let behind := (-x.exponent).toNat
      let padded := zeros (behind + 1 - digits.length) ++ digits
      padded.take (padded.length - behind) ++ '.' :: padded.drop (padded.length - behind)

end Decimal
end SurveyForms.Config
