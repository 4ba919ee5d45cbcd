import SurveyForms.Config.Date
import SurveyForms.Config.Decimal
import SurveyForms.Text.Bytes

/-! Scalars of a configuration file: null, booleans, numbers, dates, and text for all else. A tag
says which of them a text has to be. -/
namespace SurveyForms.Config

inductive Scalar where
  | null
  | bool (value : Bool)
  /-- A whole number of 64 bits, with or without sign. -/
  | integer (value : Int)
  /-- A floating-point number, written with its fewest digits. -/
  | decimal (negative : Bool) (magnitude : Decimal)
  | infinite (negative : Bool)
  | notNumber
  | date
  | text (value : String)
  deriving DecidableEq, Repr

namespace Scalar

def nullWords : List String := ["", "~", "null", "Null", "NULL"]
def trueWords : List String := ["true", "True", "TRUE"]
def falseWords : List String := ["false", "False", "FALSE"]
def infinityWords : List String := [".inf", ".Inf", ".INF"]
def nanWords : List String := [".nan", ".NaN", ".NAN"]

def digitValue? (c : Char) : Option Nat :=
  if c.isDigit then some (c.toNat - '0'.toNat)
  else if 'a' ≤ c ∧ c ≤ 'f' then some (c.toNat - 'a'.toNat + 10)
  else if 'A' ≤ c ∧ c ≤ 'F' then some (c.toNat - 'A'.toNat + 10)
  else none

def natural? (base : Nat) : List Char → Option Nat
  | [] => none
  | cs => cs.foldlM (fun n c =>
      match digitValue? c with
      | some d => if d < base then some (base * n + d) else none
      | none => none) 0

/-- A whole number without sign. The base is told by `0x`, `0b`, `0o` or a zero in front. -/
def whole? : List Char → Option Nat
  | '0' :: 'x' :: cs | '0' :: 'X' :: cs => natural? 16 cs
  | '0' :: 'b' :: cs | '0' :: 'B' :: cs => natural? 2 cs
  | '0' :: 'o' :: cs | '0' :: 'O' :: cs => natural? 8 cs
  | ['0'] => some 0
  | '0' :: cs => natural? 8 cs
  | cs => natural? 10 cs

inductive Sign where
  | none
  | plus
  | minus
  deriving DecidableEq, Repr

def sign : List Char → Sign × List Char
  | '-' :: cs => (.minus, cs)
  | '+' :: cs => (.plus, cs)
  | cs => (.none, cs)

/-- A whole number in 64 bits; without any sign one more bit counts. -/
def bounded? (sign : Sign) (n : Nat) : Option Int :=
  match sign with
  | .none => if n < 0x10000000000000000 then some n else Option.none
  | .plus => if n < 0x8000000000000000 then some n else Option.none
  | .minus => if n ≤ 0x8000000000000000 then some (-(n : Int)) else Option.none

/-- A whole number. The sign may also stand behind `0b` or `0o`. -/
def integer? (cs : List Char) : Option Int :=
  let signed (cs : List Char) (read : List Char → Option Nat) : Option Int :=
    let (s, digits) := sign cs
    (read digits).bind (bounded? s)
  match signed cs whole?, cs with
  | some n, _ => some n
  | none, '0' :: 'b' :: rest => signed rest (natural? 2)
  | none, '0' :: 'o' :: rest => signed rest (natural? 8)
  | none, _ => none

def exponent? : List Char → Option Int
  | [] => some 0
  | c :: cs =>
    if c = 'e' ∨ c = 'E' then
      let (s, digits) := sign cs
      (natural? 10 digits).map fun n => if s = .minus then -(n : Int) else n
    else none

/-- A decimal number without sign, with point and exponent if any. Digits behind a leading point
are enough. -/
def decimal? (cs : List Char) : Option Decimal :=
  let whole := cs.takeWhile Char.isDigit
  let rest := cs.dropWhile Char.isDigit
  let (fraction, rest) := match rest with
    | '.' :: more => (more.takeWhile Char.isDigit, more.dropWhile Char.isDigit)
    | _ => ([], rest)
  match natural? 10 (whole ++ fraction), exponent? rest with
  | some digits, some e => some ⟨digits, e - fraction.length⟩
  | _, _ => none

/-- Whether every underscore stands between two digits. -/
def spaced (afterDigit : Bool) : List Char → Bool
  | [] => true
  | '_' :: c :: cs => afterDigit && c.isDigit && spaced true cs
  | ['_'] => false
  | c :: cs => spaced c.isDigit cs

def float? (cs : List Char) : Option Scalar :=
  let (s, digits) := sign cs
  ((decimal? digits).bind Decimal.rounded?).map (.decimal (s = .minus))

/-- A number. One that is not whole, or too large for 64 bits, is a floating-point number.
Underscores do not count; behind a leading point they have to stand between digits. -/
def number? (cs : List Char) : Option Scalar :=
  let plain := cs.filter (· ≠ '_')
  if cs.head? = some '.' then
    if spaced false cs then float? plain else none
  else ((integer? plain).map .integer).or (float? plain)

def ofPlain (dates : Bool) (s : String) : Scalar :=
  if s ∈ nullWords then .null
  else if s ∈ trueWords then .bool true
  else if s ∈ falseWords then .bool false
  else if s ∈ nanWords then .notNumber
  else
    let cs := s.toList
    let (sign, unsigned) := sign cs
    if String.ofList unsigned ∈ infinityWords then .infinite (sign = .minus)
    else match cs with
      | c :: _ =>
        if c.isDigit || c == '.' || c == '-' || c == '+' then
          if dates && Date.isDate cs then .date else (number? cs).getD (.text s)
        else .text s
      | [] => .null

/-- The whole numbers that are also numbers with sign can be asked for as floating-point ones. -/
def asFloat? : Scalar → Option Scalar
  | .integer n =>
    if n < 0x8000000000000000 then
      (Decimal.rounded? ⟨n.natAbs, 0⟩).map (.decimal (n < 0))
    else none
  | .decimal negative magnitude => some (.decimal negative magnitude)
  | .infinite negative => some (.infinite negative)
  | .notNumber => some .notNumber
  | _ => none

/-- The scalar of a text with a tag. A text that is not what its tag says is refused; a tag that
says nothing about scalars makes it a text. -/
def ofTagged? (tag : Option String) (s : String) : Option Scalar :=
  match tag with
  | none => some (ofPlain true s)
  | some "!!null" => if ofPlain false s = .null then some .null else none
  | some "!!bool" =>
    match ofPlain false s with
    | .bool value => some (.bool value)
    | _ => none
  | some "!!int" =>
    match ofPlain false s with
    | .integer n => some (.integer n)
    | _ => none
  | some "!!float" => asFloat? (ofPlain false s)
  | some "!!timestamp" => if ofPlain true s = .date then some .date else none
  | some "!!binary" =>
    (Text.Base64.decode? s.toList).map fun bytes => .text (String.ofList (Text.decodeBytes bytes))
  | some _ => some (.text s)

def asText? : Scalar → Option String
  | .null => some ""
  | .bool value => some (if value then "1" else "0")
  | .integer n => some (toString n)
  | .decimal negative magnitude => some ((if negative then "-" else "") ++ magnitude.text)
  | .infinite negative => some (if negative then "-Inf" else "+Inf")
  | .notNumber => some "NaN"
  | .date => none
  | .text value => some value

def switchWord? (s : String) : Option Bool :=
  if s ∈ ["1", "t", "T", "TRUE", "true", "True"] then some true
  else if s ∈ ["0", "f", "F", "FALSE", "false", "False"] then some false
  else none

/-- What a scalar gives for a setting that is on or off: of numbers only zero is off. -/
def asSwitch? : Scalar → Option Bool
  | .null => some false
  | .bool value => some value
  | .integer n => some (n != 0)
  | .decimal _ magnitude => some (magnitude.digits != 0)
  | .infinite _ | .notNumber => some true
  | .date => none
  | .text value => if value = "" then some false else switchWord? value

end Scalar
end SurveyForms.Config
