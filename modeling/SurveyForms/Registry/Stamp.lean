import SurveyForms.Calendar
import SurveyForms.Text.Quoted

/-! Reading time stamps back. Only stamps in Coordinated Universal Time with a year of four
digits are read. -/
namespace SurveyForms

namespace CivilTime

def daysOfDate (year : Int) (month day : Nat) : Int :=
  let shifted := if month ≤ 2 then year - 1 else year
  let era := shifted / 400
  let yearOfEra := (shifted % 400).toNat
  let monthFromMarch := if month ≤ 2 then month + 9 else month - 3
  let dayOfYear := (153 * monthFromMarch + 2) / 5 + day - 1
  let dayOfEra := yearOfEra * 365 + yearOfEra / 4 - yearOfEra / 100 + dayOfYear
  era * eraDays + dayOfEra - epochShift

def toUnix (t : CivilTime) : Int :=
  daysOfDate t.year t.month t.day * daySeconds + (t.hour * 3600 + t.minute * 60 + t.second : Nat)

end CivilTime

/-- A part of a stamp: a number of so many digits, or a mark. `shown` is how messages call it. -/
inductive StampField where
  | number (width : Nat) (shown : String)
  | mark (c : Char) (shown : String)

/-- A stamp that cannot be read: from where on, and the part that should stand there. -/
structure StampFault where
  stamp : String
  rest : String
  wanted : String
  deriving DecidableEq, Repr

namespace StampFault

/-- The stamp that shows the layout in messages. -/
def layout : String := "2006-01-02T15:04:05Z07:00"

def message (f : StampFault) : String :=
  "parsing time " ++ Text.quote f.stamp ++ " as " ++ Text.quote layout ++ ": cannot parse " ++
    Text.quote f.rest ++ " as " ++ Text.quote f.wanted

end StampFault

namespace Stamp

def fields : List StampField :=
  [.number 4 "2006", .mark '-' "-", .number 2 "01", .mark '-' "-", .number 2 "02", .mark 'T' "T",
    .number 2 "15", .mark ':' ":", .number 2 "04", .mark ':' ":", .number 2 "05",
    .mark 'Z' "Z07:00"]

def numeral (cs : List Char) : Nat :=
  cs.foldl (fun n c => 10 * n + (c.toNat - '0'.toNat)) 0

/-- The numbers of a stamp. The error is the rest of the text and the part wanted there. -/
def numbers : List StampField → List Char → Except (List Char × String) (List Nat)
  | [], [] => .ok []
  | [], rest => .error (rest, "")
  | .number width shown :: fs, cs =>
    let digits := cs.take width
    if digits.length = width ∧ digits.all Char.isDigit then do
      return numeral digits :: (← numbers fs (cs.drop width))
    else .error (cs, shown)
  | .mark c shown :: fs, cs =>
    if cs.head? = some c then numbers fs cs.tail else .error (cs, shown)

def parse (s : String) : Except StampFault Int :=
  match numbers fields s.toList with
  | .ok [year, month, day, hour, minute, second] =>
    .ok (CivilTime.toUnix ⟨year, month, day, hour, minute, second⟩)
  | .ok _ => .error ⟨s, s, StampFault.layout⟩
  | .error (rest, wanted) => .error ⟨s, String.ofList rest, wanted⟩

end Stamp
end SurveyForms
