/-! Dates in a configuration file, with or without a time of day. Only their form and the ranges
of their parts count here. -/
namespace SurveyForms.Config.Date

def digitValue (c : Char) : Nat := c.toNat - '0'.toNat

/-- A number of one or two digits, and what follows it. -/
def short? : List Char → Option (Nat × List Char)
  | [] => none
  | a :: cs =>
    if !a.isDigit then none
    else match cs with
      | b :: rest =>
        some (if b.isDigit then (10 * digitValue a + digitValue b, rest) else (digitValue a, cs))
      | [] => some (digitValue a, [])

def below? (limit : Nat) (cs : List Char) : Option (List Char) :=
  (short? cs).bind fun (n, rest) => if n < limit then some rest else none

def mark? (c : Char) (cs : List Char) : Option (List Char) :=
  if cs.head? = some c then some cs.tail else none

def isLeap (year : Nat) : Bool := year % 4 == 0 && (year % 100 != 0 || year % 400 == 0)

def daysIn (year month : Nat) : Nat :=
  if month = 2 then (if isLeap year then 29 else 28)
  else if month = 4 ∨ month = 6 ∨ month = 9 ∨ month = 11 then 30
  else 31

/-- What follows a day of the calendar with a year of four digits. -/
def day? (cs : List Char) : Option (List Char) := do
  let year := cs.takeWhile Char.isDigit
  if year.length ≠ 4 then none
  let (month, cs) ← short? (← mark? '-' (cs.drop 4))
  if month = 0 ∨ 12 < month then none
  let (day, cs) ← short? (← mark? '-' cs)
  let number := year.foldl (fun n c => 10 * n + digitValue c) 0
  if day = 0 ∨ daysIn number month < day then none
  return cs

/-- What follows a time of day. A part of a second needs a digit behind its mark. -/
def time? (cs : List Char) : Option (List Char) := do
  let cs ← mark? ':' (← below? 24 cs)
  let cs ← mark? ':' (← below? 60 cs)
  let cs ← below? 60 cs
  match cs with
  | c :: d :: rest =>
    if (c == '.' || c == ',') && d.isDigit then some (rest.dropWhile Char.isDigit) else some cs
  | _ => some cs

/-- What follows a time zone: the letter `Z`, or an offset with two digits each. -/
def zone? : List Char → Option (List Char)
  | 'Z' :: rest => some rest
  | sign :: a :: b :: ':' :: c :: d :: rest =>
    let inRange (a b : Char) (most : Nat) : Bool :=
      a.isDigit && b.isDigit && 10 * digitValue a + digitValue b ≤ most
    if (sign == '+' || sign == '-') && inRange a b 24 && inRange c d 60 then some rest else none
  | _ => none

/-- Whether a text is a date. A time behind a `T` has a zone, one behind a space has none. -/
def isDate (cs : List Char) : Bool :=
  match day? cs with
  | some [] => true
  | some ('T' :: rest) | some ('t' :: rest) => (time? rest).bind zone? == some []
  | some (' ' :: rest) => time? rest == some []
  | _ => false

end SurveyForms.Config.Date
