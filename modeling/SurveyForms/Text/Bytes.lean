/-! Texts from bytes: UTF-8 with a replacement for bytes that are not part of a character, and
bytes written with 64 letters. -/
namespace SurveyForms.Text

/-- How many bytes a character has whose first byte is given. -/
def utf8Width? (byte : Nat) : Option Nat :=
  if byte < 0x80 then some 1
  else if byte < 0xc0 then none
  else if byte < 0xe0 then some 2
  else if byte < 0xf0 then some 3
  else if byte < 0xf8 then some 4
  else none

def isTrailing (byte : Nat) : Bool := 0x80 ≤ byte && byte < 0xc0

/-- The code point of a first byte and the bytes behind it, not checked. -/
def codePoint (first : Nat) (trailing : List Nat) : Nat :=
  let lead := if trailing.isEmpty then first else first % Nat.pow 2 (6 - trailing.length)
  trailing.foldl (fun n byte => 64 * n + byte % 64) lead

/-- The character of a code point; half of a surrogate pair is none. -/
def charOf? (code : Nat) : Option Char :=
  if h : code.isValidChar then some (Char.ofNatAux code h) else none

def firstChar? : List Nat → Option Char
  | [] => none
  | first :: rest => do
    let width ← utf8Width? first
    let trailing := rest.take (width - 1)
    if trailing.length ≠ width - 1 ∨ !trailing.all isTrailing then none
    let c ← charOf? (codePoint first trailing)
    if c.utf8Size = width then some c else none

def replacement : Char := '\ufffd'

/-- The characters of some bytes. A byte that starts no character is replaced. -/
def decodeBytes : List Nat → List Char
  | [] => []
  | first :: rest =>
    match firstChar? (first :: rest) with
    | some c => c :: decodeBytes (rest.drop (c.utf8Size - 1))
    | none => replacement :: decodeBytes rest
termination_by bytes => bytes.length
decreasing_by all_goals (simp only [List.length_cons, List.length_drop]; omega)

namespace Base64

def value? (c : Char) : Option Nat :=
  if c.isUpper then some (c.toNat - 'A'.toNat)
  else if c.isLower then some (c.toNat - 'a'.toNat + 26)
  else if c.isDigit then some (c.toNat - '0'.toNat + 52)
  else if c = '+' then some 62
  else if c = '/' then some 63
  else none

/-- The bytes of letters, four for three bytes. At the end two or three letters are filled up
with equals signs, and what they have beyond whole bytes does not count. -/
def groups? : List Char → Option (List Nat)
  | [] => some []
  | [a, b, '=', '='] => do
    let n := 64 * (← value? a) + (← value? b)
    return [n / 16]
  | [a, b, c, '='] => do
    let n := 64 * (64 * (← value? a) + (← value? b)) + (← value? c)
    return [n / 1024, n / 4 % 256]
  | a :: b :: c :: d :: rest => do
    let n := 64 * (64 * (64 * (← value? a) + (← value? b)) + (← value? c)) + (← value? d)
    return n / 65536 :: n / 256 % 256 :: n % 256 :: (← groups? rest)
  | _ => none

def decode? (cs : List Char) : Option (List Nat) := groups? (cs.filter fun c => c ≠ '\n' ∧ c ≠ '\r')

end Base64
end SurveyForms.Text
