import SurveyForms.Config.Yaml.Scalars
import SurveyForms.Config.Yaml.Token

/-! Names, tags and directives in a configuration file. -/
namespace SurveyForms.Config.Yaml

/-- The name of an anchor or alias behind its mark. White space or a mark has to follow. -/
def name? (c : Cursor) : Option (String × Cursor) :=
  let (name, next) := c.takeWhile isNameChar
  let followed := next.stopAt 0 ||
    ((next.peek 0).map ['?', ':', ',', ']', '\x7d', '%', '@', '\x60'].contains).getD false
  if name.isEmpty || !followed then none else some (String.ofList name, next)

namespace Tag

def marks : List Char := ";/?:@&=+$,.!~*'()[]%".toList

def isChar (c : Char) : Bool := isNameChar c || marks.contains c

def byte? (c : Cursor) : Option (Nat × Cursor) := do
  let digits := (c.rest.drop 1).take 2
  if !c.isAt '%' || digits.length ≠ 2 then none
  return (← Text.hexValue? digits, c.skips 3)

/-- The bytes of the rest of a character. -/
def trailing? : Nat → Cursor → Option (List Nat × Cursor)
  | 0, c => some ([], c)
  | n + 1, c => do
    let (byte, next) ← byte? c
    if !Text.isTrailing byte then none
    let (more, next) ← trailing? n next
    return (byte :: more, next)

def escaped? (c : Cursor) : Option (Char × Cursor) := do
  let (first, next) ← byte? c
  let (more, next) ← trailing? ((← Text.utf8Width? first) - 1) next
  return ((Text.firstChar? (first :: more)).getD Text.replacement, next)

def chars? : Nat → Cursor → Option (List Char × Cursor)
  | 0, c => some ([], c)
  | n + 1, c =>
    if c.isAt '%' then do
      let (d, next) ← escaped? c
      let (more, next) ← chars? n next
      return (d :: more, next)
    else if ((c.peek 0).map isChar).getD false then do
      let (more, next) ← chars? n c.skip
      return (c.rest.take 1 ++ more, next)
    else some ([], c)

def suffix? (c : Cursor) : Option (List Char × Cursor) := do
  let (text, next) ← chars? c.rest.length c
  if text.isEmpty then none
  return (text, next)

/-- A handle: an exclamation mark, a name, and another exclamation mark if there is one. -/
def handle (c : Cursor) : List Char × Cursor :=
  let (name, next) := c.skip.takeWhile isNameChar
  if next.isAt '!' then ('!' :: name ++ ['!'], next.skip) else ('!' :: name, next)

/-- A tag: in full between angle brackets, a handle and a suffix, or a suffix alone. An
exclamation mark alone is a tag too. White space has to follow. -/
def read? (c : Cursor) : Option (Token × Cursor) := do
  let (token, next) ←
    if c.peek 1 = some '<' then do
      let (text, next) ← suffix? (c.skips 2)
      if !next.isAt '>' then none
      some (Token.tag "" (String.ofList text), next.skip)
    else
      let (name, next) := handle c
      if 1 < name.length ∧ name.getLast? = some '!' then do
        let (text, next) ← suffix? next
        some (Token.tag (String.ofList name) (String.ofList text), next)
      else do
        let (more, next) ← chars? next.rest.length next
        let text := name.drop 1 ++ more
        some (if text.isEmpty then Token.tag "" "!" else .tag "!" (String.ofList text), next)
  if next.stopAt 0 then return (token, next) else none

end Tag

namespace Directive

def number? (c : Cursor) : Option (Nat × Cursor) :=
  let (digits, next) := c.takeWhile Char.isDigit
  if digits.isEmpty || 2 < digits.length then none
  else some (digits.foldl (fun n d => 10 * n + (d.toNat - '0'.toNat)) 0, next)

def version? (c : Cursor) : Option (Token × Cursor) := do
  let (major, next) ← number? c.dropGaps
  if !next.isAt '.' then none
  let (minor, next) ← number? next.skip
  return (.version major minor, next)

def handle? (c : Cursor) : Option (Token × Cursor) := do
  let c := c.dropGaps
  if !c.isAt '!' then none
  let (name, next) := Tag.handle c
  if 1 < name.length ∧ name.getLast? ≠ some '!' then none
  if !next.gapAt 0 then none
  let (text, next) ← Tag.suffix? next.dropGaps
  if !next.stopAt 0 then none
  return (.handle (String.ofList name) (String.ofList text), next)

/-- A directive with its line. Versions and handles are known. -/
def read? (c : Cursor) : Option (Token × Cursor) := do
  let (name, next) := c.skip.takeWhile isNameChar
  if !next.stopAt 0 then none
  let (token, next) ←
    if name = "YAML".toList then version? next
    else if name = "TAG".toList then handle? next
    else none
  return (token, ← Block.lineEnd? next)

end Directive
end SurveyForms.Config.Yaml
