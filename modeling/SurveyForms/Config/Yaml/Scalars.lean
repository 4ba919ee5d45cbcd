import SurveyForms.Config.Yaml.Cursor
import SurveyForms.Text.Bytes
import SurveyForms.Text.Hex

/-! Texts in a configuration file: plain, in single or double quotes, or as a block of lines.
Lines are joined by spaces, except in literal blocks. A reader gives nothing for a broken text. -/
namespace SurveyForms.Config.Yaml

structure Gap where
  /-- White space in front of the first line break. -/
  spaces : List Char
  first : List Char
  more : List Char
  isBroken : Bool

namespace Gap

def empty : Gap := ⟨[], [], [], false⟩

/-- A gap behind a line break that is not part of the text. -/
def escaped : Gap := ⟨[], [], [], true⟩

/-- What a gap stands for: white space for itself, one line break for a space, more for one
less. Separators of lines and paragraphs stay. -/
def join (g : Gap) : List Char :=
  if !g.isBroken then g.spaces
  else if g.first.head? = some '\n' then (if g.more.isEmpty then [' '] else g.more)
  else g.first ++ g.more

/-- Reads on in a gap. A tab may not stand in front of column `limit` of a later line. -/
def read (limit : Nat) : Nat → Gap → Cursor → Option (Gap × Cursor)
  | 0, g, c => some (g, c)
  | n + 1, g, c =>
    if c.gapAt 0 then
      if !g.isBroken then
        let (spaces, next) := c.takeWhile isGap
        read limit n { g with spaces := spaces } next
      else if c.column < limit ∧ c.isAt '\t' then none
      else read limit n g c.skip
    else if c.breakAt 0 then
      let (text, next) := c.breakLine
      read limit n
        (if g.isBroken then { g with more := g.more ++ text } else ⟨[], text, [], true⟩) next
    else some (g, c)

end Gap

namespace Plain

/-- Whether a plain text ends here although no white space follows. -/
def isEnd (inFlow : Bool) (c : Cursor) : Bool :=
  (c.isAt ':' && c.stopAt 1) ||
    (inFlow && ((c.peek 0).map [',', '?', '[', ']', '\x7b', '\x7d'].contains).getD false)

def word (inFlow : Bool) : Nat → Cursor → List Char × Cursor
  | 0, c => ([], c)
  | n + 1, c =>
    if c.stopAt 0 || isEnd inFlow c then ([], c)
    else
      let (more, next) := word inFlow n c.skip
      (c.rest.take 1 ++ more, next)

/-- Reads on in a plain text behind a gap; of the text so far the last character comes first.
Lines of a block have to reach column `limit`. Also says whether a line break follows the text. -/
def read (inFlow : Bool) (limit : Nat) :
    Nat → List Char → Gap → Cursor → Option (List Char × Bool × Cursor)
  | 0, _, _, _ => none
  | n + 1, text, gap, c =>
    if c.atMarker || c.isAt '#' then some (text.reverse, gap.isBroken, c)
    else
      let (letters, next) := word inFlow (n + 1) c
      let text := if letters.isEmpty then text else (gap.join ++ letters).reverse ++ text
      let gap := if letters.isEmpty then gap else .empty
      if next.gapAt 0 || next.breakAt 0 then do
        let (gap, next) ← gap.read limit (n + 1) next
        if !inFlow && decide (next.column < limit) then some (text.reverse, gap.isBroken, next)
        else read inFlow limit n text gap next
      else some (text.reverse, gap.isBroken, next)

end Plain

namespace Quoted

def escape? (c : Char) : Option Char :=
  match c with
  | '0' => some '\x00'
  | 'a' => some '\x07'
  | 'b' => some '\x08'
  | 't' | '\t' => some '\t'
  | 'n' => some '\n'
  | 'v' => some '\x0b'
  | 'f' => some '\x0c'
  | 'r' => some '\r'
  | 'e' => some '\x1b'
  | ' ' => some ' '
  | '"' => some '"'
  | '\'' => some '\''
  | '\\' => some '\\'
  | 'N' => some '\u0085'
  | '_' => some '\u00a0'
  | 'L' => some '\u2028'
  | 'P' => some '\u2029'
  | _ => none

def hexLength? : Char → Option Nat
  | 'x' => some 2
  | 'u' => some 4
  | 'U' => some 8
  | _ => none

def escaped? (c : Cursor) : Option (Char × Cursor) := do
  let d ← c.peek 0
  match hexLength? d with
  | some n =>
    let digits := (c.rest.drop 1).take n
    if digits.length ≠ n then none
    return (← Text.charOf? (← Text.hexValue? digits), c.skips (n + 1))
  | none => return (← escape? d, c.skip)

/-- The characters up to white space or the closing quote. Also says whether an escaped line
break ends them. -/
def word (isSingle : Bool) : Nat → Cursor → Option (List Char × Bool × Cursor)
  | 0, c => some ([], false, c)
  | n + 1, c =>
    if c.stopAt 0 then some ([], false, c)
    else if isSingle then
      if c.isAt '\'' then
        if c.peek 1 = some '\'' then do
          let (more, broken, next) ← word isSingle n (c.skips 2)
          return ('\'' :: more, broken, next)
        else some ([], false, c)
      else do
        let (more, broken, next) ← word isSingle n c.skip
        return (c.rest.take 1 ++ more, broken, next)
    else if c.isAt '"' then some ([], false, c)
    else if c.isAt '\\' then
      if c.breakAt 1 then some ([], true, c.skip.breakLine.2)
      else do
        let (d, next) ← escaped? c.skip
        let (more, broken, next) ← word isSingle n next
        return (d :: more, broken, next)
    else do
      let (more, broken, next) ← word isSingle n c.skip
      return (c.rest.take 1 ++ more, broken, next)

/-- Reads on in a quoted text up to and with its closing quote; of the text so far the last
character comes first. -/
def read (isSingle : Bool) : Nat → List Char → Cursor → Option (List Char × Cursor)
  | 0, _, _ => none
  | n + 1, text, c =>
    if c.atMarker || c.atEnd then none
    else do
      let (letters, broken, next) ← word isSingle (n + 1) c
      let text := letters.reverse ++ text
      if next.isAt (if isSingle then '\'' else '"') then return (text.reverse, next.skip)
      let (gap, next) ← (if broken then Gap.escaped else .empty).read 0 (n + 1) next
      read isSingle n (gap.join.reverse ++ text) next

end Quoted

namespace Block

inductive Ending where
  | strip
  | one
  | keep
  deriving DecidableEq, Repr

structure Header where
  ending : Ending
  /-- How much deeper the lines are; zero if the first one tells. -/
  deeper : Nat

def ending? : Char → Option Ending
  | '+' => some .keep
  | '-' => some .strip
  | _ => none

def deeper? (c : Char) : Option Nat := if c.isDigit then some (c.toNat - '0'.toNat) else none

/-- The marks behind the mark of a block, in either order. A depth of zero is refused. -/
def header? (c : Cursor) : Option (Header × Cursor) :=
  let ending := (c.peek 0).bind ending?
  let next := if ending.isSome then c.skip else c
  match (next.peek 0).bind deeper? with
  | none => some (⟨ending.getD .one, 0⟩, next)
  | some 0 => none
  | some depth =>
    let next := next.skip
    match ending with
    | some e => some (⟨e, depth⟩, next)
    | none =>
      match (next.peek 0).bind ending? with
      | some e => some (⟨e, depth⟩, next.skip)
      | none => some (⟨.one, depth⟩, next)

/-- Behind the header only a comment may follow on the line. -/
def lineEnd? (c : Cursor) : Option Cursor :=
  let c := c.dropGaps
  let c := if c.isAt '#' then c.dropLine else c
  if c.endAt 0 then some c.breakLine.2 else none

/-- Steps over indentation, as deep as it is or up to a column, and over empty lines. `deepest`
is the deepest line so far. -/
def blanks (column : Option Nat) :
    Nat → List Char → Nat → Cursor → Option (List Char × Nat × Cursor)
  | 0, text, deepest, c => some (text, deepest, c)
  | n + 1, text, deepest, c =>
    let spaces := (c.rest.takeWhile (· == ' ')).length
    let c := c.skips (match column with
      | some limit => min spaces (limit - c.column)
      | none => spaces)
    let deepest := max deepest c.column
    if c.isAt '\t' && (column.map fun limit => decide (c.column < limit)).getD true then none
    else if c.breakAt 0 then
      let (line, next) := c.breakLine
      blanks column n (text ++ line) deepest next
    else some (text, deepest, c)

/-- What lies between two lines of a block. A folded line break is a space between lines that
both do not start with white space. -/
def between (folded : Bool) (first more : List Char) (wasGap isGap : Bool) : List Char :=
  (if folded && !wasGap && !isGap && first.head? == some '\n' then
    (if more.isEmpty then [' '] else [])
  else first) ++ more

/-- The lines of a block at a column; of the text so far the last character comes first. `first`
and `more` are the line breaks behind it, which are given at the end too. -/
def lines (folded : Bool) (column : Nat) :
    Nat → List Char → List Char → List Char → Bool → Cursor →
      Option (List Char × List Char × List Char × Cursor)
  | 0, _, _, _, _, _ => none
  | n + 1, text, first, more, wasGap, c =>
    if c.column = column ∧ !c.atEnd then do
      let isGap := c.gapAt 0
      let (line, next) := c.takeWhile fun _ => true
      let text := (between folded first more wasGap isGap ++ line).reverse ++ text
      let (first, next) := next.breakLine
      let (more, _, next) ← blanks (some column) (n + 1) [] 0 next
      lines folded column n text first more isGap next
    else some (text.reverse, first, more, c)

/-- Reads a block behind its mark. `outer` is the least column of its lines. -/
def read (folded : Bool) (outer : Nat) (c : Cursor) : Option (List Char × Cursor) := do
  let (header, c) ← header? c
  let c ← lineEnd? c
  let given := if header.deeper = 0 then none else some (outer - 1 + header.deeper)
  let (more, deepest, c) ← blanks given c.rest.length.succ [] 0 c
  let column := given.getD (max (max deepest outer) 1)
  let (text, first, more, c) ← lines folded column c.rest.length.succ [] [] more false c
  return (text ++ (if header.ending = .strip then [] else first) ++
    (if header.ending = .keep then more else []), c)

end Block
end SurveyForms.Config.Yaml
