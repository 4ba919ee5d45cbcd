import SurveyForms.Config.Yaml.Properties

/-! The text of a configuration file as tokens. Columns tell how blocks nest, and a text is known
to be a key only when its colon is found, so tokens are also put in front of earlier ones. A token
can be read only when the text two tokens further on is not broken. -/
namespace SurveyForms.Config.Yaml

structure KeyPlace where
  isPossible : Bool
  /-- Nothing else than a key may stand here. -/
  isRequired : Bool
  /-- The number of its first token. -/
  token : Nat
  index : Nat
  line : Nat
  column : Nat

structure Scan where
  /-- The length of the text. -/
  size : Nat
  cursor : Cursor
  /-- The tokens so far. -/
  tokens : Array Token
  /-- How many of the tokens were read. -/
  read : Nat
  /-- The columns of the open blocks, the innermost first. -/
  columns : List Nat
  /-- Whether a key may start here. -/
  keyAllowed : Bool
  /-- The last place of a key on the outermost level. -/
  outer : KeyPlace
  /-- The last places of keys in open brackets and braces, the innermost last. -/
  inner : Array KeyPlace
  /-- The tokens that wait for a key, with their levels. -/
  waiting : Array (Nat × Nat)
  /-- Whether the text starts with a byte order mark. -/
  isMarked : Bool

namespace Scan

def noKey (token : Nat) : KeyPlace := ⟨false, false, token, 0, 0, 0⟩

def start (text : List Char) : Scan :=
  ⟨text.length, .start text, #[], 0, [], true, noKey 0, #[], #[], text.head? == some '\ufeff'⟩

def count (s : Scan) : Nat := s.tokens.size

def level (s : Scan) : Nat := s.inner.size

def inFlow (s : Scan) : Bool := !s.inner.isEmpty

/-- The least column of what belongs to the innermost block. -/
def limit (s : Scan) : Nat := (s.columns.head?.map (· + 1)).getD 0

def place (s : Scan) : KeyPlace := s.inner.back?.getD s.outer

def setPlace (s : Scan) (k : KeyPlace) : Scan :=
  if s.inFlow then { s with inner := s.inner.pop.push k } else { s with outer := k }

def stopWaiting (s : Scan) (token : Nat) : Scan :=
  { s with waiting := s.waiting.filter (·.1 ≠ token) }

def push (s : Scan) (t : Token) : Scan := { s with tokens := s.tokens.push t }

/-- Puts a token in front of the one with a number, or to the end if that one was read. -/
def insert (s : Scan) (number : Nat) (t : Token) : Scan :=
  if number < s.read then s.push t
  else { s with tokens := s.tokens.insertIdxIfInBounds number t }

def dropKey (s : Scan) : Option Scan :=
  let k := s.place
  if !k.isPossible then some s
  else if k.isRequired then none
  else some ((s.setPlace { k with isPossible := false }).stopWaiting k.token)

def noteKey (s : Scan) : Option Scan :=
  if !s.keyAllowed then some s
  else do
    let c := s.cursor
    let required := !s.inFlow && s.columns.head? == some c.column
    let s ← s.dropKey
    let s := s.setPlace ⟨true, required, s.count, c.index, c.line, c.column⟩
    return { s with waiting := s.waiting.push (s.count, s.level) }

/-- A key has to end on its line and within this many characters. -/
def keyLength : Nat := 1024

def isStale (s : Scan) (k : KeyPlace) : Bool :=
  k.line < s.cursor.line || k.index + keyLength < s.cursor.index

/-- How many blocks may be open, and how many brackets and braces. -/
def maxLevel : Nat := 10000

/-- Opens a block at a column, unless the innermost one is as deep. Its token goes in front of
the one with a number, or to the end. -/
def openBlock (s : Scan) (column : Nat) (number : Option Nat) (t : Token) : Option Scan :=
  if s.inFlow || (s.columns.head?.map fun c => decide (column ≤ c)).getD false then some s
  else if maxLevel ≤ s.columns.length then none
  else
    let s := { s with columns := column :: s.columns }
    match number with
    | some n => some (s.insert n t)
    | none => some (s.push t)

def closeBlocks (s : Scan) (column : Option Nat) : Scan :=
  if s.inFlow then s
  else
    let isDeeper (c : Nat) : Bool := (column.map fun limit => decide (limit < c)).getD true
    let closed := (s.columns.takeWhile isDeeper).length
    { s with
      tokens := s.tokens ++ Array.replicate closed .blockEnd
      columns := s.columns.drop closed }

/-- Steps over the first character of a line of a marked text, whatever it is. The last few
characters of the text are not looked at. -/
def pastMark (s : Scan) : Cursor :=
  if s.isMarked && s.cursor.column == 0 && (s.cursor.peek 3).isSome then s.cursor.skip
  else s.cursor

/-- Steps to the next token. Tabs count as white space only where no key may start. -/
def toToken : Nat → Scan → Scan
  | 0, s => s
  | n + 1, s =>
    let isSpace (d : Char) : Bool := d == ' ' || (d == '\t' && (s.inFlow || !s.keyAllowed))
    let c := (s.pastMark.takeWhile isSpace).2
    let c := if c.isAt '#' then c.dropComments s.size else c
    if c.breakAt 0 then
      toToken n { s with cursor := c.breakLine.2, keyAllowed := s.keyAllowed || !s.inFlow }
    else { s with cursor := c }

def take (s : Scan) (n : Nat) (t : Token) (keyAllowed : Bool) : Scan :=
  { s with cursor := s.cursor.skips n, keyAllowed := keyAllowed }.push t

def openFlow (s : Scan) (t : Token) : Option Scan := do
  let s ← s.noteKey
  if maxLevel ≤ s.level then none
  return { s with inner := s.inner.push (noKey s.count) }.take 1 t true

def closeFlow (s : Scan) (t : Token) : Option Scan := do
  let s ← s.dropKey
  let s := match s.inner.back? with
    | none => s
    | some k => { s with inner := s.inner.pop }.stopWaiting k.token
  return s.take 1 t false

def comma (s : Scan) : Option Scan := do
  return (← s.dropKey).take 1 .comma true

/-- A dash in front of an item. In brackets it is a token that nobody expects. -/
def item (s : Scan) : Option Scan := do
  if !s.inFlow && !s.keyAllowed then none
  let s ← s.openBlock s.cursor.column none .blockSequence
  return (← s.dropKey).take 1 .item true

def key (s : Scan) : Option Scan := do
  if !s.inFlow && !s.keyAllowed then none
  let s ← s.openBlock s.cursor.column none .blockMapping
  return (← s.dropKey).take 1 .key (!s.inFlow)

/-- A colon behind a key. If the place of a key is known, the key starts there. -/
def value (s : Scan) : Option Scan := do
  let k := s.place
  if k.isPossible && !s.isStale k then
    let s ← (s.insert k.token .key).openBlock k.column (some k.token) .blockMapping
    return ((s.setPlace { k with isPossible := false }).stopWaiting k.token).take 1 .value false
  else if k.isPossible && k.isRequired then none
  else
    let s := s.setPlace { k with isPossible := false }
    if s.inFlow then return s.take 1 .value false
    else if !s.keyAllowed then none
    else return (← s.openBlock s.cursor.column none .blockMapping).take 1 .value true

def word (s : Scan) (read : Cursor → Option (Token × Cursor)) : Option Scan := do
  let s ← s.noteKey
  let (t, next) ← read s.cursor
  return { s with cursor := next, keyAllowed := false }.push t

def plain (s : Scan) : Option Scan := do
  let s ← s.noteKey
  let c := s.cursor
  let (text, broken, next) ← Plain.read s.inFlow s.limit s.size [] .empty c
  return { s with cursor := next, keyAllowed := broken }.push (.scalar true (String.ofList text))

def block (s : Scan) (folded : Bool) : Option Scan := do
  let s ← s.dropKey
  let (text, next) ← Block.read folded s.limit s.cursor.skip
  return { s with cursor := next, keyAllowed := true }.push (.scalar false (String.ofList text))

def quoted (isSingle : Bool) (c : Cursor) : Option (Token × Cursor) := do
  let (text, next) ← Quoted.read isSingle c.rest.length [] c.skip
  return (.scalar false (String.ofList text), next)

/-- Takes a token that stands outside of all blocks. -/
def apart (s : Scan) (read : Cursor → Option (Token × Cursor)) : Option Scan := do
  let s ← (s.closeBlocks none).dropKey
  let (t, next) ← read s.cursor
  return { s with cursor := next, keyAllowed := false }.push t

/-- The end of the text is the start of a line. -/
def finish (s : Scan) : Option Scan := do
  let c := s.cursor
  let c := if c.column = 0 then c else { c with line := c.line + 1, column := 0 }
  { s with cursor := c }.apart fun c => some (.streamEnd, c)

def isMark (c : Char) : Bool :=
  ['-', '?', ':', ',', '[', ']', '\x7b', '\x7d', '#', '&', '*', '!', '|', '>', '\'', '"', '%', '@',
    '\x60'].contains c

/-- Whether a plain text may start here: also with a dash, and outside of brackets with a question
mark or a colon, if the next character is none of white space. -/
def startsPlain (s : Scan) : Bool :=
  let c := s.cursor
  match c.peek 0 with
  | none => false
  | some d =>
    !(isMark d || c.stopAt 0) || (d == '-' && !c.gapAt 1) ||
      (!s.inFlow && (d == '?' || d == ':') && !c.stopAt 1)

def content (s : Scan) : Option Scan :=
  let c := s.cursor
  match c.peek 0 with
  | some '[' => s.openFlow .openSequence
  | some '\x7b' => s.openFlow .openMapping
  | some ']' => s.closeFlow .closeSequence
  | some '\x7d' => s.closeFlow .closeMapping
  | some ',' => s.comma
  | some '*' => s.word fun c => (name? c.skip).map fun (name, next) => (.reference name, next)
  | some '&' => s.word fun c => (name? c.skip).map fun (name, next) => (.anchor name, next)
  | some '!' => s.word Tag.read?
  | some '\'' => s.word (quoted true)
  | some '"' => s.word (quoted false)
  | some d =>
    if d == '-' && c.stopAt 1 then s.item
    else if d == '?' && (s.inFlow || c.stopAt 1) then s.key
    else if d == ':' && (s.inFlow || c.stopAt 1) then s.value
    else if d == '|' && !s.inFlow then s.block false
    else if d == '>' && !s.inFlow then s.block true
    else if s.startsPlain then s.plain
    else none
  | none => none

/-- Takes the next token with all that it closes. A comment on its line goes with it, unless it
is a dash. -/
def next (s : Scan) : Option Scan := do
  let s := s.toToken (s.size + 1)
  let s := s.closeBlocks (some s.cursor.column)
  let c := s.cursor
  if c.atEnd then s.finish
  else if c.column = 0 ∧ c.isAt '%' then s.apart Directive.read?
  else if c.isMarker Cursor.startMark then s.apart fun c => some (.documentStart, c.skips 3)
  else if c.isMarker Cursor.endMark then s.apart fun c => some (.documentEnd, c.skips 3)
  else
    let s ← s.content
    if s.tokens.back? = some .item then return s
    else return { s with cursor := s.cursor.dropLineComment }

def placeOf? (s : Scan) (level : Nat) : Option KeyPlace :=
  if level = 0 then some s.outer else s.inner[level - 1]?

/-- Whether a token cannot be read yet because it may turn out to start a key, or cannot be read
at all because it should have. -/
def isBlocked (s : Scan) (token : Nat) : Bool :=
  match (s.waiting.find? (·.1 = token)).bind fun w => s.placeOf? w.2 with
  | some k => k.isPossible && (!s.isStale k || k.isRequired)
  | none => false

def advance (s : Scan) : Nat → Scan
  | 0 => s
  | more + 1 => if s.isBlocked s.read then s else { s with read := s.read + 1 }.advance more

def readTokens (s : Scan) : List Token := s.tokens.toList.take s.read

/-- All tokens that can be read. If the text is broken they do not end with the end of the stream,
and two that are known are held back. -/
def run : Nat → Scan → List Token
  | 0, _ => []
  | n + 1, s =>
    match s.next with
    | none => s.readTokens
    | some s =>
      if s.tokens.back? = some .streamEnd then (s.advance (s.count - s.read)).readTokens
      else run n (s.advance (s.count - 2 - s.read))

end Scan

def tokens (text : List Char) : List Token := (Scan.start text).run (text.length + 2)

end SurveyForms.Config.Yaml
