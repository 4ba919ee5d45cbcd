import SurveyForms.Config.Yaml.Scan

/-! The tree of the first document of a configuration file. Values can have names, and an alias
stands for the value that last got its name. -/
namespace SurveyForms.Config.Yaml

inductive Node where
  /-- A text with the tag that it was given. -/
  | scalar (tag : Option String) (text : String)
  | sequence (items : List Node)
  | mapping (entries : List (Node × Node))
  /-- The alias with a number, for the named value with a number. -/
  | reference (number name : Nat) (text : String)

/-- A document: its value, its named values by their numbers, and a bound for the number of steps
from one value to the next inside of it. -/
structure Document where
  root : Node
  named : List (Nat × Node)
  size : Nat

namespace Tag

def standard : String := "tag:yaml.org,2002:"

/-- Tags of the standard are written with two exclamation marks. -/
def short (tag : String) : String :=
  let head := standard.toList
  if head.isPrefixOf tag.toList then "!!" ++ String.ofList (tag.toList.drop head.length) else tag

def text : String := "!!str"

def handles : List (String × String) := [("!", "!"), ("!!", standard)]

end Tag

namespace Node

def absent : Node := .scalar none ""

/-- The state of a reader: the tokens that are left, what tag handles stand for, the last value
of each name, how many names and aliases there are, and the named values. -/
structure Reading where
  tokens : List Token
  handles : List (String × String)
  names : List (String × Nat)
  nameCount : Nat
  aliasCount : Nat
  named : List (Nat × Node)

abbrev Reader := StateT Reading Option

structure Properties where
  anchor : Option String
  tag : Option String

/-- An exclamation mark alone says nothing. -/
def Properties.meaning (p : Properties) : Option String := (p.tag.filter (· ≠ "!")).map Tag.short

namespace Reader

/-- The next token. Where the text is broken there is none. -/
def peek : Reader Token := do
  match (← get).tokens with
  | [] => failure
  | t :: _ => return t

def skip : Reader Unit := modify fun r => { r with tokens := r.tokens.tail }

def anchor? : Reader (Option String) := do
  match ← peek with
  | .anchor name =>
    skip
    return some name
  | _ => return none

def tag? : Reader (Option String) := do
  match ← peek with
  | .tag handle suffix =>
    skip
    if handle = "" then return some suffix
    match (← get).handles.find? (·.1 = handle) with
    | some (_, head) => return some (head ++ suffix)
    | none => failure
  | _ => return none

/-- An anchor and a tag in either order. -/
def properties : Reader Properties := do
  match ← anchor? with
  | some name => return ⟨some name, ← tag?⟩
  | none =>
    match ← tag? with
    | some tag => return ⟨← anchor?, some tag⟩
    | none => return ⟨none, none⟩

def bind : Option String → Reader (Option Nat)
  | none => return none
  | some name => do
    let n := (← get).nameCount
    modify fun r => { r with names := (name, n) :: r.names, nameCount := n + 1 }
    return some n

def keep (number : Option Nat) (node : Node) : Reader Node := do
  if let some n := number then modify fun r => { r with named := (n, node) :: r.named }
  return node

def reference (name : String) : Reader Node := do
  let r ← get
  match r.names.find? (·.1 = name) with
  | none => failure
  | some (_, n) =>
    set { r with aliasCount := r.aliasCount + 1 }
    return .reference r.aliasCount n name

/-- Properties without a value are an empty text; nothing at all is refused. -/
def empty (p : Properties) : Reader Node :=
  if p.anchor.isNone && p.tag.isNone then failure
  else do keep (← bind p.anchor) (.scalar p.meaning "")

mutual

/-- A value. Blocks are possible only outside of brackets, and items without deeper columns only
below a key. -/
def value (fuel : Nat) (inBlock itemsToo : Bool) : Reader Node :=
  match fuel with
  | 0 => failure
  | fuel + 1 => do
    match ← peek with
    | .reference name =>
      skip
      reference name
    | _ =>
      let p ← properties
      let t ← peek
      match t with
      | .scalar isPlain text =>
        skip
        keep (← bind p.anchor)
          (.scalar (p.meaning.or (if isPlain then none else some Tag.text)) text)
      | .openSequence =>
        skip
        let n ← bind p.anchor
        keep n (.sequence (← flowItems fuel true))
      | .openMapping =>
        skip
        let n ← bind p.anchor
        keep n (.mapping (← flowEntries fuel true))
      | _ =>
        if t = .item ∧ itemsToo then
          let n ← bind p.anchor
          keep n (.sequence (← looseItems fuel))
        else if t = .blockSequence ∧ inBlock then
          skip
          let n ← bind p.anchor
          keep n (.sequence (← blockItems fuel))
        else if t = .blockMapping ∧ inBlock then
          skip
          let n ← bind p.anchor
          keep n (.mapping (← blockEntries fuel))
        else empty p

def valueUnless (fuel : Nat) (inBlock itemsToo : Bool) (ends : List Token) : Reader Node :=
  match fuel with
  | 0 => failure
  | fuel + 1 => do
    if ends.contains (← peek) then return absent else value fuel inBlock itemsToo

def valueOfKey (fuel : Nat) (inBlock : Bool) (ends : List Token) : Reader Node :=
  match fuel with
  | 0 => failure
  | fuel + 1 => do
    if (← peek) = .value then
      skip
      valueUnless fuel inBlock inBlock ends
    else return absent

def blockItems (fuel : Nat) : Reader (List Node) :=
  match fuel with
  | 0 => failure
  | fuel + 1 => do
    match ← peek with
    | .item =>
      skip
      let first ← valueUnless fuel true false [.item, .blockEnd]
      return first :: (← blockItems fuel)
    | .blockEnd =>
      skip
      return []
    | _ => failure

/-- Items at the column of the key above them. -/
def looseItems (fuel : Nat) : Reader (List Node) :=
  match fuel with
  | 0 => failure
  | fuel + 1 => do
    match ← peek with
    | .item =>
      skip
      let first ← valueUnless fuel true false [.item, .key, .value, .blockEnd]
      return first :: (← looseItems fuel)
    | _ => return []

def blockEntries (fuel : Nat) : Reader (List (Node × Node)) :=
  match fuel with
  | 0 => failure
  | fuel + 1 => do
    match ← peek with
    | .key =>
      skip
      let k ← valueUnless fuel true true [.key, .value, .blockEnd]
      let v ← valueOfKey fuel true [.key, .value, .blockEnd]
      return (k, v) :: (← blockEntries fuel)
    | .blockEnd =>
      skip
      return []
    | _ => failure

/-- A key and a value in brackets. If the key is left out, the token in its place is lost. -/
def pair (fuel : Nat) : Reader (Node × Node) :=
  match fuel with
  | 0 => failure
  | fuel + 1 => do
    let k ←
      if [Token.value, .comma, .closeSequence].contains (← peek) then do
        skip
        pure absent
      else value fuel false false
    return (k, ← valueOfKey fuel false [.comma, .closeSequence])

def flowItems (fuel : Nat) (isFirst : Bool) : Reader (List Node) :=
  match fuel with
  | 0 => failure
  | fuel + 1 => do
    if (← peek) = .closeSequence then
      skip
      return []
    if !isFirst then
      if (← peek) = .comma then skip else failure
    match ← peek with
    | .closeSequence =>
      skip
      return []
    | .key =>
      skip
      let entry ← pair fuel
      return .mapping [entry] :: (← flowItems fuel false)
    | _ =>
      let first ← value fuel false false
      return first :: (← flowItems fuel false)

/-- The entries of braces up to the closing one. A text without a key mark has no value. -/
def flowEntries (fuel : Nat) (isFirst : Bool) : Reader (List (Node × Node)) :=
  match fuel with
  | 0 => failure
  | fuel + 1 => do
    if (← peek) = .closeMapping then
      skip
      return []
    if !isFirst then
      if (← peek) = .comma then skip else failure
    match ← peek with
    | .closeMapping =>
      skip
      return []
    | .key =>
      skip
      let k ← valueUnless fuel false false [.value, .comma, .closeMapping]
      let v ← valueOfKey fuel false [.comma, .closeMapping]
      return (k, v) :: (← flowEntries fuel false)
    | _ =>
      let k ← value fuel false false
      return (k, absent) :: (← flowEntries fuel false)

end

/-- The directives in front of a document. There may be one version, and one meaning for each
handle. -/
def directives (fuel : Nat) (versionSeen : Bool) (seen : List (String × String)) : Reader Unit :=
  match fuel with
  | 0 => failure
  | fuel + 1 => do
    match ← peek with
    | .version major minor =>
      if versionSeen || major ≠ 1 || minor ≠ 1 then failure
      skip
      directives fuel true seen
    | .handle name text =>
      if seen.any (·.1 = name) then failure
      skip
      directives fuel versionSeen ((name, text) :: seen)
    | _ => modify fun r => { r with handles := seen ++ Tag.handles }

/-- The first document, if there is one. What follows it only has to start with a token. -/
def document (fuel : Nat) : Reader (Option Node) := do
  let isStart : Token → Bool
    | .version _ _ | .handle _ _ | .documentStart => true
    | _ => false
  let first ← peek
  if first = .streamEnd then return none
  let root ←
    if isStart first then do
      directives fuel false []
      if (← peek) ≠ .documentStart then failure
      skip
      let next ← peek
      if isStart next || next = .documentEnd || next = .streamEnd then pure absent
      else value fuel true false
    else value fuel true false
  let _ ← peek
  return some root

end Reader

def ofTokens? (ts : List Token) : Option (Option Document) := do
  let size := 8 * ts.length + 16
  let (root, r) ← (Reader.document size).run ⟨ts, Tag.handles, [], 0, 0, []⟩
  return root.map fun node => ⟨node, r.named, size⟩

end Node

def isAllowed (c : Char) : Bool :=
  c == '\t' || c == '\n' || c == '\r' || c == '\u0085' || (' ' ≤ c && c ≤ '~') ||
    ('\u00a0' ≤ c && c ≤ '\ufffd') || 0x10000 ≤ c.toNat

/-- The first document of a text. A byte order mark in front does not count. The inner result is
empty if there is no document, the outer one if the text is broken. -/
def document? (text : String) : Option (Option Document) :=
  let cs := text.toList
  let cs := if cs.head? == some '\ufeff' then cs.tail else cs
  if cs.all isAllowed then Node.ofTokens? (tokens cs) else none

end SurveyForms.Config.Yaml
