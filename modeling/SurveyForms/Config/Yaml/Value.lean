import SurveyForms.Config.Scalar
import SurveyForms.Config.Yaml.Node

/-! The entries of a configuration file. Entries of the mappings behind the key `<<` count where
a key is not given otherwise. No key may come twice in one mapping, no alias may stand inside of
what it stands for, and a document that is mostly copies is refused. -/
namespace SurveyForms.Config.Yaml

/-- A value. Of a collection nothing but its presence is kept. -/
inductive Value where
  | scalar (value : Scalar)
  | collection
  deriving DecidableEq, Repr

namespace Value

/-- How many values were read, and how many of them as copies. -/
structure Tally where
  values : Nat
  copies : Nat

/-- Whether too many of the values read are copies: more than 99 of 100, and down to 10 of 100 for
very large documents. Few values or copies are never too many. -/
def Tally.isExcessive (t : Tally) : Bool :=
  let low := 400000
  let range := 3600000
  1000 < t.values && 100 < t.copies &&
    if t.values ≤ low then 99 * t.values < 100 * t.copies
    else if low + range ≤ t.values then 10 * t.values < 100 * t.copies
    else t.values * (99 * range - 89 * (t.values - low)) < 100 * t.copies * range

abbrev Decoder := StateT Tally Option

/-- Where a decoder is: the named values of the document, and the aliases that are being read. -/
structure Context where
  named : List (Nat × Node)
  active : List Nat

namespace Context

def count (c : Context) : Decoder Unit := do
  modify fun t => ⟨t.values + 1, if c.active.isEmpty then t.copies else t.copies + 1⟩
  if (← get).isExcessive then failure

def enter (c : Context) (number name : Nat) : Decoder (Node × Context) := do
  if c.active.contains number then failure
  match c.named.find? (·.1 = name) with
  | some (_, node) => return (node, { c with active := number :: c.active })
  | none => failure

end Context

def mergeTag : String := "!!merge"

def isMerge : Node → Bool
  | .scalar tag text => text == "<<" && (tag.isNone || tag == some mergeTag)
  | _ => false

def isText : Node → Bool
  | .scalar none text =>
    match Scalar.ofPlain true text with
    | .text _ => true
    | _ => false
  | .scalar (some tag) _ => tag == Tag.text || tag == mergeTag
  | _ => false

def Context.isTextKey (c : Context) : Node → Bool
  | .reference _ name _ => (c.named.find? (·.1 = name)).any fun named => isText named.2
  | key => isText key

/-- Whether two keys are written alike. All collections are. -/
def sameKey : Node → Node → Bool
  | .scalar _ a, .scalar _ b => a == b
  | .reference _ _ a, .reference _ _ b => a == b
  | .sequence _, .sequence _ | .mapping _, .mapping _ => true
  | _, _ => false

def hasDouble : List Node → Bool
  | [] => false
  | k :: ks => ks.any (sameKey k) || hasDouble ks

abbrev Entries := List (Scalar × Value)

def put (es : Entries) (k : Scalar) (v : Value) : Entries :=
  es.filter (·.1 ≠ k) ++ [(k, v)]

/-- The entries so far, and the keys that later mappings may not give again. -/
structure Merging where
  entries : Entries
  taken : Option (List Scalar)

mutual

def ofNode (fuel : Nat) (c : Context) (node : Node) : Decoder Value :=
  match fuel with
  | 0 => failure
  | fuel + 1 => do
    c.count
    match node with
    | .scalar tag text =>
      match Scalar.ofTagged? tag text with
      | some s => return .scalar s
      | none => failure
    | .sequence items =>
      ofItems fuel c items
      return .collection
    | .mapping es =>
      let _ ← ofMapping fuel c (es.all fun e => c.isTextKey e.1) es ⟨[], none⟩
      return .collection
    | .reference number name _ =>
      let (target, c) ← c.enter number name
      ofNode fuel c target

def ofItems (fuel : Nat) (c : Context) (items : List Node) : Decoder Unit :=
  match fuel with
  | 0 => failure
  | fuel + 1 => do
    match items with
    | [] => return
    | item :: rest =>
      let _ ← ofNode fuel c item
      ofItems fuel c rest

/-- A key. Where keys are texts, one that is null is none. -/
def ofKey (fuel : Nat) (c : Context) (asText : Bool) (node : Node) : Decoder (Option Scalar) :=
  match fuel with
  | 0 => failure
  | fuel + 1 => do
    c.count
    match node with
    | .scalar tag text =>
      match Scalar.ofTagged? tag text with
      | none => failure
      | some (.text s) => return some (.text s)
      | some .null => return if asText then none else some .null
      | some s => return some (if asText then .text text else s)
    | .reference number name _ =>
      let (target, c) ← c.enter number name
      ofKey fuel c asText target
    | _ => failure

/-- Adds the entries of a mapping, then those of the mappings that it merges. -/
def ofMapping (fuel : Nat) (c : Context) (asText : Bool) (es : List (Node × Node)) (m : Merging) :
    Decoder Merging :=
  match fuel with
  | 0 => failure
  | fuel + 1 => do
    if hasDouble (es.map (·.1)) then failure
    let m ← ofEntries fuel c asText es m
    match es.find? fun e => isMerge e.1 with
    | none => return m
    | some (_, source) =>
      let taken ← match m.taken with
        | some keys => pure keys
        | none => ofKeys fuel c (es.map (·.1))
      let merged ← ofSource fuel c asText source ⟨m.entries, some taken⟩
      return ⟨merged.entries, m.taken.bind fun _ => merged.taken⟩

def ofEntries (fuel : Nat) (c : Context) (asText : Bool) (es : List (Node × Node)) (m : Merging) :
    Decoder Merging :=
  match fuel with
  | 0 => failure
  | fuel + 1 => do
    match es with
    | [] => return m
    | (k, v) :: rest =>
      if isMerge k then ofEntries fuel c asText rest m
      else match ← ofKey fuel c asText k with
        | none => ofEntries fuel c asText rest m
        | some key =>
          if (m.taken.getD []).contains key then ofEntries fuel c asText rest m
          else
            let value ← ofNode fuel c v
            ofEntries fuel c asText rest ⟨put m.entries key value, m.taken.map (key :: ·)⟩

def ofKeys (fuel : Nat) (c : Context) (ks : List Node) : Decoder (List Scalar) :=
  match fuel with
  | 0 => failure
  | fuel + 1 => do
    match ks with
    | [] => return []
    | k :: rest =>
      let key ← ofKey fuel c false k
      return key.toList ++ (← ofKeys fuel c rest)

/-- Adds what is merged: a mapping, or a sequence of them. -/
def ofSource (fuel : Nat) (c : Context) (asText : Bool) (source : Node) (m : Merging) :
    Decoder Merging :=
  match fuel with
  | 0 => failure
  | fuel + 1 => do
    match source with
    | .sequence items => ofSources fuel c asText items m
    | node => ofMerged fuel c asText node m

def ofSources (fuel : Nat) (c : Context) (asText : Bool) (items : List Node) (m : Merging) :
    Decoder Merging :=
  match fuel with
  | 0 => failure
  | fuel + 1 => do
    match items with
    | [] => return m
    | item :: rest => ofSources fuel c asText rest (← ofMerged fuel c asText item m)

def ofMerged (fuel : Nat) (c : Context) (asText : Bool) (node : Node) (m : Merging) :
    Decoder Merging :=
  match fuel with
  | 0 => failure
  | fuel + 1 => do
    c.count
    match node with
    | .mapping es => ofMapping fuel c asText es m
    | .reference number name _ =>
      let (target, c) ← c.enter number name
      match target with
      | .mapping es =>
        c.count
        ofMapping fuel c asText es m
      | _ => failure
    | _ => failure

end

/-- The entries of a document that is a mapping; null is a mapping without entries. -/
def ofDocument (d : Document) (fuel : Nat) : Decoder Entries := do
  let c : Context := ⟨d.named, []⟩
  c.count
  match d.root with
  | .mapping es =>
    c.count
    return (← ofMapping fuel c true es ⟨[], none⟩).entries
  | .scalar tag text =>
    if Scalar.ofTagged? tag text = some .null then return [] else failure
  | _ => failure

end Value

/-- The entries of a configuration file by their keys. Broken files have none, empty ones no
entry. -/
def entries? (text : String) : Option (List (String × Value)) := do
  match ← document? text with
  | none => return []
  | some d =>
    let (es, _) ← (Value.ofDocument d (d.size * d.size)).run ⟨0, 0⟩
    return es.filterMap fun (k, v) =>
      match k with
      | .text name => some (name, v)
      | _ => none

end SurveyForms.Config.Yaml
