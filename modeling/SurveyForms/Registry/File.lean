import SurveyForms.Files.Tree
import SurveyForms.Registry.Address

/-! Registries opened in a file tree. Opening creates a registry that is not there and brings an
old one up to date. -/
namespace SurveyForms.Registry

inductive OpenError where
  | address (fault : AddressFault)
  | notRegistry
  | unopenable
  /-- The file may only be read; `isNew` says that it holds no registry yet. -/
  | readOnly (isNew : Bool)
  | upgrade (cause : UpgradeError RegistryFault)
  deriving DecidableEq, Repr

namespace OpenError

/-- The first thing that is done with an opened file. -/
def firstStep : String := "PRAGMA journal_mode = WAL"

def message : OpenError → String
  | .address fault => firstStep ++ ": " ++ fault.message
  | .notRegistry => firstStep ++ ": file is not a database (26)"
  | .unopenable => firstStep ++ ": unable to open database file: out of memory (14)"
  | .readOnly isNew => (if isNew then firstStep else VersionStep.fill.text) ++
    ": attempt to write a readonly database (8)"
  | .upgrade cause => cause.message RegistryFault.message

end OpenError

/-- The bytes that the full path of a registry has room for. -/
def maxPath : Nat := 512

/-- Whether the way to a path can be followed by its text alone: a directory that the path only
passes through need not exist, but nothing else may stand in its place. -/
def followable (t : FileTree) (walked : List String) : List String → Bool
  | [] => true
  | name :: rest =>
    let next := Path.step true walked name
    let stepsIn := walked.length < next.length
    let isGood := match t.find? walked.reverse with
      | some .directory => name.utf8ByteSize ≤ FileTree.maxName
      | some _ => false
      | none => true
    (!stepsIn || isGood) && followable t next rest

/-- What stands at the path of a registry once it is open. -/
def openFile (t : FileTree) (a : Address) : Except OpenError Content :=
  let start := if Path.isAbsolute a.path then [] else t.home.reverse
  if a.path.utf8ByteSize > maxPath ∨ !followable t start (Path.rawNames a.path) then
    .error .unopenable
  else match t.find? (t.locate a.path) with
    | some .directory => .error .unopenable
    | some content => .ok content
    | none =>
      if a.access = .create ∧ t.find? (t.locate a.path).dropLast = some .directory then
        .ok (.text "")
      else .error .unopenable

/-- The registry in the content of a file, before it is brought up to date. A file of at most one
byte counts as empty. -/
def ofContent (a : Address) (content : Content) : Except OpenError Registry := do
  let (isNew, registry) ← match content with
    | .registry r => .ok (false, r)
    | .text text => if text.utf8ByteSize ≤ 1 then .ok (true, empty) else .error .notRegistry
    | _ => .error .notRegistry
  if a.access = .readOnly then throw (.readOnly isNew)
  return registry

def upToDate (found : Registry) : Registry × Except OpenError Registry :=
  match migrate migrations found with
  | (r, none) => (r, .ok r)
  | (r, some cause) => (r, .error (.upgrade cause))

def keepAt (t : FileTree) (a : Address) (r : Registry) : FileTree :=
  if a.isTransient then t else t.put (t.locate a.path) (.registry r)

def keep (t : FileTree) (address : String) (r : Registry) : FileTree :=
  match Address.ofString address with
  | .ok a => keepAt t a r
  | .error _ => t

/-- Opens what is kept at an address. A file that is made stays, whatever fails later. -/
def openAddress (t : FileTree) (a : Address) (late : Option AddressFault) :
    FileTree × Except OpenError Registry :=
  if a.isTransient then
    match late with
    | some fault => (t, .error (.address fault))
    | none => (t, (upToDate empty).2)
  else match openFile t a with
    | .error e => (t, .error e)
    | .ok content =>
      let made := t.put (t.locate a.path) content
      match late, ofContent a content with
      | some fault, _ => (made, .error (.address fault))
      | none, .error e => (made, .error e)
      | none, .ok found => (keepAt made a (upToDate found).1, (upToDate found).2)

def openAt (t : FileTree) (address : String) : FileTree × Except OpenError Registry :=
  match Address.ofString address, Address.options address with
  | .ok a, .ok options => openAddress t a (Address.lateFault? options)
  | .error fault, _ | _, .error fault => (t, .error (.address fault))

end SurveyForms.Registry
