import SurveyForms.Path
import SurveyForms.Text.Bytes
import SurveyForms.Text.Case
import SurveyForms.Text.Hex
import SurveyForms.Text.Quoted

/-! Where a registry is kept. An address is a path, with options behind a question mark; it may
also be a locator such as `file:registry.db?mode=ro`, whose path and options are percent-encoded.
Options that change nothing that a registry shows are passed over. -/
namespace SurveyForms.Registry

inductive Access where
  | readOnly
  | existing
  /-- The file is made if there is none. -/
  | create
  /-- There is no file. -/
  | memory
  deriving DecidableEq, Repr

namespace Access

def ofName? : String → Option Access
  | "ro" => some .readOnly
  | "rw" => some .existing
  | "rwc" => some .create
  | "memory" => some .memory
  | _ => none

/-- How much an access asks for, and how much a later option may ask for behind it. -/
def demand : Access → Nat
  | .memory => 0
  | .readOnly => 1
  | .existing => 2
  | .create => 3

def bound : Access → Nat
  | .memory => 3
  | a => a.demand

end Access

inductive AddressFault where
  /-- A percent sign without two digits behind it, and what stands there. -/
  | escape (bytes : List Nat)
  | semicolon
  /-- More than one way to reach files is asked for. -/
  | conflict (systems : List String)
  /-- Something that does not exist is asked for. -/
  | unknown
  /-- More is asked for than an option in front allows. -/
  | forbidden
  | timeFormat (name : String)
  | lock (name : String)
  deriving DecidableEq, Repr

namespace AddressFault

/-- Bytes in double quotes; one that is not part of a character is shown by its number. -/
def quoteBytes : List Nat → List Char
  | [] => []
  | byte :: rest =>
    match Text.firstChar? (byte :: rest) with
    | some c => Text.quoteChar c ++ quoteBytes (rest.drop (c.utf8Size - 1))
    | none => '\\' :: 'x' :: Text.hexDigits 2 byte ++ quoteBytes rest
termination_by bytes => bytes.length
decreasing_by all_goals (simp only [List.length_cons, List.length_drop]; omega)

def message : AddressFault → String
  | .escape bytes => "invalid URL escape \"" ++ String.ofList (quoteBytes bytes) ++ "\""
  | .semicolon => "invalid semicolon separator in query"
  | .conflict systems =>
    "conflicting vfs query parameters: [" ++ String.intercalate " " systems ++ "]"
  | .unknown => "SQL logic error: out of memory (1)"
  | .forbidden => "access permission denied: out of memory (3)"
  | .timeFormat name => "unknown _time_format " ++ Text.quote name
  | .lock name => "unknown _txlock " ++ Text.quote name

end AddressFault

abbrev AddressOption := String × String

namespace AddressOption

def bytes (c : Char) : List Nat := (String.utf8EncodeChar c).map UInt8.toNat

def byte? (cs : List Char) : Option Nat :=
  if cs.length < 2 then none else Text.hexValue? (cs.take 2)

/-- Decodes a part strictly: a plus sign is a space, and a percent sign has to be an escape. -/
def decode : List Char → Except AddressFault (List Nat)
  | [] => .ok []
  | c :: cs =>
    if c = '%' then
      match byte? cs with
      | some byte => (decode (cs.drop 2)).map (byte :: ·)
      | none => .error (.escape (((c :: cs).flatMap bytes).take 3))
    else (decode cs).map (bytes (if c = '+' then ' ' else c) ++ ·)
termination_by cs => cs.length
decreasing_by all_goals (simp only [List.length_cons, List.length_drop]; omega)

/-- Decodes a part leniently: a percent sign that is no escape stands for itself, and the byte 0
ends the part. -/
def decodeLax : List Char → List Nat
  | [] => []
  | c :: cs =>
    if c = '%' then
      match byte? cs with
      | some byte => if byte = 0 then [] else byte :: decodeLax (cs.drop 2)
      | none => bytes c ++ decodeLax cs
    else bytes c ++ decodeLax cs
termination_by cs => cs.length
decreasing_by all_goals (simp only [List.length_cons, List.length_drop]; omega)

def text (bytes : List Nat) : String := String.ofList (Text.decodeBytes bytes)

def cutFirst (sep : Char) (cs : List Char) : List Char × List Char :=
  (cs.takeWhile (· ≠ sep), (cs.dropWhile (· ≠ sep)).drop 1)

/-- One option, decoded strictly; an empty part is none. -/
def ofPart (part : List Char) : Except AddressFault (Option AddressOption) :=
  if part.isEmpty then .ok none
  else if part.contains ';' then .error .semicolon
  else do
    let (name, value) := cutFirst '=' part
    return some (text (← decode name), text (← decode value))

/-- Of several faults a semicolon counts, else the first. -/
def firstFault? (faults : List AddressFault) : Option AddressFault :=
  if faults.contains .semicolon then some .semicolon else faults.head?

def parse (cs : List Char) : Except AddressFault (List AddressOption) :=
  let parts := (Text.cut '&' cs).map ofPart
  let faults := parts.filterMap fun | .error fault => some fault | .ok _ => none
  match firstFault? faults with
  | some fault => .error fault
  | none => .ok (parts.filterMap fun | .ok o => o | .error _ => none)

/-- The options of a locator, decoded leniently. Those without a name are left out. -/
def parseLax (cs : List Char) : List AddressOption :=
  ((Text.cut '&' cs).map fun part =>
    let (name, value) := cutFirst '=' part
    (text (decodeLax name), text (decodeLax value))).filter (·.1 ≠ "")

end AddressOption

structure Address where
  path : String
  access : Access
  deriving DecidableEq, Repr

namespace Address

/-- The ways to reach files; the last one reaches none. -/
def systems : List String := ["unix", "unix-dotfile", "unix-excl", "unix-none", "memdb"]

def apply (a : Address) (o : AddressOption) : Except AddressFault Address :=
  match o with
  | ("mode", value) =>
    match Access.ofName? value with
    | none => .error .unknown
    | some access =>
      if access.demand ≤ a.access.bound then .ok { a with access } else .error .forbidden
  | ("cache", value) => if value = "shared" ∨ value = "private" then .ok a else .error .unknown
  | _ => .ok a

/-- The way to reach files that options ask for; empty if they do not say. -/
def system (options : List AddressOption) : Except AddressFault String :=
  let named := (options.filter (·.1 = "vfs")).map (·.2)
  named.foldlM (fun system name =>
    if system = "" ∨ system = name then .ok name else .error (.conflict named)) ""

/-- Drops the part of a locator that names a machine, which has to be this one. -/
def withoutMachine : List Char → Except AddressFault (List Char)
  | '/' :: '/' :: cs =>
    let machine := String.ofList (cs.takeWhile (· ≠ '/'))
    if machine = "" ∨ machine = "localhost" then .ok (cs.dropWhile (· ≠ '/'))
    else .error .unknown
  | cs => .ok cs

def ofLocator (cs : List Char) : Except AddressFault Address := do
  let cs ← withoutMachine cs
  let (path, options) := AddressOption.cutFirst '?' (cs.takeWhile (· ≠ '#'))
  (AddressOption.parseLax options).foldlM apply
    ⟨AddressOption.text (AddressOption.decodeLax path), .create⟩

def scheme : List Char := "file:".toList

/-- The options of an address. A question mark at its very start is part of the path. -/
def options (s : String) : Except AddressFault (List AddressOption) :=
  match s.toList with
  | [] => .ok []
  | _ :: cs => AddressOption.parse (AddressOption.cutFirst '?' cs).2

/-- Reads an address. The byte 0 ends it. -/
def ofString (s : String) : Except AddressFault Address := do
  let system ← system (← options s)
  let path := match s.toList with
    | [] => []
    | c :: cs =>
      if scheme.isPrefixOf s.toList then s.toList else c :: (AddressOption.cutFirst '?' cs).1
  let path := path.takeWhile (· ≠ '\x00')
  let a ← if scheme.isPrefixOf path then ofLocator (path.drop scheme.length)
    else .ok ⟨String.ofList path, .create⟩
  if system = "memdb" then return { a with access := .memory }
  if system = "" ∨ system ∈ systems then return a else throw .unknown

/-- Whether an address names no file. -/
def isTransient (a : Address) : Bool :=
  a.access == .memory || a.path == "" || a.path == ":memory:"

/-- What is wrong with the options that are looked at once the file is open. A known format of
times ends the search. -/
def lateFault? (options : List AddressOption) : Option AddressFault :=
  let first (name : String) : String := ((options.find? (·.1 = name)).map (·.2)).getD ""
  let format := first "_time_format"
  let lock := first "_txlock"
  if format ≠ "" then if format = "sqlite" then none else some (.timeFormat format)
  else if lock = "" ∨ Text.lower lock ∈ ["deferred", "immediate", "exclusive"] then none
  else some (.lock lock)

end Address
end SurveyForms.Registry
