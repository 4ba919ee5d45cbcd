import SurveyForms.Text.Bytes

/-! What is wrong with a text file that is read as a workbook. A workbook file is a zip archive; a
text can at most be the directory of an archive without a workbook in it. -/
namespace SurveyForms

inductive PackageFault where
  | notArchive
  /-- The directory of the archive breaks off. -/
  | brokenOff
  /-- An archive without a workbook. -/
  | noWorkbook
  /-- A file of the archive is said to start behind the end. -/
  | noFile
  /-- A file of the archive is said to start in front of all. -/
  | negativePlace
  /-- A file of the archive is packed in an unknown way. -/
  | unknownMethod
  deriving DecidableEq, Repr

namespace PackageFault

def message : PackageFault → String
  | .notArchive => "zip: not a valid zip file"
  | .brokenOff => "unexpected EOF"
  | .noWorkbook | .noFile => "EOF"
  | .negativePlace => "bytes.Reader.ReadAt: negative offset"
  | .unknownMethod => "zip: unsupported compression algorithm"

end PackageFault

namespace Package

def number (bytes : List Nat) (offset width : Nat) : Nat :=
  ((bytes.drop offset).take width).foldr (fun byte n => byte + 256 * n) 0

/-- The bytes that the end of a directory, one of its entries and the header of a file begin with,
and their lengths without what has no fixed length. -/
def endMark : List Nat := [0x50, 0x4b, 5, 6]
def entryMark : List Nat := [0x50, 0x4b, 1, 2]
def headerMark : List Nat := [0x50, 0x4b, 3, 4]
def endLength : Nat := 22
def entryLength : Nat := 46
def headerLength : Nat := 30

/-- What a directory says about a file: how it is packed, where its header is, and whether it is
a folder. -/
structure Entry where
  method : Nat
  place : Nat
  isFolder : Bool

namespace Entry

def ofBytes (bytes : List Nat) : Entry :=
  let name := (bytes.drop entryLength).take (number bytes 28 2)
  ⟨number bytes 10 2, number bytes 42 4, name.getLast? == some '/'.toNat⟩

/-- Files are kept as they are, or compressed. -/
def methods : List Nat := [0, 8]

def fault? (bytes : List Nat) (start : Int) (e : Entry) : Option PackageFault :=
  let place := start + e.place
  let header := (bytes.drop place.toNat).take headerLength
  if place < 0 then some .negativePlace
  else if header.length < headerLength then some .noFile
  else if ¬ headerMark.isPrefixOf header then some .notArchive
  else if e.isFolder ∨ e.method ∈ methods then none
  else some .unknownMethod

end Entry

/-- The last place where a directory may end, as the bytes from there on. -/
def lastEnd? : List Nat → Option (List Nat)
  | [] => none
  | byte :: rest =>
    (lastEnd? rest).or
      (if endMark.isPrefixOf (byte :: rest) ∧ endLength ≤ rest.length + 1 then some (byte :: rest)
      else none)

/-- The end of the directory is looked for among so many bytes at the end of the file. -/
def window : Nat := 65 * 1024

def entries (bytes : List Nat) : List Entry × PackageFault :=
  if bytes.isEmpty then ([], .noWorkbook)
  else if bytes.length < entryLength then ([], .brokenOff)
  else if ¬ entryMark.isPrefixOf bytes then ([], .notArchive)
  else
    let more := number bytes 28 2 + number bytes 30 2 + number bytes 32 2
    let rest := bytes.drop entryLength
    if more ≤ rest.length then
      let (others, fault) := entries (rest.drop more)
      (Entry.ofBytes bytes :: others, fault)
    else ([], if rest.isEmpty then .noWorkbook else .brokenOff)
termination_by bytes.length
decreasing_by
  simp only [List.isEmpty_iff] at *
  have := List.length_pos_iff.2 ‹_›
  simp [entryLength]
  omega

/-- What is wrong with the archive that ends with the given bytes. A directory may have moved as
a whole with the archive, if there is none where it should be. -/
def endFault (bytes last : List Nat) : PackageFault :=
  let place := bytes.length - last.length
  let size := number last 12 4
  let offset := number last 16 4
  if last.length < endLength + number last 20 2 ∨ place < size then .notArchive
  else
    let moved : Int := (place : Int) - size - offset
    let moved := if 0 < moved ∧ ¬ (entries (bytes.drop offset)).1.isEmpty then 0 else moved
    let (found, fault) := entries (bytes.drop (moved + offset).toNat)
    if fault = .noWorkbook ∨ found.length % 65536 ≠ number last 10 2 then fault
    else (found.findSome? (Entry.fault? bytes moved)).getD .noWorkbook

def fault (bytes : List Nat) : PackageFault :=
  match lastEnd? (bytes.drop (bytes.length - window)) with
  | some last => endFault bytes last
  | none => .notArchive

end Package
end SurveyForms
