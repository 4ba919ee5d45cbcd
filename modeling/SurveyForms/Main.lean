import SurveyForms.CommandLine.Run
import SurveyForms.Files.Archive

/-! The command line on a disk. The files below the working directory are read before a run, and
those that the run changed are written after it. -/
namespace SurveyForms

/-- The files and directories below the working directory. Files that hold no text are left
out. -/
def readTree : IO FileTree := do
  let here ← IO.currentDir
  let mut tree := FileTree.ofHome (Path.ofString here.toString).names
  for path in ← here.walkDir do
    let names := (Path.ofString path.toString).names
    if ← path.isDir then tree := tree.put names .directory
    else
      try tree := tree.put names (Content.decode (← IO.FS.readFile path))
      catch _ => pure ()
  return tree

/-- Writes what differs from the files before. -/
def writeTree (before after : FileTree) : IO Unit := do
  for (names, content) in after.entries do
    if before.find? names ≠ some content then
      let path := FileTree.canonicalOf names
      if content = .directory then IO.FS.createDirAll path
      else IO.FS.writeFile path content.encode

/-- The present moment, by the clock of the file system. -/
def present : IO Moment := do
  let (_, path) ← IO.FS.createTempFile
  let time := (← path.metadata).modified.sec
  IO.FS.removeFile path
  return ⟨time, 0⟩

def environment : IO (List (String × String)) :=
  [Config.Key.logLevel, .registry, .lint, .output].filterMapM fun key => do
    return (← IO.getEnv key.environment).map (key.environment, ·)

end SurveyForms

def main (arguments : List String) : IO UInt32 := do
  let tree ← SurveyForms.readTree
  let known ← SurveyForms.environment
  let outcome := SurveyForms.CommandLine.run tree (fun name => known.lookup name)
    (← SurveyForms.present) arguments
  SurveyForms.writeTree tree outcome.files
  IO.print outcome.out
  IO.eprint outcome.err
  return outcome.code.toUInt32
