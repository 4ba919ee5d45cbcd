import SurveyForms.Text.Blank
import SurveyForms.Text.Lines

/-! The ignore file of a project, which has to name the registry and the files beside it. -/
namespace SurveyForms.Ignore

def fileName : String := ".gitignore"

/-- The line that covers a registry and the files that share its name. -/
def entry (registry : String) : String := registry ++ "*"

/-- Whether some line of a content, without the white space around it, is the entry. -/
def mentions (entry content : String) : Bool :=
  (Text.lines content.toList).any fun line => String.ofList (Text.trim line) == entry

/-- A content with the entry as a line of its own behind it. -/
def extend (entry content : String) : String :=
  let ended := if content.isEmpty || content.toList.getLast? == some '\n' then content
    else content ++ "\n"
  ended ++ entry ++ "\n"

/-- The new content for an old one, if it changes, and the lines to print. -/
def update (registry : String) : Option String → Option String × List String
  | none =>
    (some (entry registry ++ "\n"),
      [fileName ++ " created", entry registry ++ " added to " ++ fileName])
  | some content =>
    if mentions (entry registry) content then
      (none, [entry registry ++ " already in " ++ fileName])
    else (some (extend (entry registry) content), [entry registry ++ " added to " ++ fileName])

end SurveyForms.Ignore
