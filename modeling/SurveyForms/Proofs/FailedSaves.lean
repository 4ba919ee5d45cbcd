import SurveyForms.Proofs.FileTrees

/-! Workbooks that cannot be saved. A file is made empty before the sheets of its workbook are
looked at, so a sheet that cannot be written costs what stood in the file. Every other failure
leaves all files as they were. -/
namespace SurveyForms

/-- Sheets make no book only if one of them cannot be written, and the error names that one. -/
theorem Book.exists_of_ofSheets {sheets : List Sheet} {name : String} {fault : SheetFault}
    (h : ofSheets sheets = .error (name, fault)) :
    ∃ s ∈ sheets, s.name = name ∧ SheetFault.ofSheet? s = some fault := by
  unfold ofSheets at h
  split at h
  · next found hfound =>
    cases h
    obtain ⟨s, hs, hfault⟩ := List.exists_of_findSome?_eq_some hfound
    obtain ⟨fault', hfault', heq⟩ := Option.map_eq_some_iff.mp hfault
    cases heq
    exact ⟨s, hs, rfl, hfault'⟩
  · cases h

namespace Workbook

/-- How saving a workbook fails, with the files behind it. -/
inductive FailsToSave (w : Workbook) (t : FileTree) (path : String) :
    FileTree → SaveError → Prop
  | noSettings (h : w.settings.rows = []) : FailsToSave w t path t .noSettings
  | creating {cause : FileError} (hrows : w.settings.rows ≠ [])
      (h : t.writeFile path (.text "") = .error cause) :
      FailsToSave w t path t (.creating path cause)
  | writing {s : Sheet} {fault : SheetFault} (hrows : w.settings.rows ≠ [])
      (hplace : t.locate path ≠ []) {created : FileTree}
      (h : t.writeFile path (.text "") = .ok created) (hs : s ∈ w.sheets)
      (hfault : SheetFault.ofSheet? s = some fault) :
      FailsToSave w t path (t.put (t.locate path) (.text "")) (.writing path s.name fault)

theorem failsToSave_of_save {w : Workbook} {t t' : FileTree} {path : String} {e : SaveError}
    (h : w.save t path = (t', some e)) : w.FailsToSave t path t' e := by
  unfold save at h
  split at h
  · next hrows =>
    cases h
    exact .noSettings (List.isEmpty_iff.mp hrows)
  next hrows =>
  have hrows : w.settings.rows ≠ [] := fun hnil => hrows (List.isEmpty_iff.mpr hnil)
  split at h
  · next cause hcause =>
    cases h
    exact .creating hrows hcause
  next created hcreated =>
  obtain ⟨-, -, hold, hput⟩ := FileTree.writeFile_eq_ok_iff.mp hcreated
  split at h
  · next name fault hbook =>
    cases h
    obtain ⟨s, hs, rfl, hfault⟩ := Book.exists_of_ofSheets hbook
    rw [hput]
    exact .writing hrows (fun hroot => hold (by rw [hroot]; rfl)) hcreated hs hfault
  · cases h

/-- A save that fails changes no file exactly if the form has no settings, the file could not be
created or an empty one stood in its place. What else it changes is that one file, which is empty
then, for a sheet that cannot be written. -/
theorem failed_save_keeps_files_iff {w : Workbook} {t t' : FileTree} {path : String}
    {e : SaveError} (h : w.save t path = (t', some e)) :
    ((∀ names, t'.find? names = t.find? names) ↔ w.settings.rows = [] ∨
      (∃ cause, t.writeFile path (.text "") = .error cause) ∨
      t.find? (t.locate path) = some (.text "")) ∧
    ∀ names, t'.find? names ≠ t.find? names → names = t.locate path ∧
      t'.find? names = some (.text "") ∧
      ∃ s ∈ w.sheets, ∃ fault, SheetFault.ofSheet? s = some fault ∧
        e = .writing path s.name fault := by
  cases failsToSave_of_save h with
  | noSettings hrows => exact ⟨iff_of_true (fun _ => rfl) (.inl hrows), fun _ hne => absurd rfl hne⟩
  | creating _ hcause =>
    exact ⟨iff_of_true (fun _ => rfl) (.inr (.inl ⟨_, hcause⟩)), fun _ hne => absurd rfl hne⟩
  | @writing s fault hrows hplace created hcreated hs hfault =>
    have hfind := t.find?_put hplace (.text "")
    constructor
    · constructor
      · intro hsame
        rw [← hsame, hfind, if_pos rfl]
        exact .inr (.inr rfl)
      · rintro (hnil | ⟨cause, hcause⟩ | hempty) names
        · exact absurd hnil hrows
        · rw [hcreated] at hcause
          cases hcause
        · rw [hfind]
          split
          · next heq => rw [heq, hempty]
          · rfl
    · intro names hne
      rw [hfind] at hne ⊢
      split at hne
      · next heq =>
        rw [if_pos heq]
        exact ⟨heq, rfl, s, hs, fault, hfault, rfl⟩
      · exact absurd rfl hne

private def archive (old : Content) : FileTree :=
  (FileTree.ofHome ["proj"]).put ["proj", "f.xlsx"] old

private def misnamed : Workbook :=
  ⟨⟨"a:b", ["type"], [Row.ofList [("type", "text")]]⟩, .ofRows choicesName choicesColumns [],
    .ofRows settingsName settingsColumns [Row.ofList [("form_id", "f")]]⟩

theorem empty_file_survives_failed_save :
    (misnamed.save (archive (.text "")) "f.xlsx").2 =
        some (.writing "f.xlsx" "a:b" (.name .character)) ∧
      ∀ names, (misnamed.save (archive (.text "")) "f.xlsx").1.find? names =
        (archive (.text "")).find? names := by
  have hfails : (misnamed.save (archive (.text "")) "f.xlsx").2 =
      some (.writing "f.xlsx" "a:b" (.name .character)) := by decide +kernel
  have hempty : (archive (.text "")).find? ((archive (.text "")).locate "f.xlsx") =
      some (.text "") := by decide +kernel
  exact ⟨hfails, (failed_save_keeps_files_iff (Prod.ext rfl hfails)).1.mpr (.inr (.inr hempty))⟩

/-- What was saved before is lost for the name of a sheet. -/
theorem failed_save_empties_file :
    (archive (.text "saved")).find? ["proj", "f.xlsx"] = some (.text "saved") ∧
      (misnamed.save (archive (.text "saved")) "f.xlsx").2 =
        some (.writing "f.xlsx" "a:b" (.name .character)) ∧
      (misnamed.save (archive (.text "saved")) "f.xlsx").1.find? ["proj", "f.xlsx"] =
        some (.text "") := by
  decide +kernel

end Workbook
end SurveyForms
