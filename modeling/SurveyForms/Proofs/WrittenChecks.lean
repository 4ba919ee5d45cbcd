import SurveyForms.Proofs.CellKeys
import SurveyForms.Proofs.DefinedNames
import SurveyForms.Proofs.ReadBack

/-! Checking a workbook file. Main statement: a form that was written to a file has the same
findings as before, one for one and at the same rows, although reading drops empty cells. -/
namespace SurveyForms

/-- Leaving empty cells out changes no text. -/
theorem Row.text_filled (r : Row) (key : String) : r.filled.text key = r.text key := by
  have hsame {value : String} (hne : value ≠ "") :
      r.filled.text key = value ↔ r.text key = value := by
    rw [text_eq_iff hne, text_eq_iff hne, get?_filled_eq_some_iff, and_iff_left hne]
  by_contra hdiffers
  by_cases hempty : r.text key = ""
  · have hne : r.filled.text key ≠ "" := fun h => hdiffers (h.trans hempty.symm)
    exact hdiffers ((hsame hne).mp rfl).symm
  · exact hdiffers ((hsame hempty).mpr rfl)

/-- A sheet as reading shows it when its last row has a cell that is not empty: empty cells are
left out, and no row is. -/
structure Sheet.IsShownAs (written read : Sheet) : Prop where
  name : read.name = written.name
  columns : read.columns = written.columns
  rows : read.rows = written.rows.map Row.filled

theorem Sheet.ReadsBackAs.isShownAs {written read : Sheet} (h : written.ReadsBackAs read)
    (hlast : ∀ row ∈ written.rows.getLast?, ∃ key, row.text key ≠ "") :
    written.IsShownAs read where
  name := h.name
  columns := h.columns
  rows := by
    rw [h.rows]
    refine List.rdropWhile_eq_self_iff.mpr fun hne hempty => ?_
    rw [List.getLast_map, decide_eq_true_iff] at hempty
    obtain ⟨key, hkey⟩ := hlast _ (List.getLast_mem_getLast? (by simpa using hne))
    rw [← Row.text_filled, hempty] at hkey
    exact hkey rfl

/-- A workbook of a form is read back whole from a file that keeps its texts, empty cells left out,
if the last row of each sheet has a cell that is not empty. A key of the settings row may be
empty, and the row is read all the same. -/
theorem Workbook.exists_isShownAs {survey choices : List Row} {settings : Row}
    (hkeys : ∀ row ∈ survey ++ choices, "" ∉ row.keys)
    (hkept : (ofRows survey choices settings).IsKept)
    (hlast : ∀ sheet ∈ (ofRows survey choices settings).sheets,
      ∀ row ∈ sheet.rows.getLast?, ∃ key, row.text key ≠ "") :
    ∃ book read, Book.ofSheets (ofRows survey choices settings).sheets = .ok book ∧
      book.workbook? = some read ∧ (ofRows survey choices settings).survey.IsShownAs read.survey ∧
      (ofRows survey choices settings).choices.IsShownAs read.choices ∧
      read.settings.name = settingsName ∧ read.settings.rows ≠ [] := by
  have hsheets {P : Sheet → Prop} {a b c : Sheet} (hall : ∀ sheet ∈ [a, b, c], P sheet) :
      P a ∧ P b ∧ P c := by
    simpa using hall
  obtain ⟨hsurvey, hchoices⟩ := List.forall_mem_append.mp hkeys
  obtain ⟨hkeptSurvey, hkeptChoices, hkeptSettings⟩ := hsheets hkept
  obtain ⟨hlastSurvey, hlastChoices, hlastSettings⟩ := hsheets hlast
  refine ⟨_, _, ofSheets_ofRows hkept, workbook?_ofSheets _ rfl rfl rfl, ?_, ?_, ?_, ?_⟩
  · exact (Sheet.readsBackAs_ofGrid (Sheet.isLaidOut_ofRows (by decide) hsurvey)
      hkeptSurvey).isShownAs hlastSurvey
  · exact (Sheet.readsBackAs_ofGrid (Sheet.isLaidOut_ofRows (by decide) hchoices)
      hkeptChoices).isShownAs hlastChoices
  · simp only [Sheet.ofGrid]
    split <;> rfl
  · obtain ⟨key, htext⟩ := hlastSettings settings rfl
    have hcolumn : key ∈ Sheet.columnOrder settingsColumns [settings] := by
      refine Sheet.mem_columnOrder.mpr ⟨settings, List.mem_singleton_self _, ?_⟩
      rw [Row.mem_keys_iff, (Row.text_eq_iff htext).mp rfl]
      rfl
    have hlength := Sheet.length_rows_ofGrid hkeptSettings rfl hcolumn htext
    exact List.length_pos_iff.mp (hlength ▸ Nat.one_pos)

namespace Lint

/-- An empty cell refers to nothing. -/
theorem undefinedReferences_filled (defined : List String) (row : Row) :
    undefinedReferences defined row.filled = undefinedReferences defined row := by
  have hcells (cells : List (String × String)) :
      (cells.filter (·.2 ≠ "")).flatMap (references ·.2) = cells.flatMap (references ·.2) := by
    induction cells with
    | nil => rfl
    | cons first cells ih =>
      obtain ⟨key, cell⟩ := first
      rcases eq_or_ne cell "" with rfl | hne
      · rw [List.filter_cons_of_neg (by simp), ih]
        simp only [List.flatMap_cons, references_empty, List.nil_append]
      · rw [List.filter_cons_of_pos (by simpa using hne), List.flatMap_cons, List.flatMap_cons, ih]
  exact congrArg (fun names => distinct [] (names.filter (!defined.contains ·))) (hcells row.cells)

theorem definesVariable_filled (row : Row) : definesVariable row.filled = definesVariable row := by
  rw [definesVariable, definesVariable, Row.text_filled]

theorem definesName_filled (row : Row) : definesName row.filled = definesName row := by
  rw [definesName, definesName, definesVariable_filled, Row.text_filled]

theorem isSelect_filled (row : Row) : isSelect row.filled = isSelect row := by
  rw [isSelect, isSelect, Row.text_filled]

theorem selectLists_filled (row : Row) : selectLists row.filled = selectLists row := by
  rw [selectLists, selectLists, Row.text_filled]

theorem isCalculate_filled (row : Row) : isCalculate row.filled = isCalculate row := by
  rw [isCalculate, isCalculate, Row.text_filled]

theorem rowProblems_filled (lists before : List String) (row : Row) :
    rowProblems lists before row.filled = rowProblems lists before row := by
  simp only [rowProblems, definesName_filled, definesVariable_filled, isSelect_filled,
    selectLists_filled, isCalculate_filled, undefinedReferences_filled, Row.text_filled]

theorem checkRows_filled (sheet : String) (lists before : List String) (number : Nat)
    (rows : List Row) : checkRows sheet lists before number (rows.map Row.filled) =
      checkRows sheet lists before number rows := by
  induction rows generalizing before number with
  | nil => rfl
  | cons row rows ih =>
    have hdefine : define before row.filled = define before row := by
      rw [define, define, definesName_filled, Row.text_filled]
    rw [List.map_cons, checkRows_cons, checkRows_cons, ih, rowProblems_filled, hdefine,
      Row.text_filled]

theorem splitLists_filled (sheet : String) (seen reported : List String) (last : String)
    (number : Nat) (rows : List Row) :
    splitLists sheet seen reported last number (rows.map Row.filled) =
      splitLists sheet seen reported last number rows := by
  induction rows generalizing seen reported last number with
  | nil => rfl
  | cons row rows ih => simp only [List.map_cons, splitLists, Row.text_filled, ih]

/-- A check of a workbook does not look at empty cells, nor at more of the settings than whether
there are any. -/
theorem check_eq_of_isShownAs {written read : Workbook}
    (hsurvey : written.survey.IsShownAs read.survey)
    (hchoices : written.choices.IsShownAs read.choices)
    (hname : read.settings.name = written.settings.name)
    (hsettings : read.settings.rows.isEmpty = written.settings.rows.isEmpty) :
    check read = check written := by
  have hlists : read.choices.rows.map (·.text "list_name") =
      written.choices.rows.map (·.text "list_name") := by
    rw [hchoices.rows, List.map_map]
    exact List.map_congr_left fun row _ => row.text_filled _
  have hsplit : checkChoices read.choices = checkChoices written.choices := by
    rw [checkChoices, checkChoices, hchoices.rows, hchoices.name, splitLists_filled]
  have hrows (lists : List String) :
      checkSurvey lists read.survey = checkSurvey lists written.survey := by
    rw [checkSurvey, checkSurvey, hsurvey.rows, hsurvey.name, hsurvey.columns, checkRows_filled]
  have hnone : checkSettings read.settings = checkSettings written.settings := by
    rw [checkSettings, checkSettings, hname, hsettings]
  rw [check, check, hlists, hsplit, hrows, hnone]

/-- The findings of the survey sheet. -/
theorem mem_checkSurvey_of_sheet {w : Workbook} (hchoices : w.choices.name ≠ w.survey.name)
    (hsettings : w.settings.name ≠ w.survey.name) {f : Finding} (hf : f ∈ check w)
    (hsheet : f.sheet = w.survey.name) : f ∈ checkSurvey (listNames w) w.survey := by
  rw [check, List.mem_append, List.mem_append] at hf
  rcases hf with (hf | hf) | hf
  · exact absurd ((of_mem_splitLists hf).1.symm.trans hsheet) hchoices
  · exact hf
  · exact absurd ((of_mem_checkSettings hf).1.symm.trans hsheet) hsettings

/-- A finding of a survey sheet is about its columns or about one row. -/
theorem of_mem_checkSurvey {lists : List String} {s : Sheet} {f : Finding}
    (h : f ∈ checkSurvey lists s) :
    (f.row = 0 ∧ ∃ columns, f.problem = .missingColumns columns) ∨
      ∃ i row, f.row = i + 2 ∧ s.rows[i]? = some row ∧ f.name = row.text "name" ∧
        f.problem ∈ rowProblems lists ((s.rows.take i).foldl define []) row := by
  rw [checkSurvey] at h
  split at h
  · obtain ⟨i, row, hrow, problem, hproblem, rfl⟩ := mem_checkRows.mp h
    exact .inr ⟨i, row, Nat.add_comm _ _, hrow, rfl, hproblem⟩
  · obtain rfl := List.mem_singleton.mp h
    exact .inl ⟨rfl, _, rfl⟩

end Lint

open Lint (check listNames define rowProblems)

/-- A form that was written to a file and read back has the findings that it had before, provided
that the file keeps its texts and the last row of each sheet has a cell that is not empty. Findings
about a row of the survey sheet are about the row of the compiled form at that place. -/
theorem Form.written_form_checks_alike {s : Sources} {now : Moment} {name src : String}
    {form : Form} {w : Workbook} (h : Form.CompiledFrom s now name src form)
    (hw : Workbook.ofForm? form = some w) (hkept : w.IsKept)
    (hlast : ∀ sheet ∈ w.sheets, ∀ row ∈ sheet.rows.getLast?, ∃ key, row.text key ≠ "") :
    ∃ book read, Book.ofSheets w.sheets = .ok book ∧ book.workbook? = some read ∧
      check read = check w ∧
      ∀ f ∈ check read, f.sheet = Workbook.surveyName →
        (f.row = 0 ∧ ∃ columns, f.problem = .missingColumns columns) ∨
        ∃ i row, f.row = i + 2 ∧ form.survey[i]? = some row ∧
          read.survey.rows[i]? = some row.filled ∧ f.name = row.text "name" ∧
          f.problem ∈ rowProblems (listNames w) ((form.survey.take i).foldl define []) row := by
  obtain ⟨settings, hsettings, rfl⟩ := Option.map_eq_some_iff.mp hw
  have hkeys (row : Row) (hrow : row ∈ form.survey ++ form.choices) : "" ∉ row.keys := by
    intro hempty
    exact absurd (h.isIdentifier_keys row hrow "" hempty) (by decide)
  obtain ⟨book, read, hbook, hread, hsurvey, hchoices, hname, hrows⟩ :=
    Workbook.exists_isShownAs hkeys hkept hlast
  have hcheck := Lint.check_eq_of_isShownAs hsurvey hchoices hname
    (List.isEmpty_eq_false_iff.mpr hrows)
  refine ⟨book, read, hbook, hread, hcheck, fun f hf hsheet => ?_⟩
  rw [hcheck] at hf
  have hnames : Workbook.choicesName ≠ Workbook.surveyName ∧
      Workbook.settingsName ≠ Workbook.surveyName := by
    decide
  rcases Lint.of_mem_checkSurvey (Lint.mem_checkSurvey_of_sheet hnames.1 hnames.2 hf hsheet)
    with hcolumns | ⟨i, row, hnumber, hrow, hname, hproblem⟩
  · exact .inl hcolumns
  · refine .inr ⟨i, row, hnumber, hrow, ?_, hname, hproblem⟩
    rw [hsurvey.rows, List.getElem?_map]
    exact congrArg (Option.map Row.filled) hrow

/-- A form with a survey row of empty cells, a list in two parts, and a setting without a name. -/
def gappedFiles : FileSet :=
  .ofList [("/c", "list l:\n  1 \"\"\nlist m:\n  1 \"\"\nlist l:\n  2 \"Two\"")]

def gappedSource : String :=
  "@form f 1 T \"\" x\n@choices c\nq text: name \"\" type \"\"\n" ++
    "age integer: \"Age\" hint \"\" constraint \". > $\x7bsize\x7d\""

def gappedForm : Form where
  survey :=
    [.ofList [("type", ""), ("name", "")],
      .ofList [("type", "integer"), ("name", "age"), ("label", "Age"), ("hint", ""),
        ("constraint", ". > $\x7bsize\x7d")]]
  choices :=
    [.ofList [("list_name", "l"), ("value", "1"), ("label", "")],
      .ofList [("list_name", "m"), ("value", "1"), ("label", "")],
      .ofList [("list_name", "l"), ("value", "2"), ("label", "Two")]]
  settings := some (.ofList [("form_id", "f"), ("form_title", "T"), ("version", "1"), ("", "x")])

theorem gappedForm_checks_alike :
    ∃ w book read, Workbook.ofForm? gappedForm = some w ∧ Book.ofSheets w.sheets = .ok book ∧
      book.workbook? = some read ∧
      check read = [⟨"choices", 4, "l", .splitList⟩, ⟨"survey", 3, "age", .notRequired⟩,
        ⟨"survey", 3, "age", .undefinedReferences ["size"]⟩] := by
  have hcompiles : (Form.ofText gappedFiles.sources ⟨0, 0⟩ "/form" gappedSource).result =
      .ok gappedForm := eq_ok_of_toOption (by decide +kernel)
  let settings : Row := .ofList [("form_id", "f"), ("form_title", "T"), ("version", "1"), ("", "x")]
  let w := Workbook.ofRows gappedForm.survey gappedForm.choices settings
  have hkept : w.IsKept := by decide +kernel
  have hlast : ∀ sheet ∈ w.sheets, ∀ row ∈ sheet.rows.getLast?, ∃ key, row.text key ≠ "" := by
    refine List.forall_mem_cons.mpr ⟨?_, List.forall_mem_cons.mpr ⟨?_,
      List.forall_mem_singleton.mpr ?_⟩⟩
    · rintro _ ⟨⟩
      exact ⟨"name", by decide +kernel⟩
    · rintro _ ⟨⟩
      exact ⟨"value", by decide +kernel⟩
    · rintro _ ⟨⟩
      exact ⟨"", by decide +kernel⟩
  obtain ⟨book, read, hbook, hread, hcheck, -⟩ :=
    Form.written_form_checks_alike (.text hcompiles) (w := w) rfl hkept hlast
  have hfindings : check w = [⟨"choices", 4, "l", .splitList⟩, ⟨"survey", 3, "age", .notRequired⟩,
      ⟨"survey", 3, "age", .undefinedReferences ["size"]⟩] := by
    decide +kernel
  exact ⟨w, book, read, rfl, hbook, hread, hcheck.trans hfindings⟩

end SurveyForms
