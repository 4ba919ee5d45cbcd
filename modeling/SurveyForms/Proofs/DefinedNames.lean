import SurveyForms.Lint
import SurveyForms.Proofs.ByteOrder
import SurveyForms.Proofs.Columns
import SurveyForms.Proofs.References

/-! Names of a survey sheet. Main statement: the check reports just the names that are defined
twice and just the references to names that no row so far defines, row by row, whatever further
rows follow. -/
namespace SurveyForms

open Text (Mention Found mentions pieces)

/-- A workbook with further rows at the end of its survey sheet. -/
def Workbook.addRows (w : Workbook) (more : List Row) : Workbook :=
  { w with survey := { w.survey with rows := w.survey.rows ++ more } }

namespace Lint

def opening : List Char := ['$', '\x7b']

/-- Types of rows that define no name. -/
def namelessTypes : List String := ["begin group", "end group", "end repeat", "note"]

/-- A row that defines its name. -/
def Defining (row : Row) : Prop :=
  Text.allBlank (row.text "type").toList = false ∧ row.text "type" ∉ namelessTypes

instance (row : Row) : Decidable (Defining row) :=
  inferInstanceAs (Decidable (_ ∧ _))

/-- Some of these rows defines the name. -/
def DefinedIn (rows : List Row) (name : String) : Prop :=
  ∃ row ∈ rows, Defining row ∧ row.text "name" = name

/-- A reference in a cell. -/
structure CellReference where
  column : String
  mention : Mention

namespace CellReference

def name (r : CellReference) : String := r.mention.text

/-- The row has a cell in that column, and the reference is one of those found in it. -/
def StandsIn (r : CellReference) (row : Row) : Prop :=
  ∃ cell ms, row.get? r.column = some cell ∧ Found opening cell.toList 0 ms ∧ r.mention ∈ ms

/-- The order of references: columns by their bytes, and in a cell from left to right. -/
def Before (r r' : CellReference) : Prop :=
  Position.bytes r.column < Position.bytes r'.column ∨
    r.column = r'.column ∧ r.mention.start < r'.mention.start

/-- The first of a row's references to a name. -/
def FirstIn (r : CellReference) (row : Row) (name : String) : Prop :=
  r.StandsIn row ∧ r.name = name ∧
    ∀ s : CellReference, s.StandsIn row → s.name = name → ¬ s.Before r

end CellReference

/-- These are the names that a row refers to although they are not known: each once, in the order
of their first references. -/
structure ListsUnknown (row : Row) (known : String → Prop) (names : List String) : Prop where
  once : names.Nodup
  exactly : ∀ name, name ∈ names ↔
    (∃ r : CellReference, r.StandsIn row ∧ r.name = name) ∧ ¬ known name
  ordered : names.Pairwise fun name name' => ∃ r r' : CellReference,
    r.FirstIn row name ∧ r'.FirstIn row name' ∧ r.Before r'

def Problem.isOfRow : Problem → Bool
  | .noSettings | .missingColumns _ | .splitList => false
  | _ => true

def Problem.isOfNames : Problem → Bool
  | .duplicate | .undefinedReferences _ => true
  | _ => false

theorem Problem.isOfRow_of_isOfNames {problem : Problem} (h : problem.isOfNames = true) :
    problem.isOfRow = true := by
  cases problem <;> first | rfl | cases h

/-- The findings tell exactly what is wrong with the names of a survey sheet with these rows. -/
structure NamesFound (sheet : String) (rows : List Row) (findings : List Finding) : Prop where
  /-- A name is defined twice where a row above defines it, too. -/
  duplicate : ∀ i row, rows[i]? = some row →
    (⟨sheet, i + 2, row.text "name", .duplicate⟩ ∈ findings ↔
      Defining row ∧ DefinedIn (rows.take i) (row.text "name"))
  /-- A reference is undefined if neither its row nor a row above defines its name. -/
  undefined : ∀ i row, rows[i]? = some row →
    ((∃ names, ⟨sheet, i + 2, row.text "name", .undefinedReferences names⟩ ∈ findings) ↔
      ∃ r : CellReference, r.StandsIn row ∧ ¬ DefinedIn (rows.take (i + 1)) r.name)
  /-- Undefined references are told by their names. -/
  listed : ∀ i row names, rows[i]? = some row →
    ∀ f ∈ findings, f = ⟨sheet, i + 2, row.text "name", .undefinedReferences names⟩ →
      ListsUnknown row (DefinedIn (rows.take (i + 1))) names ∧
        f.message =
          row.text "name" ++ " has undefined references: " ++ String.intercalate ", " names
  /-- Every such finding is about a row, with its number and its name. -/
  placed : ∀ f ∈ findings, f.problem.isOfNames → ∃ i row, rows[i]? = some row ∧
    f = ⟨sheet, i + 2, row.text "name", f.problem⟩
  /-- Each row has at most one finding of each sort. -/
  once : (findings.filter (·.problem.isOfNames)).Pairwise fun f g => f.row < g.row ∨
    f.row = g.row ∧ f.problem = .duplicate ∧ ∃ names, g.problem = .undefinedReferences names
  ordered : (findings.filter (·.problem.isOfRow)).Pairwise fun f g => f.row ≤ g.row

/-! References of a row. -/

theorem references_of_found {s : String} {ms : List Mention} (h : Found opening s.toList 0 ms) :
    references s = ms.map Mention.text := by
  rw [Text.found_iff.mp h, Text.map_text_mentions]
  rfl

theorem references_empty : references "" = [] := by
  rw [references, String.toList_empty, Text.pieces]
  rfl

def cellReferences (row : Row) : List CellReference :=
  row.cells.flatMap fun (column, cell) =>
    (mentions opening 0 (pieces opening cell.toList)).map (⟨column, ·⟩)

theorem mem_cellReferences {row : Row} {r : CellReference} :
    r ∈ cellReferences row ↔ r.StandsIn row := by
  unfold cellReferences CellReference.StandsIn
  simp only [List.mem_flatMap, List.mem_map, Row.get?_eq_some_iff, Text.found_iff]
  constructor
  · rintro ⟨⟨column, cell⟩, hcell, m, hm, rfl⟩
    exact ⟨cell, _, hcell, rfl, hm⟩
  · rintro ⟨cell, _, hcell, rfl, hm⟩
    exact ⟨_, hcell, r.mention, hm, rfl⟩

theorem map_name_cellReferences (row : Row) :
    (cellReferences row).map CellReference.name =
      row.cells.flatMap fun (_, cell) => references cell := by
  rw [cellReferences, List.map_flatMap]
  congr 1
  funext ⟨column, cell⟩
  rw [List.map_map]
  exact (references_of_found (Text.found_mentions rfl)).symm

theorem pairwise_cellReferences (row : Row) :
    (cellReferences row).Pairwise CellReference.Before := by
  refine List.pairwise_flatMap.mpr ⟨fun ⟨column, cell⟩ _ => ?_, row.sorted.imp fun {a b} hlt => ?_⟩
  · refine List.pairwise_map.mpr ?_
    have hfound : Found opening cell.toList 0 (mentions opening 0 (pieces opening cell.toList)) :=
      Text.found_mentions rfl
    exact hfound.pairwise_start.imp fun h => .inr ⟨rfl, h⟩
  · simp only [List.mem_map]
    rintro _ ⟨m, _, rfl⟩ _ ⟨n, _, rfl⟩
    exact .inl (Text.bytes_lt_iff.mpr hlt)

theorem CellReference.Before.asymm {r r' : CellReference} (h : r.Before r') : ¬ r'.Before r := by
  rcases h with h | ⟨hcolumn, h⟩ <;> rintro (h' | ⟨hcolumn', h'⟩)
  · exact List.lt_asymm h h'
  · rw [hcolumn'] at h
    exact List.lt_irrefl _ h
  · rw [hcolumn] at h'
    exact List.lt_irrefl _ h'
  · omega

/-! Each name once. -/

theorem mem_distinct {seen names : List String} {name : String} :
    name ∈ distinct seen names ↔ name ∈ names ∧ name ∉ seen := by
  induction names generalizing seen with
  | nil => simp [distinct]
  | cons first names ih =>
    rw [distinct]
    split
    · next hseen =>
      rw [ih, List.mem_cons]
      constructor
      · exact fun ⟨hmem, hnew⟩ => ⟨.inr hmem, hnew⟩
      · rintro ⟨rfl | hmem, hnew⟩
        · exact absurd hseen hnew
        · exact ⟨hmem, hnew⟩
    · next hnew =>
      rw [List.mem_cons, ih, List.mem_cons, List.mem_cons]
      by_cases heq : name = first
      · simp [heq, hnew]
      · simp [heq]

theorem nodup_distinct (seen names : List String) : (distinct seen names).Nodup := by
  induction names generalizing seen with
  | nil => exact .nil
  | cons first names ih =>
    rw [distinct]
    split
    · exact ih seen
    · refine List.nodup_cons.mpr ⟨fun hmem => ?_, ih _⟩
      exact (mem_distinct.mp hmem).2 List.mem_cons_self

def CellReference.FirstAmong (r : CellReference) (refs : List CellReference) (name : String) :
    Prop :=
  r ∈ refs ∧ r.name = name ∧ ∀ s ∈ refs, s.name = name → ¬ s.Before r

namespace CellReference.FirstAmong

variable {r s : CellReference} {refs : List CellReference} {name : String}

theorem cons (h : r.FirstAmong refs name) (hs : s.name ≠ name) :
    r.FirstAmong (s :: refs) name := by
  obtain ⟨hmem, hname, hfirst⟩ := h
  refine ⟨List.mem_cons_of_mem s hmem, hname, List.forall_mem_cons.mpr ⟨?_, hfirst⟩⟩
  exact fun heq => absurd heq hs

theorem of_filter {p : String → Bool}
    (h : r.FirstAmong (refs.filter (p ∘ CellReference.name)) name) : r.FirstAmong refs name := by
  obtain ⟨hmem, hname, hfirst⟩ := h
  obtain ⟨hmem, hp⟩ := List.mem_filter.mp hmem
  refine ⟨hmem, hname, fun t ht heq => hfirst t (List.mem_filter.mpr ⟨ht, ?_⟩) heq⟩
  rwa [Function.comp_apply, heq, ← hname]

end CellReference.FirstAmong

theorem exists_firstAmong {refs : List CellReference} (h : refs.Pairwise CellReference.Before)
    {name : String} (hname : name ∈ refs.map CellReference.name) :
    ∃ r : CellReference, r.FirstAmong refs name := by
  induction refs with
  | nil => cases hname
  | cons r refs ih =>
    obtain ⟨hbefore, hrefs⟩ := List.pairwise_cons.mp h
    by_cases heq : r.name = name
    · refine ⟨r, List.mem_cons_self, heq, List.forall_mem_cons.mpr ⟨?_, fun s hs _ => ?_⟩⟩
      · exact fun _ hself => hself.asymm hself
      · exact (hbefore s hs).asymm
    · rw [List.map_cons, List.mem_cons] at hname
      obtain ⟨s, hs⟩ := ih hrefs (hname.resolve_left (Ne.symm heq))
      exact ⟨s, hs.cons heq⟩

/-- One name before another, by the first of these references to each. -/
def NameBefore (refs : List CellReference) (name name' : String) : Prop :=
  ∃ r r' : CellReference, r.FirstAmong refs name ∧ r'.FirstAmong refs name' ∧ r.Before r'

/-- Distinct names stand in the order of their first references. -/
theorem pairwise_distinct {refs : List CellReference} (h : refs.Pairwise CellReference.Before)
    (seen : List String) :
    (distinct seen (refs.map CellReference.name)).Pairwise (NameBefore refs) := by
  induction refs generalizing seen with
  | nil => exact .nil
  | cons r refs ih =>
    obtain ⟨hbefore, hrefs⟩ := List.pairwise_cons.mp h
    -- once the name of `r` has been seen, `r` is the first reference to none of the others
    have hrest {seen : List String} (hseen : r.name ∈ seen) :
        (distinct seen (refs.map CellReference.name)).Pairwise (NameBefore (r :: refs)) := by
      refine (ih hrefs seen).imp_of_mem ?_
      rintro a b ha hb ⟨s, s', hs, hs', hlt⟩
      have hne {c : String} (hc : c ∈ distinct seen (refs.map CellReference.name)) :
          r.name ≠ c := ne_of_mem_of_not_mem hseen (mem_distinct.mp hc).2
      exact ⟨s, s', hs.cons (hne ha), hs'.cons (hne hb), hlt⟩
    rw [List.map_cons, distinct]
    split
    · next hseen => exact hrest hseen
    · refine List.pairwise_cons.mpr ⟨fun name hname => ?_, hrest List.mem_cons_self⟩
      obtain ⟨hmem, hnew⟩ := mem_distinct.mp hname
      obtain ⟨s, hs⟩ := exists_firstAmong hrefs hmem
      have hne : r.name ≠ name := fun heq => hnew (heq ▸ List.mem_cons_self)
      refine ⟨r, s, ⟨List.mem_cons_self, rfl, ?_⟩, hs.cons hne, hbefore s hs.1⟩
      refine List.forall_mem_cons.mpr ⟨fun _ hself => hself.asymm hself, fun t ht _ => ?_⟩
      exact (hbefore t ht).asymm

theorem listsUnknown_undefinedReferences {defined : List String} {known : String → Prop}
    (hknown : ∀ name, name ∈ defined ↔ known name) (row : Row) :
    ListsUnknown row known (undefinedReferences defined row) := by
  have hnames : undefinedReferences defined row = distinct []
      (((cellReferences row).filter ((!defined.contains ·) ∘ CellReference.name)).map
        CellReference.name) := by
    rw [undefinedReferences, ← map_name_cellReferences, List.filter_map]
  rw [hnames]
  refine ⟨nodup_distinct _ _, fun name => ?_, ?_⟩
  · rw [mem_distinct, ← hknown, ← List.filter_map, List.mem_filter, List.mem_map]
    simp [mem_cellReferences]
  · refine (pairwise_distinct ((pairwise_cellReferences row).filter _) []).imp ?_
    rintro name name' ⟨r, r', hr, hr', hlt⟩
    have hfirst {s : CellReference} {name : String} (h : s.FirstAmong (cellReferences row) name) :
        s.FirstIn row name := by
      simpa only [CellReference.FirstAmong, CellReference.FirstIn, mem_cellReferences] using h
    exact ⟨r, r', hfirst hr.of_filter, hfirst hr'.of_filter, hlt⟩

/-! Row after row. -/

theorem definesName_iff {row : Row} : definesName row = true ↔ Defining row := by
  have hrepeat : Text.allBlank "begin repeat".toList = false := by decide
  simp only [definesName, definesVariable, Defining, structuralTypes, namelessTypes,
    Bool.or_eq_true, Bool.and_eq_true, Bool.not_eq_true', beq_iff_eq, List.contains_eq_mem,
    decide_eq_false_iff_not, List.mem_cons, List.not_mem_nil, or_false, not_or]
  constructor
  · rintro (⟨hblank, hgroup, hend, _, hlast, hnote⟩ | hname)
    · exact ⟨hblank, hgroup, hend, hlast, hnote⟩
    · rw [hname]
      exact ⟨hrepeat, by decide⟩
  · rintro ⟨hblank, hgroup, hend, hlast, hnote⟩
    by_cases hname : row.text "type" = "begin repeat"
    · exact .inr hname
    · exact .inl ⟨hblank, hgroup, hend, hname, hlast, hnote⟩

def define (before : List String) (row : Row) : List String :=
  if definesName row then row.text "name" :: before else before

theorem mem_define {before : List String} {row : Row} {name : String} :
    name ∈ define before row ↔ name ∈ before ∨ Defining row ∧ row.text "name" = name := by
  unfold define
  split
  · next h => simp [definesName_iff.mp h, eq_comm, or_comm]
  · next h => simp [mt definesName_iff.mpr h]

theorem mem_foldl_define {before : List String} {rows : List Row} {name : String} :
    name ∈ rows.foldl define before ↔ name ∈ before ∨ DefinedIn rows name := by
  induction rows generalizing before with
  | nil => simp [DefinedIn]
  | cons row rows ih =>
    rw [List.foldl_cons, ih, mem_define, or_assoc]
    simp only [DefinedIn, List.exists_mem_cons_iff]

/-- What a row has to do with names is decided by the names in front of it. -/
theorem filter_rowProblems (lists before : List String) (row : Row) :
    (rowProblems lists before row).filter Problem.isOfNames =
      (if definesName row ∧ row.text "name" ∈ before then [.duplicate] else []) ++
        (if (undefinedReferences (define before row) row).isEmpty then []
          else [.undefinedReferences (undefinedReferences (define before row) row)]) := by
  simp only [rowProblems, List.filter_append, apply_ite (List.filter Problem.isOfNames),
    List.filter_nil, List.filter_singleton, Problem.isOfNames, cond_true, cond_false, ite_self,
    List.append_nil]
  rfl

theorem mem_rowProblems_iff {lists before : List String} {row : Row} {problem : Problem}
    (h : problem.isOfNames = true) : problem ∈ rowProblems lists before row ↔
      (problem = .duplicate ∧ Defining row ∧ row.text "name" ∈ before) ∨
        (problem = .undefinedReferences (undefinedReferences (define before row) row) ∧
          undefinedReferences (define before row) row ≠ []) := by
  have hfilter : problem ∈ rowProblems lists before row ↔
      problem ∈ (rowProblems lists before row).filter Problem.isOfNames := by
    simp [h]
  rw [hfilter, filter_rowProblems, List.mem_append, List.mem_ite_nil_right,
    List.mem_ite_nil_left, List.mem_singleton, List.mem_singleton, List.isEmpty_iff,
    definesName_iff]
  exact or_congr and_comm and_comm

theorem checkRows_cons (sheet : String) (lists before : List String) (number : Nat) (row : Row)
    (rows : List Row) : checkRows sheet lists before number (row :: rows) =
      (rowProblems lists before row).map (⟨sheet, number, row.text "name", ·⟩) ++
        checkRows sheet lists (define before row) (number + 1) rows := rfl

/-- The findings of rows are those of each row, with the names in front of it. -/
theorem mem_checkRows {sheet : String} {lists before : List String} {number : Nat}
    {rows : List Row} {f : Finding} : f ∈ checkRows sheet lists before number rows ↔
      ∃ i row, rows[i]? = some row ∧
        ∃ problem ∈ rowProblems lists ((rows.take i).foldl define before) row,
          f = ⟨sheet, number + i, row.text "name", problem⟩ := by
  induction rows generalizing before number with
  | nil => simp [checkRows]
  | cons row rows ih =>
    rw [checkRows_cons, List.mem_append, ih, List.mem_map]
    constructor
    · rintro (⟨problem, hproblem, rfl⟩ | ⟨i, r, hr, problem, hproblem, rfl⟩)
      · exact ⟨0, row, rfl, problem, hproblem, rfl⟩
      · exact ⟨i + 1, r, hr, problem, hproblem, by rw [Nat.add_assoc, Nat.add_comm 1]⟩
    · rintro ⟨i, r, hr, problem, hproblem, rfl⟩
      cases i with
      | zero =>
        cases hr
        exact .inl ⟨problem, hproblem, rfl⟩
      | succ i =>
        exact .inr ⟨i, r, hr, problem, hproblem, by rw [Nat.add_assoc, Nat.add_comm 1]⟩

theorem checkRows_append (sheet : String) (lists before : List String) (number : Nat)
    (rows more : List Row) : checkRows sheet lists before number (rows ++ more) =
      checkRows sheet lists before number rows ++
        checkRows sheet lists (rows.foldl define before) (number + rows.length) more := by
  induction rows generalizing before number with
  | nil => rfl
  | cons row rows ih =>
    rw [List.cons_append, checkRows_cons, checkRows_cons, ih, List.append_assoc, List.foldl_cons,
      List.length_cons, Nat.add_right_comm, Nat.add_assoc]

theorem le_row_of_mem_checkRows {sheet : String} {lists before : List String} {number : Nat}
    {rows : List Row} {f : Finding} (h : f ∈ checkRows sheet lists before number rows) :
    number ≤ f.row := by
  obtain ⟨i, row, _, problem, _, rfl⟩ := mem_checkRows.mp h
  exact Nat.le_add_right number i

/-- Findings of different rows stand in row order, so an order of findings has to be checked in
each row only. -/
theorem pairwise_checkRows {sheet : String} {lists : List String} {p : Problem → Bool}
    {R : Finding → Finding → Prop} (hlt : ∀ f g : Finding, f.row < g.row → R f g)
    (hrow : ∀ before row number, (((rowProblems lists before row).filter p).map
      (⟨sheet, number, row.text "name", ·⟩)).Pairwise R)
    (before : List String) (number : Nat) (rows : List Row) :
    ((checkRows sheet lists before number rows).filter (p ·.problem)).Pairwise R := by
  induction rows generalizing before number with
  | nil => exact .nil
  | cons row rows ih =>
    rw [checkRows_cons, List.filter_append, List.filter_map, List.pairwise_append]
    refine ⟨hrow before row number, ih _ _, fun f hf g hg => hlt f g ?_⟩
    obtain ⟨problem, _, rfl⟩ := List.mem_map.mp hf
    exact le_row_of_mem_checkRows (List.mem_filter.mp hg).1

theorem of_mem_splitLists {sheet last : String} {seen reported : List String}
    {number : Nat} {rows : List Row} {f : Finding}
    (h : f ∈ splitLists sheet seen reported last number rows) :
    f.sheet = sheet ∧ f.problem = .splitList := by
  induction rows generalizing seen reported last number with
  | nil => cases h
  | cons row rows ih =>
    simp only [splitLists] at h
    split at h
    · rcases List.mem_cons.mp h with rfl | h
      · exact ⟨rfl, rfl⟩
      · exact ih h
    · exact ih h

theorem of_mem_checkSettings {s : Sheet} {f : Finding} (h : f ∈ checkSettings s) :
    f.sheet = s.name ∧ f.row = 0 ∧ f.problem = .noSettings := by
  unfold checkSettings at h
  split at h
  · obtain rfl := List.mem_singleton.mp h
    exact ⟨rfl, rfl, rfl⟩
  · cases h

def listNames (w : Workbook) : List String := w.choices.rows.map (·.text "list_name")

/-- With all core columns there, a check looks at the survey's rows. -/
theorem check_eq {w : Workbook} (h : ∀ column ∈ coreColumns, column ∈ w.survey.columns) :
    check w = checkChoices w.choices ++
      checkRows w.survey.name (listNames w) [] Sheet.firstRow w.survey.rows ++
        checkSettings w.settings := by
  have hnone : coreColumns.filter (!w.survey.columns.contains ·) = [] := by
    rw [List.filter_eq_nil_iff]
    intro column hcolumn
    simp [h column hcolumn]
  rw [check, checkSurvey, hnone]
  rfl

/-- Problems of rows are found nowhere else. -/
theorem filter_check {w : Workbook} (h : ∀ column ∈ coreColumns, column ∈ w.survey.columns)
    {p : Problem → Bool} (hp : ∀ problem, p problem = true → problem.isOfRow = true) :
    (check w).filter (p ·.problem) =
      (checkRows w.survey.name (listNames w) [] Sheet.firstRow w.survey.rows).filter
        (p ·.problem) := by
  have hchoices : (checkChoices w.choices).filter (p ·.problem) = [] := by
    refine List.filter_eq_nil_iff.mpr fun f hf hpf => ?_
    have := hp _ hpf
    rw [(of_mem_splitLists hf).2] at this
    cases this
  have hsettings : (checkSettings w.settings).filter (p ·.problem) = [] := by
    refine List.filter_eq_nil_iff.mpr fun f hf hpf => ?_
    have := hp _ hpf
    rw [(of_mem_checkSettings hf).2.2] at this
    cases this
  rw [check_eq h, List.filter_append, List.filter_append, hchoices, hsettings, List.nil_append,
    List.append_nil]

/-- What is found out about a row, with the names in front of it. -/
theorem mem_check_iff {w : Workbook} (h : ∀ column ∈ coreColumns, column ∈ w.survey.columns)
    {problem : Problem} (hproblem : problem.isOfRow = true) {i : Nat} {row : Row}
    (hrow : w.survey.rows[i]? = some row) :
    ⟨w.survey.name, i + 2, row.text "name", problem⟩ ∈ check w ↔
      problem ∈ rowProblems (listNames w) ((w.survey.rows.take i).foldl define []) row := by
  have hfilter (f : Finding) (hf : f.problem.isOfRow = true) : f ∈ check w ↔
      f ∈ checkRows w.survey.name (listNames w) [] Sheet.firstRow w.survey.rows := by
    have heq := filter_check (p := Problem.isOfRow) h fun _ => id
    have hmem (fs : List Finding) : f ∈ fs ↔ f ∈ fs.filter (·.problem.isOfRow) := by
      simp [hf]
    rw [hmem, heq, ← hmem]
  rw [hfilter _ hproblem, mem_checkRows]
  constructor
  · rintro ⟨j, row', hrow', problem', hmem, heq⟩
    simp only [Finding.mk.injEq, Sheet.firstRow] at heq
    obtain ⟨-, hnumber, -, rfl⟩ := heq
    obtain rfl : j = i := by omega
    obtain rfl := Option.some.inj (hrow'.symm.trans hrow)
    exact hmem
  · intro hmem
    exact ⟨i, row, hrow, problem, hmem, by rw [Sheet.firstRow, Nat.add_comm]⟩

theorem mem_define_take {rows : List Row} {i : Nat} {row : Row} (h : rows[i]? = some row)
    {name : String} : name ∈ define ((rows.take i).foldl define []) row ↔
      DefinedIn (rows.take (i + 1)) name := by
  have hfold : define ((rows.take i).foldl define []) row =
      (rows.take (i + 1)).foldl define [] := by
    rw [List.take_add_one, h, List.foldl_append]
    rfl
  rw [hfold, mem_foldl_define]
  simp

section
variable {w : Workbook} (h : ∀ column ∈ coreColumns, column ∈ w.survey.columns) {i : Nat}
  {row : Row} (hrow : w.survey.rows[i]? = some row)
include h hrow

theorem duplicate_mem_check :
    ⟨w.survey.name, i + 2, row.text "name", .duplicate⟩ ∈ check w ↔
      Defining row ∧ DefinedIn (w.survey.rows.take i) (row.text "name") := by
  rw [mem_check_iff h rfl hrow, mem_rowProblems_iff rfl, mem_foldl_define]
  simp

theorem undefinedReferences_mem_check {names : List String} :
    ⟨w.survey.name, i + 2, row.text "name", .undefinedReferences names⟩ ∈ check w ↔
      names ≠ [] ∧ names =
        undefinedReferences (define ((w.survey.rows.take i).foldl define []) row) row := by
  rw [mem_check_iff h rfl hrow, mem_rowProblems_iff rfl]
  constructor
  · rintro (⟨hother, _⟩ | ⟨heq, hne⟩)
    · cases hother
    · cases heq
      exact ⟨hne, rfl⟩
  · rintro ⟨hne, rfl⟩
    exact .inr ⟨rfl, hne⟩

theorem exists_undefinedReferences_mem_check :
    (∃ names, ⟨w.survey.name, i + 2, row.text "name", .undefinedReferences names⟩ ∈ check w) ↔
      ∃ r : CellReference, r.StandsIn row ∧ ¬ DefinedIn (w.survey.rows.take (i + 1)) r.name := by
  have hlists := listsUnknown_undefinedReferences (fun _ => mem_define_take hrow) row
  simp only [undefinedReferences_mem_check h hrow]
  constructor
  · rintro ⟨names, hne, rfl⟩
    obtain ⟨name, hname⟩ := List.exists_mem_of_ne_nil _ hne
    obtain ⟨⟨r, hr, rfl⟩, hunknown⟩ := (hlists.exactly name).mp hname
    exact ⟨r, hr, hunknown⟩
  · rintro ⟨r, hr, hunknown⟩
    exact ⟨_, List.ne_nil_of_mem ((hlists.exactly r.name).mpr ⟨⟨r, hr, rfl⟩, hunknown⟩), rfl⟩

end

/-- Findings of a row stay as they are when further rows are added. -/
theorem filter_check_addRows {w : Workbook}
    (h : ∀ column ∈ coreColumns, column ∈ w.survey.columns) (more : List Row) {i : Nat}
    (hi : i < w.survey.rows.length) :
    (check (w.addRows more)).filter (·.row = i + 2) = (check w).filter (·.row = i + 2) := by
  have hmore (before : List String) : (checkRows w.survey.name (listNames w) before
      (Sheet.firstRow + w.survey.rows.length) more).filter (·.row = i + 2) = [] := by
    refine List.filter_eq_nil_iff.mpr fun f hf => ?_
    have := le_row_of_mem_checkRows hf
    simp only [Sheet.firstRow] at this
    simp only [decide_eq_true_eq]
    omega
  have hcheck : check (w.addRows more) = checkChoices w.choices ++
      checkRows w.survey.name (listNames w) [] Sheet.firstRow (w.survey.rows ++ more) ++
        checkSettings w.settings := check_eq h
  rw [hcheck, check_eq h, checkRows_append]
  simp only [List.filter_append, hmore, List.append_nil]

/-- Names that are defined twice and references to names that are not defined are found exactly,
and further rows change nothing for the rows above them. -/
theorem names_found {w : Workbook} (h : ∀ column ∈ coreColumns, column ∈ w.survey.columns) :
    NamesFound w.survey.name w.survey.rows (check w) ∧
      ∀ more i, i < w.survey.rows.length →
        (check (w.addRows more)).filter (·.row = i + 2) = (check w).filter (·.row = i + 2) := by
  refine ⟨⟨fun i row hrow => duplicate_mem_check h hrow,
    fun i row hrow => exists_undefinedReferences_mem_check h hrow,
    fun i row names hrow f hf heq => ?_, fun f hf hnames => ?_, ?_, ?_⟩,
    fun more i => filter_check_addRows h more⟩
  · subst heq
    obtain ⟨-, rfl⟩ := (undefinedReferences_mem_check h hrow).mp hf
    exact ⟨listsUnknown_undefinedReferences (fun _ => mem_define_take hrow) row, rfl⟩
  · have hmem : f ∈ (check w).filter (·.problem.isOfNames) := List.mem_filter.mpr ⟨hf, hnames⟩
    rw [filter_check h fun _ => Problem.isOfRow_of_isOfNames] at hmem
    obtain ⟨i, row, hrow, problem, _, rfl⟩ := mem_checkRows.mp (List.mem_filter.mp hmem).1
    exact ⟨i, row, hrow, by rw [Sheet.firstRow, Nat.add_comm]⟩
  · rw [filter_check h fun _ => Problem.isOfRow_of_isOfNames]
    refine pairwise_checkRows (fun f g => .inl) (fun before row number => ?_) _ _ _
    rw [filter_rowProblems]
    split <;> split <;> simp
  · rw [filter_check h fun _ => id]
    refine pairwise_checkRows (fun f g => Nat.le_of_lt) (fun before row number => ?_) _ _ _
    exact List.pairwise_map.mpr (List.pairwise_of_forall fun _ _ => Nat.le_refl number)

/-- A second row with the name of the first one, which refers to a name that no row defines. -/
theorem names_found_in_three_rows :
    let first := Row.ofList [("type", "text"), ("name", "age")]
    let second := Row.ofList [("type", "note"), ("name", "age"), ("label", "$\x7bsize\x7d")]
    let w : Workbook := ⟨⟨"survey", ["type", "name", "label"], [first, first, second]⟩,
      ⟨"choices", [], []⟩, ⟨"settings", [], []⟩⟩
    (∀ column ∈ coreColumns, column ∈ w.survey.columns) ∧
      ⟨"survey", 3, "age", .duplicate⟩ ∈ check w ∧
        ⟨"survey", 4, "age", .duplicate⟩ ∉ check w ∧
          ∃ names, ⟨"survey", 4, "age", .undefinedReferences names⟩ ∈ check w := by
  intro first second w
  have hcolumns : ∀ column ∈ coreColumns, column ∈ w.survey.columns := by decide
  have hfound := (names_found hcolumns).1
  refine ⟨hcolumns, (hfound.duplicate 1 first rfl).mpr ?_, fun hmem => ?_,
    (hfound.undefined 2 second rfl).mpr ?_⟩
  · exact ⟨by decide, first, List.mem_singleton_self _, by decide, rfl⟩
  · exact absurd ((hfound.duplicate 2 second rfl).mp hmem).1 (by decide)
  · let m : Mention := ⟨0, "size".toList⟩
    have hend (n : Mention) (hn : n.StandsIn opening "$\x7bsize\x7d".toList) :
        n.start < m.stop opening := by
      have hroom := hn.2.2.length_le
      simp only [List.length_append, List.length_drop, List.length_singleton] at hroom
      change _ ≤ 7 - n.start at hroom
      change n.start < 7
      omega
    have hin : m.StandsIn opening "$\x7bsize\x7d".toList := by
      exact ⟨by decide, by decide, List.prefix_rfl⟩
    refine ⟨⟨"label", m⟩, ⟨"$\x7bsize\x7d", [m], rfl,
      .next hin (Nat.zero_le _) (fun _ _ _ => Nat.zero_le _) (.done hend), ?_⟩, ?_⟩
    · exact List.mem_singleton_self m
    · rintro ⟨row, hrow, _, hname⟩
      have hrow : row ∈ [first, first, second] := hrow
      simp only [List.mem_cons, List.not_mem_nil, or_false, or_self_left] at hrow
      rcases hrow with rfl | rfl <;> exact absurd hname (by decide)

end Lint
end SurveyForms
