import Mathlib.Data.List.DropRight
import SurveyForms.Proofs.Columns
import SurveyForms.Workbook.Book

/-! What reading shows of a form that was written to a workbook file: every cell that has a text,
in its row and under its column, and no other. -/
namespace SurveyForms

private theorem map_eq_self {f : α → α} {xs : List α} (h : ∀ x ∈ xs, f x = x) : xs.map f = xs :=
  (List.map_congr_left h).trans (List.map_id' xs)

namespace Cell

/-- A text that comes back from a cell as it was written. -/
def Survives (s : String) : Prop := shown (limited s) = s

instance (s : String) : Decidable (Survives s) := inferInstanceAs (Decidable (_ = _))

private theorem length_of_escapeCode? {cs : List Char} {code : Nat}
    (h : escapeCode? cs = some code) : escapeLength ≤ cs.length := by
  unfold escapeCode? at h
  split at h
  · simp [escapeLength]
  · cases h

private theorem length_unescape_le (cs : List Char) : (unescape cs).length ≤ cs.length := by
  fun_induction unescape cs with
  | case1 => exact Nat.le_refl _
  | case2 cs code hcode ih =>
    have hchar : (Text.charOf? code).toList.length ≤ 1 := by cases Text.charOf? code <;> simp
    rw [List.length_append, List.length_cons]
    rw [List.length_drop] at ih
    omega
  | case3 cs hcode ih => exact Nat.succ_le_succ ih
  | case4 c cs hc ih => exact Nat.succ_le_succ ih

/-- Reading an escape makes a text shorter, so a text that keeps its length has none, and there is
nothing to escape in it. -/
private theorem unescape_of_length {cs : List Char} (h : (unescape cs).length = cs.length) :
    unescape cs = cs ∧ escape cs = cs := by
  fun_induction unescape cs with
  | case1 => exact ⟨rfl, by rw [escape]⟩
  | case2 cs code hcode ih =>
    have hlong := length_of_escapeCode? hcode
    have hrest := length_unescape_le (cs.drop escapeLength)
    have hchar : (Text.charOf? code).toList.length ≤ 1 := by cases Text.charOf? code <;> simp
    rw [List.length_append, List.length_cons] at h
    have hsix : escapeLength = 6 := rfl
    rw [List.length_drop] at hrest
    omega
  | case3 cs hcode ih =>
    obtain ⟨hunescape, hescape⟩ := ih (Nat.succ.inj h)
    rw [escape, if_neg (by simp [hcode]), hunescape, hescape]
    exact ⟨rfl, rfl⟩
  | case4 c cs hc ih =>
    obtain ⟨hunescape, hescape⟩ := ih (Nat.succ.inj h)
    rw [escape, if_neg (by simp [hc]), hunescape, hescape]
    exact ⟨rfl, rfl⟩

private theorem length_limited_le (s : String) : (limited s).length ≤ maxLength := by
  unfold limited
  split
  · next h => exact h
  · rw [String.length_ofList, List.length_take]
    exact Nat.min_le_left _ _

private theorem all_of_kept {cs : List Char} (h : kept cs = cs) : cs.all isKept = true := by
  rw [List.all_eq_true]
  intro c hc
  have hkept : (if isKept c then c else Text.replacement) = c :=
    List.map_inj_left.mp (h.trans (List.map_id cs).symm) c hc
  by_contra hlost
  rw [if_neg hlost] at hkept
  exact hlost (hkept ▸ by decide)

/-- A text that survives is plain: it is short enough, its characters are kept, and it has no
escapes. -/
theorem isPlain_of_survives {s : String} (h : Survives s) : isPlain s = true := by
  have hchars : unescape (kept (limited s).toList) = s.toList := by
    have hlist := congrArg String.toList h
    rwa [shown, String.toList_ofList] at hlist
  have hle := length_unescape_le (kept (limited s).toList)
  have hshort := length_limited_le s
  rw [hchars, kept, List.length_map, String.length_toList, String.length_toList] at hle
  have hlength : s.length ≤ maxLength := hle.trans hshort
  have hlimited : limited s = s := if_pos hlength
  rw [hlimited] at hchars
  have hsame : (unescape (kept s.toList)).length = (kept s.toList).length := by
    rw [hchars, kept, List.length_map]
  have hkept : kept s.toList = s.toList := (unescape_of_length hsame).1.symm.trans hchars
  rw [hkept] at hchars
  simp [isPlain, all_of_kept hkept, hlength, hchars]

/-- Nothing is escaped in a text that survives. -/
theorem escape_of_survives {s : String} (h : Survives s) :
    String.ofList (escape s.toList) = s := by
  have hplain := isPlain_of_survives h
  simp only [isPlain, Bool.and_eq_true, beq_iff_eq] at hplain
  rw [(unescape_of_length (congrArg List.length hplain.2)).2, String.ofList_toList]

end Cell

namespace Grid

private theorem dropLastWhile_append_rtakeWhile (test : α → Bool) (xs : List α) :
    dropLastWhile test xs ++ xs.rtakeWhile test = xs :=
  List.rdropWhile_append_rtakeWhile

/-- What is dropped passes the test, so an element that fails it stays in its place. -/
private theorem getElem?_dropLastWhile {test : α → Bool} {x : α} (hx : test x = false)
    {xs : List α} {i : Nat} : (dropLastWhile test xs)[i]? = some x ↔ xs[i]? = some x := by
  have hdropped : (xs.rtakeWhile test)[i - (dropLastWhile test xs).length]? ≠ some x := by
    intro hmem
    have htest := List.mem_rtakeWhile_imp (List.mem_of_getElem? hmem)
    rw [hx] at htest
    cases htest
  conv_rhs => rw [← dropLastWhile_append_rtakeWhile test xs]
  rcases Nat.lt_or_ge i (dropLastWhile test xs).length with hi | hi
  · rw [List.getElem?_append_left hi]
  · rw [List.getElem?_append_right hi, List.getElem?_eq_none hi]
    simp [hdropped]

/-- All that stands before an element that fails the test stays too. -/
private theorem getElem?_dropLastWhile_of_le {test : α → Bool} {xs : List α} {x : α} {i j : Nat}
    (hij : i ≤ j) (hj : xs[j]? = some x) (hx : test x = false) :
    (dropLastWhile test xs)[i]? = xs[i]? := by
  have hkept := (getElem?_dropLastWhile hx).mpr hj
  have hlength : j < (dropLastWhile test xs).length := (List.getElem?_eq_some_iff.mp hkept).1
  conv_rhs => rw [← dropLastWhile_append_rtakeWhile test xs]
  rw [List.getElem?_append_left (hij.trans_lt hlength)]

private theorem dropLastWhile_eq_nil_iff {test : α → Bool} {xs : List α} :
    dropLastWhile test xs = [] ↔ ∀ x ∈ xs, test x = true :=
  List.rdropWhile_eq_nil_iff

private theorem dropLastWhile_cons {test : α → Bool} {x : α} (hx : test x = false)
    (xs : List α) : dropLastWhile test (x :: xs) = x :: dropLastWhile test xs := by
  rw [dropLastWhile, dropLastWhile, List.reverse_cons, List.dropWhile_append]
  split
  · next h => simp_all
  · simp

private theorem dropLastWhile_map {f : α → β} {test : β → Bool} {test' : α → Bool} {xs : List α}
    (h : ∀ x ∈ xs, test (f x) = test' x) :
    dropLastWhile test (xs.map f) = (dropLastWhile test' xs).map f := by
  induction xs using List.reverseRecOn with
  | nil => rfl
  | append_singleton xs x ih =>
    have hx := h x (by simp)
    have ih := ih fun y hy => h y (by simp [hy])
    simp only [dropLastWhile, List.map_append, List.map_cons, List.map_nil, List.reverse_append,
      List.reverse_cons, List.reverse_nil, List.nil_append, List.singleton_append,
      List.dropWhile_cons, hx] at ih ⊢
    split
    · exact ih
    · simp

private theorem patchRow_map_some (cells : List String) : patchRow (cells.map some) [] = cells := by
  induction cells with
  | nil => rfl
  | cons cell cells ih => rw [List.map_cons, patchRow, List.tail_nil, ih, Option.getD_some]

/-- Cells that are written over nothing. -/
private theorem patch_map_some (g : Grid) : Grid.patch (g.map (·.map some)) [] = g := by
  induction g with
  | nil => rfl
  | cons row g ih =>
    rw [List.map_cons, patch, List.headD_nil, List.tail_nil, ih, patchRow_map_some]

end Grid

namespace Row

def filled (r : Row) : Row := ⟨r.cells.filter (·.2 ≠ ""), r.sorted.filter _⟩

theorem get?_filled_eq_some_iff {r : Row} {key value : String} :
    r.filled.get? key = some value ↔ r.get? key = some value ∧ value ≠ "" := by
  rw [get?_eq_some_iff, get?_eq_some_iff, filled, List.mem_filter, decide_eq_true_iff]

theorem text_eq_iff {r : Row} {key value : String} (h : value ≠ "") :
    r.text key = value ↔ r.get? key = some value := by
  rw [text]
  cases r.get? key <;> simp [eq_comm, h]

theorem filled_eq_empty_iff {r : Row} : r.filled = ∅ ↔ ∀ key ∈ r.keys, r.text key = "" := by
  constructor
  · intro h key _
    by_contra hne
    have hcell : r.filled.get? key = some (r.text key) :=
      get?_filled_eq_some_iff.mpr ⟨(text_eq_iff hne).mp rfl, hne⟩
    rw [h, get?_empty] at hcell
    cases hcell
  · intro h
    refine ext_get? fun key => ?_
    rw [get?_empty, Option.eq_none_iff_forall_ne_some]
    intro value hvalue
    obtain ⟨hget, hne⟩ := get?_filled_eq_some_iff.mp hvalue
    have hkey : key ∈ r.keys := mem_keys_iff.mpr (by simp [hget])
    exact hne (((text_eq_iff hne).mpr hget).symm.trans (h key hkey))

end Row

namespace Sheet

private theorem map_fst_zip_sublist (columns cells : List String) :
    ((columns.zip cells).map (·.1)).Sublist columns := by
  induction columns generalizing cells with
  | nil => simp
  | cons column columns ih =>
    cases cells with
    | nil => simp
    | cons cell cells => exact (ih cells).cons_cons column

/-- Reading a row under different column names finds the cells that are not empty by their
place. -/
private theorem get?_rowOfCells {columns cells : List String} (hcolumns : columns.Nodup)
    {key value : String} :
    (rowOfCells columns cells).get? key = some value ↔
      (∃ i : Nat, columns[i]? = some key ∧ cells[i]? = some value) ∧ key ≠ "" ∧ value ≠ "" := by
  have hnodup (test : String × String → Bool) :
      (((columns.zip cells).filter test).map (·.1)).Nodup :=
    hcolumns.sublist ((List.filter_sublist.map _).trans (map_fst_zip_sublist columns cells))
  rw [rowOfCells, Row.get?_ofList_eq_some_iff (hnodup _), List.mem_filter, List.mem_iff_getElem?,
    decide_eq_true_iff]
  simp only [List.getElem?_zip_eq_some]

/-- What reading shows of a row that was written under some columns. -/
def shownCells (columns : List String) (row : Row) : List String :=
  Grid.dropLastWhile String.isEmpty (columns.map row.text)

section Columns

variable {columns : List String} {row : Row}

/-- A row that is written under columns for all its cells is read back without its empty cells,
whether or not the empty cells at its end are shown. -/
private theorem rowOfCells_shownCells (hcolumns : columns.Nodup) (hnames : "" ∉ columns)
    (hrow : ∀ key ∈ row.keys, key ∈ columns) :
    rowOfCells columns (shownCells columns row) = row.filled := by
  refine Row.ext_get? fun key => Option.ext fun value => ?_
  rw [get?_rowOfCells hcolumns, Row.get?_filled_eq_some_iff, shownCells]
  constructor
  · rintro ⟨⟨i, hkey, hcell⟩, -, hvalue⟩
    rw [Grid.getElem?_dropLastWhile (by simpa using hvalue), List.getElem?_map, hkey,
      Option.map_some, Option.some_inj, Row.text_eq_iff hvalue] at hcell
    exact ⟨hcell, hvalue⟩
  · rintro ⟨hget, hvalue⟩
    have hkey : key ∈ columns := hrow key (Row.mem_keys_iff.mpr (by simp [hget]))
    obtain ⟨i, hi⟩ := List.mem_iff_getElem?.mp hkey
    refine ⟨⟨i, hi, ?_⟩, ne_of_mem_of_not_mem hkey hnames, hvalue⟩
    rw [Grid.getElem?_dropLastWhile (by simpa using hvalue), List.getElem?_map, hi,
      Option.map_some, Option.some_inj, Row.text_eq_iff hvalue]
    exact hget

/-- Nothing is shown of a row exactly if all its cells are empty. -/
private theorem isEmpty_shownCells (hrow : ∀ key ∈ row.keys, key ∈ columns) :
    (shownCells columns row).isEmpty = true ↔ row.filled = ∅ := by
  have hshown : shownCells columns row = [] ↔ ∀ key ∈ columns, row.text key = "" := by
    rw [shownCells, Grid.dropLastWhile_eq_nil_iff]
    simp
  rw [List.isEmpty_iff, hshown, Row.filled_eq_empty_iff]
  constructor
  · exact fun h key hkey => h key (hrow key hkey)
  · intro h key hcolumn
    by_cases hkey : key ∈ row.keys
    · exact h key hkey
    · have hnone : row.get? key = none := by simpa [Row.mem_keys_iff] using hkey
      rw [Row.text, hnone, Option.getD_none]

end Columns

/-- What reading a sheet shows of the sheet that was written. -/
structure ReadsBackAs (written read : Sheet) : Prop where
  name : read.name = written.name
  columns : read.columns = written.columns
  rows : read.rows = Grid.dropLastWhile (· = ∅) (written.rows.map Row.filled)
  /-- A text is read from a cell exactly if it was written there and is not empty. -/
  cell : ∀ (i : Nat) (key value : String),
    (∃ row, read.rows[i]? = some row ∧ row.get? key = some value) ↔
      value ≠ "" ∧ ∃ row, written.rows[i]? = some row ∧ row.get? key = some value
  /-- A row up to the last one that is not empty keeps its place, also if it is empty itself. -/
  place : ∀ (i j : Nat) (row last : Row), written.rows[i]? = some row →
    written.rows[j]? = some last → i ≤ j → last.filled ≠ ∅ → read.rows[i]? = some row.filled

/-- The places of cells and rows follow from the list of rows. -/
private theorem ReadsBackAs.of_rows {written read : Sheet} (hname : read.name = written.name)
    (hcolumns : read.columns = written.columns)
    (hrows : read.rows = Grid.dropLastWhile (· = ∅) (written.rows.map Row.filled)) :
    written.ReadsBackAs read where
  name := hname
  columns := hcolumns
  rows := hrows
  cell i key value := by
    have hplace {row : Row} (hrow : row ≠ ∅) :
        read.rows[i]? = some row ↔ (written.rows.map Row.filled)[i]? = some row := by
      rw [hrows, Grid.getElem?_dropLastWhile (by simpa using hrow)]
    have hnonempty {row : Row} (hcell : row.get? key = some value) : row ≠ ∅ := by
      rintro rfl
      cases hcell
    constructor
    · rintro ⟨row, hrow, hcell⟩
      rw [hplace (hnonempty hcell), List.getElem?_map, Option.map_eq_some_iff] at hrow
      obtain ⟨source, hsource, rfl⟩ := hrow
      obtain ⟨hget, hvalue⟩ := Row.get?_filled_eq_some_iff.mp hcell
      exact ⟨hvalue, source, hsource, hget⟩
    · rintro ⟨hvalue, row, hrow, hget⟩
      have hcell : row.filled.get? key = some value :=
        Row.get?_filled_eq_some_iff.mpr ⟨hget, hvalue⟩
      refine ⟨row.filled, ?_, hcell⟩
      rw [hplace (hnonempty hcell), List.getElem?_map, hrow, Option.map_some]
  place i j row last hrow hlast hij hfilled := by
    have hj : (written.rows.map Row.filled)[j]? = some last.filled := by
      rw [List.getElem?_map, hlast, Option.map_some]
    rw [hrows, Grid.getElem?_dropLastWhile_of_le hij hj (by simpa using hfilled),
      List.getElem?_map, hrow, Option.map_some]

/-- Each cell of a sheet has one column, and the column has a name. -/
structure IsLaidOut (s : Sheet) : Prop where
  nodup : s.columns.Nodup
  named : "" ∉ s.columns
  covers : ∀ row ∈ s.rows, ∀ key ∈ row.keys, key ∈ s.columns

/-- A file has room for a sheet, and the texts of the sheet come back from their cells. -/
structure IsKept (s : Sheet) : Prop where
  columns : s.columns.length ≤ SheetFault.maxColumns
  rows : s.grid.length ≤ SheetFault.maxRows
  texts : ∀ cells ∈ s.grid, ∀ text ∈ cells, Cell.Survives text

instance (s : Sheet) : Decidable s.IsKept :=
  decidable_of_iff (s.columns.length ≤ SheetFault.maxColumns ∧
    s.grid.length ≤ SheetFault.maxRows ∧ ∀ cells ∈ s.grid, ∀ text ∈ cells, Cell.Survives text)
    ⟨fun h => ⟨h.1, h.2.1, h.2.2⟩, fun h => ⟨h.columns, h.rows, h.texts⟩⟩

theorem isLaidOut_ofRows {name : String} {leading : List String} {rows : List Row}
    (hleading : leading.Nodup) (hnames : ∀ row ∈ rows, "" ∉ row.keys) :
    (ofRows name leading rows).IsLaidOut where
  nodup := nodup_columnOrder hleading rows
  named := by
    intro hmem
    obtain ⟨row, hrow, hkey⟩ := mem_columnOrder.mp hmem
    exact hnames row hrow hkey
  covers row hrow key hkey := mem_columnOrder.mpr ⟨row, hrow, hkey⟩

private theorem shown_grid {s : Sheet} (h : s.IsKept) : s.grid.shown = s.grid := by
  refine map_eq_self fun cells hcells => map_eq_self fun text htext => ?_
  exact Cell.shown_of_isPlain (Cell.isPlain_of_survives (h.texts cells hcells text htext))

private theorem trimmed_grid {s : Sheet} (h : s.IsLaidOut) (hcolumns : s.columns ≠ []) :
    s.grid.trimmed =
      s.columns :: Grid.dropLastWhile List.isEmpty (s.rows.map (shownCells s.columns)) := by
  have hheader : Grid.dropLastWhile String.isEmpty s.columns = s.columns := by
    refine List.rdropWhile_eq_self_iff.mpr fun hne hlast => h.named ?_
    rw [String.isEmpty_iff] at hlast
    exact hlast ▸ List.getLast_mem hne
  rw [grid, if_neg (by simpa using hcolumns), Grid.trimmed, List.map_cons, hheader, List.map_map,
    Grid.dropLastWhile_cons (by simpa using hcolumns)]
  rfl

/-- Of a laid out sheet reading shows the columns, and of its rows what is filled. -/
theorem readsBackAs_ofGrid {s : Sheet} (h : s.IsLaidOut) (hkept : s.IsKept) :
    s.ReadsBackAs (ofGrid s.name s.grid) := by
  -- Without columns nothing is written, not even empty rows, and no row has a cell.
  by_cases hcolumns : s.columns = []
  · have hgrid : s.grid = [] := by rw [grid, hcolumns]; rfl
    rw [hgrid]
    refine .of_rows rfl hcolumns.symm ?_
    refine (Grid.dropLastWhile_eq_nil_iff.mpr fun row hrow => ?_).symm
    obtain ⟨source, hsource, rfl⟩ := List.mem_map.mp hrow
    have hkeys (key : String) : key ∉ source.keys := fun hkey => by
      simpa [hcolumns] using h.covers source hsource key hkey
    rw [decide_eq_true_iff, Row.filled_eq_empty_iff]
    exact fun key hkey => absurd hkey (hkeys key)
  · rw [ofGrid, shown_grid hkept, trimmed_grid h hcolumns]
    refine .of_rows rfl rfl ?_
    have hread (row : Row) (hrow : row ∈ s.rows) :
        (rowOfCells s.columns ∘ shownCells s.columns) row = row.filled :=
      rowOfCells_shownCells h.nodup h.named (h.covers row hrow)
    have hempty : ∀ cells ∈ s.rows.map (shownCells s.columns),
        decide (rowOfCells s.columns cells = ∅) = cells.isEmpty := by
      intro cells hcells
      obtain ⟨row, hrow, rfl⟩ := List.mem_map.mp hcells
      rw [Bool.eq_iff_iff, decide_eq_true_iff, isEmpty_shownCells (h.covers row hrow),
        ← hread row hrow]
      rfl
    calc (Grid.dropLastWhile List.isEmpty (s.rows.map (shownCells s.columns))).map
          (rowOfCells s.columns)
        = Grid.dropLastWhile (· = ∅)
            ((s.rows.map (shownCells s.columns)).map (rowOfCells s.columns)) :=
          (Grid.dropLastWhile_map hempty).symm
      _ = Grid.dropLastWhile (· = ∅) (s.rows.map Row.filled) := by
          rw [List.map_map, List.map_congr_left hread]

/-- No row is lost if the last one has a cell that is not empty, whatever its column is called. -/
theorem length_rows_ofGrid {s : Sheet} (hkept : s.IsKept) {last : Row}
    (hlast : s.rows.getLast? = some last) {key : String} (hkey : key ∈ s.columns)
    (htext : last.text key ≠ "") : (ofGrid s.name s.grid).rows.length = s.rows.length := by
  obtain ⟨init, hrows⟩ := List.getLast?_eq_some_iff.mp hlast
  have hgrid : s.grid = s.columns :: s.rows.map fun row => s.columns.map row.text :=
    if_neg (by simpa using List.ne_nil_of_mem hkey)
  have hcells : ¬ (Grid.dropLastWhile String.isEmpty (s.columns.map last.text)).isEmpty := by
    rw [List.isEmpty_iff, Grid.dropLastWhile_eq_nil_iff]
    exact fun hempty => htext (by simpa using hempty _ (List.mem_map_of_mem hkey))
  have htrimmed : s.grid.trimmed = s.grid.map (Grid.dropLastWhile String.isEmpty) := by
    rw [Grid.trimmed, hgrid, hrows, List.map_append, ← List.cons_append, List.map_append]
    exact List.rdropWhile_concat_neg _ _ _ hcells
  rw [ofGrid, shown_grid hkept, htrimmed, hgrid]
  simp

end Sheet

/-- The sheet of a file that a sheet is written to by itself. -/
def BookSheet.ofSheet (s : Sheet) : BookSheet := ⟨s.name, s.grid, s.widths, s.widths.length⟩

namespace Draft

private theorem text_of_survives {s : String} (h : Cell.Survives s) : text [] s = (s, []) := by
  have hlimited : Cell.limited s = s := Cell.limited_of_isPlain (Cell.isPlain_of_survives h)
  simp [text, hlimited, Cell.escape_of_survives h]

private theorem textRow_map_some {cells : List String} (h : ∀ text ∈ cells, Cell.Survives text) :
    textRow [] (cells.map some) = (cells.map some, []) := by
  induction cells with
  | nil => rfl
  | cons text cells ih =>
    rw [List.forall_mem_cons] at h
    simp [textRow, text_of_survives h.1, ih h.2]

/-- Texts that survive are written as they are, and no escaped form is kept of them. -/
private theorem textRows_map_some {g : Grid}
    (h : ∀ cells ∈ g, ∀ text ∈ cells, Cell.Survives text) :
    textRows [] (g.map (·.map some)) = (g.map (·.map some), []) := by
  induction g with
  | nil => rfl
  | cons cells g ih =>
    rw [List.forall_mem_cons] at h
    simp [textRows, textRow_map_some h.1, ih h.2]

private theorem modify_append {sheets : List BookSheet} {last : BookSheet} {name : String}
    {escaped : List (String × String)}
    (hothers : ∀ other ∈ sheets, Text.sameFold other.name name = false)
    (hlast : last.name = name) (change : BookSheet → BookSheet) :
    modify ⟨sheets ++ [last], escaped⟩ name change = ⟨sheets ++ [change last], escaped⟩ := by
  have hmap : (sheets.map fun s => if Text.sameFold s.name name then change s else s) = sheets :=
    map_eq_self fun other hother => if_neg (by simp [hothers other hother])
  have hself : Text.sameFold last.name name = true := by rw [hlast, Text.sameFold_iff]
  simp [modify, hmap, hself]

/-- A sheet of a new name is appended. -/
private theorem writeSheet_of_new {d : Draft} {s : Sheet} (hescaped : d.escaped = [])
    (hnew : ∀ other ∈ d.sheets, Text.sameFold other.name s.name = false) (hkept : s.IsKept) :
    d.writeSheet s = ⟨d.sheets ++ [.ofSheet s], []⟩ := by
  have hadd : d.add s.name = ⟨d.sheets ++ [.empty s.name], []⟩ := by
    rw [add, if_neg (by simpa using hnew), hescaped]
  have hwrite : d.write s.name (s.grid.map (·.map some)) =
      ⟨d.sheets ++ [⟨s.name, s.grid, [], 0⟩], []⟩ := by
    simp only [write, hescaped, textRows_map_some hkept.texts, hadd]
    rw [modify_append hnew rfl]
    simp [BookSheet.write, BookSheet.empty, Grid.patch_map_some]
  rw [writeSheet, hwrite, modify_append hnew rfl]
  simp [BookSheet.layOut, BookSheet.ofSheet]

/-- Sheets of different names are written side by side. -/
private theorem foldl_writeSheet {sheets : List Sheet} {d : Draft} (hescaped : d.escaped = [])
    (hnew : ∀ s ∈ sheets, ∀ other ∈ d.sheets, Text.sameFold other.name s.name = false)
    (hnames : sheets.Pairwise fun a b => Text.sameFold a.name b.name = false)
    (hkept : ∀ s ∈ sheets, s.IsKept) :
    (sheets.foldl writeSheet d).sheets = d.sheets ++ sheets.map .ofSheet := by
  induction sheets generalizing d with
  | nil => simp
  | cons s sheets ih =>
    rw [List.forall_mem_cons] at hnew hkept
    rw [List.pairwise_cons] at hnames
    rw [List.foldl_cons, writeSheet_of_new hescaped hnew.1 hkept.1, ih rfl ?_ hnames.2 hkept.2]
    · simp
    · intro later hlater other hother
      rcases List.mem_append.mp hother with hold | hnewest
      · exact hnew.2 later hlater other hold
      · rw [List.mem_singleton.mp hnewest]
        exact hnames.1 later hlater

end Draft

namespace Workbook

variable {survey choices : List Row} {settings : Row}

/-- A workbook of which a file keeps every sheet. -/
def IsKept (w : Workbook) : Prop := ∀ s ∈ w.sheets, s.IsKept

instance (w : Workbook) : Decidable w.IsKept :=
  inferInstanceAs (Decidable (∀ s ∈ w.sheets, s.IsKept))

private theorem ofSheet?_eq_none {s : Sheet} (hname : SheetNameFault.ofName? s.name = none)
    (h : s.IsKept) : SheetFault.ofSheet? s = none := by
  rw [SheetFault.ofSheet?, hname]
  simp only [if_neg (Nat.not_lt.mpr h.columns), if_neg (Nat.not_lt.mpr h.rows)]

/-- The three sheets of a form are written side by side. -/
theorem ofSheets_ofRows (hkept : (ofRows survey choices settings).IsKept) :
    Book.ofSheets (ofRows survey choices settings).sheets =
      .ok ⟨(ofRows survey choices settings).sheets.map .ofSheet⟩ := by
  have hnames : ∀ s ∈ (ofRows survey choices settings).sheets,
      SheetNameFault.ofName? s.name = none := by
    simp only [sheets, ofRows, Sheet.ofRows, List.forall_mem_cons]
    exact ⟨by decide, by decide, by decide, by simp⟩
  have hdifferent : (ofRows survey choices settings).sheets.Pairwise
      fun a b => Text.sameFold a.name b.name = false := by
    simp only [sheets, ofRows, Sheet.ofRows, List.pairwise_cons, List.forall_mem_cons]
    exact ⟨⟨by decide, by decide, by simp⟩, ⟨by decide, by simp⟩, by simp⟩
  have hfaultless : (ofRows survey choices settings).sheets.findSome?
      (fun s => (SheetFault.ofSheet? s).map ((s.name, ·))) = none := by
    rw [List.findSome?_eq_none_iff]
    intro s hs
    rw [ofSheet?_eq_none (hnames s hs) (hkept s hs), Option.map_none]
  have hdraft := Draft.foldl_writeSheet (d := .empty) rfl (by simp [Draft.empty]) hdifferent hkept
  rw [Book.ofSheets, hfaultless, Draft.book, hdraft]
  rfl

/-- A written form is found again under the names of its sheets. -/
theorem workbook?_ofSheets (w : Workbook) (hsurvey : w.survey.name = surveyName)
    (hchoices : w.choices.name = choicesName) (hsettings : w.settings.name = settingsName) :
    Book.workbook? ⟨w.sheets.map .ofSheet⟩ =
      some ⟨.ofGrid w.survey.name w.survey.grid, .ofGrid w.choices.name w.choices.grid,
        .ofGrid w.settings.name w.settings.grid⟩ := by
  have hshown : (BookSheet.ofSheet w.survey).shownName = surveyName ∧
      (BookSheet.ofSheet w.choices).shownName = choicesName ∧
      (BookSheet.ofSheet w.settings).shownName = settingsName := by
    simp only [BookSheet.shownName, BookSheet.ofSheet, hsurvey, hchoices, hsettings]
    decide
  have hdifferent : settingsName ≠ surveyName ∧ settingsName ≠ choicesName ∧
      choicesName ≠ surveyName := by decide
  have hfound :
      Book.sheet? ⟨w.sheets.map .ofSheet⟩ surveyName = some (.ofSheet w.survey) ∧
      Book.sheet? ⟨w.sheets.map .ofSheet⟩ choicesName = some (.ofSheet w.choices) ∧
      Book.sheet? ⟨w.sheets.map .ofSheet⟩ settingsName = some (.ofSheet w.settings) := by
    simp [Book.sheet?, sheets, hshown, hdifferent]
  rw [hsurvey, hchoices, hsettings, Book.workbook?, Book.sheet, Book.sheet, Book.sheet, hfound.1,
    hfound.2.1, hfound.2.2]
  rfl

/-- A form with settings, none of whose cells lacks a column name, is read back from a file that
keeps its texts: on each sheet the columns, the cells that are not empty and their places. -/
theorem written_form_reads_back {f : Form} {settings : Row} (hsettings : f.settings = some settings)
    (hnames : ∀ row ∈ f.survey ++ f.choices ++ [settings], "" ∉ row.keys)
    (hkept : (ofRows f.survey f.choices settings).IsKept) :
    ∃ w book read, ofForm? f = some w ∧ Book.ofSheets w.sheets = .ok book ∧
      book.workbook? = some read ∧
      (w.survey.rows = f.survey ∧ w.choices.rows = f.choices ∧ w.settings.rows = [settings]) ∧
      w.survey.ReadsBackAs read.survey ∧ w.choices.ReadsBackAs read.choices ∧
      w.settings.ReadsBackAs read.settings := by
  have hform : ofForm? f = some (ofRows f.survey f.choices settings) := by
    rw [ofForm?, hsettings, Option.map_some]
  have hread := workbook?_ofSheets (ofRows f.survey f.choices settings) rfl rfl rfl
  simp only [List.forall_mem_append, List.forall_mem_singleton] at hnames
  obtain ⟨⟨hsurvey, hchoices⟩, hrow⟩ := hnames
  refine ⟨_, _, _, hform, ofSheets_ofRows hkept, hread, ⟨rfl, rfl, rfl⟩, ?_, ?_, ?_⟩
  · exact Sheet.readsBackAs_ofGrid (Sheet.isLaidOut_ofRows (by decide) hsurvey)
      (hkept _ (by simp [sheets]))
  · exact Sheet.readsBackAs_ofGrid (Sheet.isLaidOut_ofRows (by decide) hchoices)
      (hkept _ (by simp [sheets]))
  · exact Sheet.readsBackAs_ofGrid (Sheet.isLaidOut_ofRows (by decide) (by simpa using hrow))
      (hkept _ (by simp [sheets]))

end Workbook

/-- A form with rows of different lengths, among them one in the middle and one at the end that
have only empty cells, and without choices. -/
def raggedForm : Form where
  survey := [.ofList [("type", "text"), ("name", "age"), ("label", ""), ("relevance", "a = 'x'")],
    .ofList [("label", "")], .ofList [("guidance", "_x00_"), ("type", "note")],
    .ofList [("name", "")]]
  choices := []
  settings := some (.ofList [("form_id", "visit"), ("version", "")])

theorem raggedForm_reads_back :
    (Workbook.ofRows raggedForm.survey [] (.ofList [("form_id", "visit"), ("version", "")])).IsKept ∧
    ∃ w book read, Workbook.ofForm? raggedForm = some w ∧ Book.ofSheets w.sheets = .ok book ∧
      book.workbook? = some read ∧
      w.survey.ReadsBackAs read.survey ∧ w.choices.ReadsBackAs read.choices ∧
      w.settings.ReadsBackAs read.settings ∧
      read.survey.columns = ["type", "name", "label", "relevance", "guidance"] ∧
      read.survey.rows =
        [.ofList [("name", "age"), ("relevance", "a = 'x'"), ("type", "text")], ∅,
          .ofList [("guidance", "_x00_"), ("type", "note")]] := by
  have hkept : (Workbook.ofRows raggedForm.survey []
      (.ofList [("form_id", "visit"), ("version", "")])).IsKept := by decide +kernel
  obtain ⟨w, book, read, hw, hbook, hread, -, hsurvey, hchoices, hsettings⟩ :=
    Workbook.written_form_reads_back (f := raggedForm) rfl (by decide) hkept
  obtain rfl := Option.some.inj hw
  refine ⟨hkept, _, book, read, rfl, hbook, hread, hsurvey, hchoices, hsettings, ?_, ?_⟩
  · rw [hsurvey.columns]
    decide +kernel
  · rw [hsurvey.rows]
    decide +kernel

end SurveyForms
