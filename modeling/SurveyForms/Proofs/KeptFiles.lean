import Mathlib
import SurveyForms.Files.Archive

/-! Files between two runs. What a run keeps of a workbook or a registry is all of it: the next run
reads back the same. -/
namespace SurveyForms

namespace Book

private def sheetRow (s : BookSheet) : List String :=
  "sheet" :: s.name :: toString s.bold :: s.widths.map toString

private theorem addRow_sheetRow (sheets : List BookSheet) (s : BookSheet) :
    addRow sheets (sheetRow s) = sheets ++ [{ s with cells := [] }] := by
  have hwidths : (s.widths.map toString).map (fun w => w.toNat?.getD 0) = s.widths := by
    rw [List.map_map]
    exact (List.map_congr_left fun w _ => congrArg (·.getD 0) (Nat.toNat?_repr w)).trans
      (List.map_id _)
  have hbold : (toString s.bold).toNat?.getD 0 = s.bold := congrArg (·.getD 0) (Nat.toNat?_repr _)
  rw [sheetRow, addRow, hwidths, hbold]

/-- Rows of cells go to the end of the last sheet. -/
private theorem foldl_addRow_cells (sheets : List BookSheet) (s : BookSheet) (grid : Grid) :
    (grid.map ("row" :: ·)).foldl addRow (sheets ++ [s]) =
      sheets ++ [{ s with cells := s.cells ++ grid }] := by
  induction grid generalizing s with
  | nil => rw [List.append_nil]; rfl
  | cons cells grid ih =>
    have hrow : addRow (sheets ++ [s]) ("row" :: cells) =
        sheets ++ [{ s with cells := s.cells ++ [cells] }] := by
      simp [addRow]
    rw [List.map_cons, List.foldl_cons, hrow, ih, List.append_assoc, List.singleton_append]

theorem ofRows_toRows (b : Book) : ofRows b.toRows.tail = b := by
  have hsheets (before sheets : List BookSheet) :
      (sheets.flatMap fun s => sheetRow s :: s.cells.map ("row" :: ·)).foldl addRow before =
        before ++ sheets := by
    induction sheets generalizing before with
    | nil => exact (List.append_nil _).symm
    | cons s sheets ih =>
      rw [List.flatMap_cons, List.foldl_append, List.foldl_cons, addRow_sheetRow,
        foldl_addRow_cells, ih, List.append_assoc]
      rfl
  exact congrArg Book.mk (hsheets [] b.sheets)

end Book

namespace Registry

theorem record?_recordRow (r : BuildRecord) : record? (recordRow r) = some r := by
  simp only [record?, recordRow, toString, Nat.toNat?_repr, Int.toInt?_repr]
  rfl

theorem versionOf?_versionCells (t : VersionTable) : versionOf? (versionCells t) = some t := by
  cases t with
  | missing => rfl
  | empty => rfl
  | row n =>
    have hread : (toString n).toNat? = some n := Nat.toNat?_repr n
    rw [versionCells, versionOf?, hread]
    · rfl
    · exact Nat.repr_ne_empty

theorem ofRows?_toRows (r : Registry) : ofRows? (toRows r) = some r := by
  obtain ⟨versions, table⟩ := r
  cases table with
  | none => simp [toRows, ofRows?, versionOf?_versionCells]
  | some t =>
    have hrecords : (t.records.map recordRow).mapM record? = some t.records := by
      induction t.records with
      | nil => rfl
      | cons r rs ih => rw [List.map_cons, List.mapM_cons, record?_recordRow, ih]; rfl
    have hflag (b : Bool) : (boolText b == "1") = b := by cases b <;> rfl
    simp [toRows, ofRows?, versionOf?_versionCells, hrecords, hflag]

end Registry

namespace Content

theorem decode_book (b : Book) : decode (encode (.book b)) = .book b := by
  have hrows : ∀ row ∈ b.toRows, row ≠ [] := by
    intro row hrow
    rcases List.mem_cons.mp hrow with rfl | hrow
    · exact List.cons_ne_nil _ _
    · obtain ⟨s, -, hrow⟩ := List.mem_flatMap.mp hrow
      rcases List.mem_cons.mp hrow with rfl | hrow
      · exact List.cons_ne_nil _ _
      · obtain ⟨cells, -, rfl⟩ := List.mem_map.mp hrow
        exact List.cons_ne_nil _ _
  have hkept : Table.decode (Table.encode b.toRows) = b.toRows :=
    Table.decode_encode (List.cons_ne_nil _ _) hrows
  rw [encode, decode, hkept]
  exact (if_pos rfl).trans (congrArg book b.ofRows_toRows)

theorem decode_registry (r : Registry) : decode (encode (.registry r)) = .registry r := by
  have hrows : ∀ row ∈ Registry.toRows r, row ≠ [] := by
    intro row hrow
    rcases List.mem_cons.mp hrow with rfl | hrow
    · exact List.cons_ne_nil _ _
    cases htable : r.data with
    | none => simp [htable] at hrow
    | some t =>
      rw [htable] at hrow
      rcases List.mem_cons.mp hrow with rfl | hrow
      · exact List.cons_ne_nil _ _
      · obtain ⟨record, -, rfl⟩ := List.mem_map.mp hrow
        exact List.cons_ne_nil _ _
  have hbook : Registry.heading :: Registry.versionCells r.versions ≠ Book.heading := by
    intro h
    exact absurd (List.head_eq_of_cons_eq h) (by decide)
  have hread := Registry.ofRows?_toRows r
  have hkept : Table.decode (Table.encode (Registry.toRows r)) = Registry.toRows r :=
    Table.decode_encode (List.cons_ne_nil _ _) hrows
  rw [encode, decode, hkept]
  simp only [Registry.toRows] at hread ⊢
  rw [if_neg hbook, List.head?_cons, if_pos rfl, hread]

end Content
end SurveyForms
