import Mathlib.Data.List.Dedup
import SurveyForms.Proofs.ByteOrder
import SurveyForms.Proofs.Columns

/-! The order of the columns of a sheet. Main statement: leading columns come first and in their
order, the others follow by their bytes, and nothing but the keys that occur decides what the
columns are: not the order of the rows, nor the order in which their keys are come across. -/
namespace SurveyForms.Sheet

/-- These are the columns of some rows: one for each key that occurs, the leading ones in front and
in their order, the others behind them by their bytes. -/
structure Arranged (leading : List String) (rows : List Row) (columns : List String) : Prop where
  nodup : columns.Nodup
  exactly : ∀ key, key ∈ columns ↔ ∃ row ∈ rows, key ∈ row.keys
  ordered : ∃ front others, columns = front ++ others ∧ front.Sublist leading ∧
    (∀ key ∈ others, key ∉ leading) ∧
    others.Pairwise fun a b => Position.bytes a < Position.bytes b

/-- The columns for keys that are come across in some order, perhaps more than once. -/
def columnsMet (leading met : List String) : List String :=
  leading.filter met.contains ++ ((met.filter (!leading.contains ·)).dedup).mergeSort (· ≤ ·)

variable {leading columns columns' : List String} {rows rows' : List Row}

/-- A selection from different elements is told by what is in it. -/
private theorem eq_filter_of_sublist {xs ys : List String} (h : xs.Sublist ys) (hys : ys.Nodup) :
    xs = ys.filter xs.contains := by
  induction h with
  | slnil => rfl
  | @cons xs ys y hsub ih =>
    obtain ⟨hy, hys⟩ := List.nodup_cons.mp hys
    have hout : y ∉ xs := fun hmem => hy (hsub.subset hmem)
    rw [List.filter_cons_of_neg (by simpa using hout)]
    exact ih hys
  | @cons_cons xs ys y _ ih =>
    obtain ⟨hy, hys⟩ := List.nodup_cons.mp hys
    rw [List.filter_cons_of_pos (by simp)]
    refine congrArg (y :: ·) ((ih hys).trans (List.filter_congr fun z hz => ?_))
    have hne : z ≠ y := ne_of_mem_of_not_mem hz hy
    simp [hne]

theorem pairwise_bytes_iff {keys : List String} :
    (keys.Pairwise fun a b => Position.bytes a < Position.bytes b) ↔ keys.Pairwise (· < ·) := by
  simp only [Text.bytes_lt_iff]

theorem pairwise_usedKeys (rows : List Row) : (usedKeys rows).Pairwise (· < ·) :=
  List.pairwise_map.mpr (rows.foldl Row.overlay ∅).sorted

theorem arranged_columnOrder (hleading : leading.Nodup) (rows : List Row) :
    Arranged leading rows (columnOrder leading rows) where
  nodup := nodup_columnOrder hleading rows
  exactly _ := mem_columnOrder
  ordered := by
    refine ⟨_, _, rfl, List.filter_sublist, fun key hkey => ?_, ?_⟩
    · simpa using (List.mem_filter.mp hkey).2
    · exact pairwise_bytes_iff.mpr ((pairwise_usedKeys rows).filter _)

namespace Arranged

/-- The columns are known from the keys that occur. -/
theorem unique (hleading : leading.Nodup) (h : Arranged leading rows columns)
    (h' : Arranged leading rows columns') : columns = columns' := by
  have hmem (key : String) : key ∈ columns ↔ key ∈ columns' :=
    (h.exactly key).trans (h'.exactly key).symm
  obtain ⟨front, others, rfl, hfront, hothers, hsorted⟩ := h.ordered
  obtain ⟨front', others', rfl, hfront', hothers', hsorted'⟩ := h'.ordered
  simp only [List.mem_append] at hmem
  have hin {key : String} (hkey : key ∈ leading) : key ∈ front ↔ key ∈ front' := by
    have hnot : key ∉ others := fun hmem => hothers key hmem hkey
    have hnot' : key ∉ others' := fun hmem => hothers' key hmem hkey
    simpa [hnot, hnot'] using hmem key
  have hsame : front = front' := by
    rw [eq_filter_of_sublist hfront hleading, eq_filter_of_sublist hfront' hleading]
    exact List.filter_congr fun key hkey => by simp [hin hkey]
  have hout (key : String) : key ∈ others ↔ key ∈ others' := by
    by_cases hkey : key ∈ leading
    · exact iff_of_false (fun hmem => hothers key hmem hkey) (fun hmem => hothers' key hmem hkey)
    · have hnot : key ∉ front := fun hmem => hkey (hfront.subset hmem)
      have hnot' : key ∉ front' := fun hmem => hkey (hfront'.subset hmem)
      simpa [hnot, hnot'] using hmem key
  have hperm : others.Perm others' :=
    (List.perm_ext_iff_of_nodup (List.nodup_append.mp h.nodup).2.1
      (List.nodup_append.mp h'.nodup).2.1).mpr hout
  rw [hsame, hperm.eq_of_pairwise (fun _ _ _ _ hlt hgt => absurd hgt (String.lt_asymm hlt))
    (pairwise_bytes_iff.mp hsorted) (pairwise_bytes_iff.mp hsorted')]

/-- Columns of more rows, with those left out that have no cell in fewer rows. -/
theorem restrict (h : Arranged leading rows' columns) (hsub : rows ⊆ rows') :
    Arranged leading rows (columns.filter (usedKeys rows).contains) where
  nodup := h.nodup.filter _
  exactly key := by
    rw [List.mem_filter, h.exactly, List.contains_iff_mem, mem_usedKeys]
    exact and_iff_right_of_imp fun ⟨row, hrow, hkey⟩ => ⟨row, hsub hrow, hkey⟩
  ordered := by
    obtain ⟨front, others, rfl, hfront, hothers, hsorted⟩ := h.ordered
    refine ⟨_, _, List.filter_append _ _, List.filter_sublist.trans hfront, fun key hkey => ?_,
      hsorted.filter _⟩
    exact hothers key (List.mem_filter.mp hkey).1

end Arranged

/-- Keys that are come across in any order are laid out in the one order of the columns. -/
theorem arranged_columnsMet (hleading : leading.Nodup) {met : List String}
    (hmet : ∀ key, key ∈ met ↔ ∃ row ∈ rows, key ∈ row.keys) :
    Arranged leading rows (columnsMet leading met) := by
  let others := (met.filter (!leading.contains ·)).dedup
  have hmem (key : String) : key ∈ others.mergeSort (· ≤ ·) ↔ key ∈ met ∧ key ∉ leading := by
    rw [List.mem_mergeSort, List.mem_dedup, List.mem_filter]
    simp
  have hnodup : (others.mergeSort (· ≤ ·)).Nodup :=
    (List.mergeSort_perm others _).nodup_iff.mpr (List.nodup_dedup _)
  refine ⟨?_, fun key => ?_, _, _, rfl, List.filter_sublist, fun key hkey => ((hmem key).mp hkey).2,
    pairwise_bytes_iff.mpr ?_⟩
  · rw [columnsMet, List.nodup_append]
    refine ⟨hleading.filter _, hnodup, fun a ha b hb heq => ?_⟩
    exact ((hmem b).mp hb).2 (heq ▸ (List.mem_filter.mp ha).1)
  · rw [← hmet, columnsMet, List.mem_append, hmem, List.mem_filter, List.contains_iff_mem]
    by_cases hkey : key ∈ leading <;> simp [hkey]
  · have htrans (a b c : String) (hab : decide (a ≤ b)) (hbc : decide (b ≤ c)) :
        decide (a ≤ c) := by
      rw [decide_eq_true_iff] at hab hbc ⊢
      exact String.le_trans hab hbc
    have htotal (a b : String) : decide (a ≤ b) || decide (b ≤ a) := by
      simpa using String.le_total a b
    have hle : (others.mergeSort (· ≤ ·)).Pairwise (· ≤ ·) := by
      simpa using List.pairwise_mergeSort htrans htotal others
    refine (hle.and hnodup).imp fun {a b} ⟨hle, hne⟩ => ?_
    by_contra hlt
    exact hne (String.le_antisymm hle (String.not_lt.mp hlt))

theorem nodup_leading : ∀ leading ∈
    [Workbook.surveyColumns, Workbook.choicesColumns, Workbook.settingsColumns],
    leading.Nodup := by
  decide

/-- The columns of the rows of a sheet are the keys that occur, each once, the leading ones in front
in their order and the others behind them by their bytes. No other list is arranged like this, so
the columns are the same for the rows in another order and for their keys come across in any order,
and further rows put their columns between those that are there. -/
theorem columns_arranged {leading : List String}
    (hleading : leading ∈
      [Workbook.surveyColumns, Workbook.choicesColumns, Workbook.settingsColumns])
    (rows : List Row) :
    Arranged leading rows (columnOrder leading rows) ∧
    (∀ columns, Arranged leading rows columns → columns = columnOrder leading rows) ∧
    (∀ rows', rows'.Perm rows → columnOrder leading rows' = columnOrder leading rows) ∧
    (∀ met, (∀ key, key ∈ met ↔ ∃ row ∈ rows, key ∈ row.keys) →
      columnsMet leading met = columnOrder leading rows) ∧
    ∀ rows', rows ⊆ rows' →
      (columnOrder leading rows).Sublist (columnOrder leading rows') := by
  have hnodup := nodup_leading leading hleading
  have harranged := arranged_columnOrder hnodup
  refine ⟨harranged rows, fun columns h => h.unique hnodup (harranged rows), fun rows' hperm => ?_,
    fun met hmet => (arranged_columnsMet hnodup hmet).unique hnodup (harranged rows),
    fun rows' hsub => ?_⟩
  · have hsame : Arranged leading rows (columnOrder leading rows') := by
      refine ⟨(harranged rows').nodup, fun key => ?_, (harranged rows').ordered⟩
      simp only [(harranged rows').exactly, hperm.mem_iff]
    exact hsame.unique hnodup (harranged rows)
  · rw [(harranged rows).unique hnodup ((harranged rows').restrict hsub)]
    exact List.filter_sublist

/-- Leading keys and others, some in one row and some in both, come across from the last to the
first and some of them twice. -/
theorem columns_of_two_rows :
    let first := Row.ofList [("zone", ""), ("label", "A"), ("type", "text")]
    let second := Row.ofList [("type", "note"), ("hint", "h"), ("if", "x"), ("é", "")]
    Workbook.surveyColumns ∈
      [Workbook.surveyColumns, Workbook.choicesColumns, Workbook.settingsColumns] ∧
    (∀ key, key ∈ ["é", "zone", "type", "label", "if", "hint", "type"] ↔
      ∃ row ∈ [first, second], key ∈ row.keys) ∧
    columnsMet Workbook.surveyColumns ["é", "zone", "type", "label", "if", "hint", "type"] =
      ["type", "label", "hint", "if", "zone", "é"] ∧
    columnOrder Workbook.surveyColumns [second, first] =
      ["type", "label", "hint", "if", "zone", "é"] ∧
    ["type", "label", "zone"].Sublist (columnOrder Workbook.surveyColumns [second, first]) := by
  intro first second
  have hleading : Workbook.surveyColumns ∈
      [Workbook.surveyColumns, Workbook.choicesColumns, Workbook.settingsColumns] :=
    List.mem_cons_self
  have hkeys : first.keys = ["label", "type", "zone"] ∧
      second.keys = ["hint", "if", "type", "é"] := by
    decide +kernel
  have hmet (key : String) : key ∈ ["é", "zone", "type", "label", "if", "hint", "type"] ↔
      ∃ row ∈ [first, second], key ∈ row.keys := by
    have hrows : (∃ row ∈ [first, second], key ∈ row.keys) ↔
        key ∈ first.keys ∨ key ∈ second.keys := by
      simp
    rw [hrows, hkeys.1, hkeys.2]
    simp only [List.mem_cons, List.not_mem_nil, or_false]
    tauto
  have hcolumns : columnOrder Workbook.surveyColumns [first, second] =
      ["type", "label", "hint", "if", "zone", "é"] := by
    decide +kernel
  obtain ⟨-, -, hperm, hmany, -⟩ := columns_arranged hleading [first, second]
  obtain ⟨-, -, -, -, hmore⟩ := columns_arranged hleading [first]
  have hswap := (hperm [second, first] (.swap first second [])).trans hcolumns
  refine ⟨hleading, hmet, (hmany _ hmet).trans hcolumns, hswap, ?_⟩
  have hfirst : columnOrder Workbook.surveyColumns [first] = ["type", "label", "zone"] := by
    decide +kernel
  rw [← hfirst]
  exact hmore [second, first] (by simp)

end SurveyForms.Sheet
