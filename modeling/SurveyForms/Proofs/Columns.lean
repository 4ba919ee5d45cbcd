import Mathlib.Data.List.Nodup
import SurveyForms.Proofs.Scope
import SurveyForms.Workbook.Basic

/-! Rows as finite maps, and the columns that are laid out for them: one for each key that occurs,
and no other. -/
namespace SurveyForms

namespace Row

theorem nodup_keys (r : Row) : r.keys.Nodup := by
  rw [keys, List.Nodup, List.pairwise_map]
  refine r.sorted.imp fun {a b} hlt heq => ?_
  rw [heq] at hlt
  exact String.lt_irrefl _ hlt

/-- Among cells with different keys, looking a key up finds its cell. -/
private theorem lookup_eq_some_iff {cells : List (String × String)} (h : (cells.map (·.1)).Nodup)
    {key value : String} :
    (cells.find? (·.1 = key)).map (·.2) = some value ↔ (key, value) ∈ cells := by
  rw [Option.map_eq_some_iff]
  constructor
  · rintro ⟨⟨key', value'⟩, hfind, rfl⟩
    obtain rfl : key' = key := by simpa using List.find?_some hfind
    exact List.mem_of_find?_eq_some hfind
  · intro hmem
    have hsome : (cells.find? (·.1 = key)).isSome := List.find?_isSome.mpr ⟨_, hmem, by simp⟩
    obtain ⟨cell, hfind⟩ := Option.isSome_iff_exists.mp hsome
    have hkey : cell.1 = key := by simpa using List.find?_some hfind
    have hcell : cell = (key, value) :=
      List.inj_on_of_nodup_map h (List.mem_of_find?_eq_some hfind) hmem hkey
    exact ⟨cell, hfind, by rw [hcell]⟩

theorem get?_eq_some_iff {r : Row} {key value : String} :
    r.get? key = some value ↔ (key, value) ∈ r.cells :=
  lookup_eq_some_iff r.nodup_keys

theorem get?_ofList_eq_some_iff {pairs : List (String × String)} (h : (pairs.map (·.1)).Nodup)
    {key value : String} : (ofList pairs).get? key = some value ↔ (key, value) ∈ pairs := by
  rw [get?_ofList, lookup_eq_some_iff (by rwa [List.map_reverse, List.nodup_reverse]),
    List.mem_reverse]

theorem mem_keys_iff {r : Row} {key : String} : key ∈ r.keys ↔ (r.get? key).isSome := by
  rw [keys, List.mem_map, Option.isSome_iff_exists]
  constructor
  · rintro ⟨⟨key, value⟩, hmem, rfl⟩
    exact ⟨value, get?_eq_some_iff.mpr hmem⟩
  · rintro ⟨value, hvalue⟩
    exact ⟨(key, value), get?_eq_some_iff.mp hvalue, rfl⟩

/-- A row is known by what it has under each key. -/
theorem ext_get? {a b : Row} (h : ∀ key, a.get? key = b.get? key) : a = b := by
  have hcells (c : String × String) : c ∈ a.cells ↔ c ∈ b.cells := by
    rw [← get?_eq_some_iff, ← get?_eq_some_iff, h]
  have hperm : a.cells.Perm b.cells :=
    (List.perm_ext_iff_of_nodup a.nodup_keys.of_map b.nodup_keys.of_map).mpr hcells
  have heq : a.cells = b.cells :=
    hperm.eq_of_pairwise (fun _ _ _ _ hlt hgt => absurd hgt (String.lt_asymm hlt)) a.sorted
      b.sorted
  cases a
  cases b
  cases heq
  rfl

end Row

namespace Sheet

private theorem isSome_foldl_overlay (rows : List Row) (start : Row) (key : String) :
    ((rows.foldl Row.overlay start).get? key).isSome ↔
      (start.get? key).isSome ∨ ∃ row ∈ rows, (row.get? key).isSome := by
  induction rows generalizing start with
  | nil => simp
  | cons row rows ih =>
    rw [List.foldl_cons, ih, Row.get?_overlay, Option.isSome_or, Bool.or_eq_true]
    simp only [List.exists_mem_cons_iff]
    tauto

theorem mem_usedKeys {rows : List Row} {key : String} :
    key ∈ usedKeys rows ↔ ∃ row ∈ rows, key ∈ row.keys := by
  rw [usedKeys, Row.mem_keys_iff, isSome_foldl_overlay]
  simp [Row.get?_empty, Row.mem_keys_iff]

/-- The columns are the keys that occur. -/
theorem mem_columnOrder {leading : List String} {rows : List Row} {key : String} :
    key ∈ columnOrder leading rows ↔ ∃ row ∈ rows, key ∈ row.keys := by
  rw [← mem_usedKeys, columnOrder, List.mem_append, List.mem_filter, List.mem_filter]
  by_cases hleading : key ∈ leading <;> simp [hleading]

theorem nodup_columnOrder {leading : List String} (hleading : leading.Nodup) (rows : List Row) :
    (columnOrder leading rows).Nodup := by
  rw [columnOrder, List.nodup_append]
  refine ⟨hleading.filter _, (Row.nodup_keys _).filter _, fun a ha b hb heq => ?_⟩
  have hin : a ∈ leading := (List.mem_filter.mp ha).1
  have hout : b ∉ leading := by simpa using (List.mem_filter.mp hb).2
  exact hout (heq ▸ hin)

end Sheet
end SurveyForms
