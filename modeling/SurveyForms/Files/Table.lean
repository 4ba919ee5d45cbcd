import SurveyForms.Text.Lines

/-! Rows of fields as text: one line for each row, tabs between fields. Tabs, line breaks and
backslashes inside a field are escaped. -/
namespace SurveyForms.Table

def escapeChar : Char → List Char
  | '\t' => ['\\', 't']
  | '\n' => ['\\', 'n']
  | '\\' => ['\\', '\\']
  | c => [c]

def escape (cs : List Char) : List Char := cs.flatMap escapeChar

/-- Undoes the escapes of a field. -/
def unescape : List Char → List Char
  | '\\' :: 't' :: cs => '\t' :: unescape cs
  | '\\' :: 'n' :: cs => '\n' :: unescape cs
  | '\\' :: '\\' :: cs => '\\' :: unescape cs
  | c :: cs => c :: unescape cs
  | [] => []

theorem unescape_cons {c : Char} (h : c ≠ '\\') (cs : List Char) :
    unescape (c :: cs) = c :: unescape cs := by
  rw [unescape.eq_4]
  all_goals exact fun _ e => absurd e h

theorem unescape_escape (cs : List Char) : unescape (escape cs) = cs := by
  induction cs with
  | nil => rfl
  | cons c cs ih =>
    change unescape (escapeChar c ++ escape cs) = c :: cs
    unfold escapeChar
    split
    · exact congrArg _ ih
    · exact congrArg _ ih
    · exact congrArg _ ih
    · next h => rw [List.singleton_append, unescape_cons h, ih]

/-- An escaped field holds neither a tab nor a line break. -/
theorem not_mem_escape {c : Char} (h : c = '\t' ∨ c = '\n') (cs : List Char) : c ∉ escape cs := by
  intro hc
  obtain ⟨d, _, hd⟩ := List.mem_flatMap.1 hc
  unfold escapeChar at hd
  split at hd
  · rcases h with rfl | rfl <;> simp at hd
  · rcases h with rfl | rfl <;> simp at hd
  · rcases h with rfl | rfl <;> simp at hd
  · next ht hn _ =>
    rcases h with rfl | rfl
    · exact ht (List.mem_singleton.1 hd).symm
    · exact hn (List.mem_singleton.1 hd).symm

def encodeRow (row : List String) : List Char :=
  Text.glue '\t' (row.map fun field => escape field.toList)

def decodeRow (line : List Char) : List String :=
  (Text.cut '\t' line).map fun field => String.ofList (unescape field)

def encode (rows : List (List String)) : String :=
  String.ofList (Text.unlines (rows.map encodeRow))

def decode (text : String) : List (List String) := (Text.lines text.toList).map decodeRow

theorem decodeRow_encodeRow {row : List String} (h : row ≠ []) :
    decodeRow (encodeRow row) = row := by
  unfold decodeRow encodeRow
  rw [Text.cut_glue (by simpa using h)]
  · rw [List.map_map]
    refine (List.map_congr_left fun field _ => ?_).trans (List.map_id _)
    rw [Function.comp_apply, unescape_escape, String.ofList_toList]
    rfl
  · intro p hp
    obtain ⟨field, _, rfl⟩ := List.mem_map.1 hp
    exact not_mem_escape (Or.inl rfl) _

theorem not_mem_encodeRow (row : List String) : '\n' ∉ encodeRow row := by
  intro h
  obtain ⟨part, hpart, hc⟩ := Text.mem_of_mem_glue (by decide) h
  obtain ⟨field, _, rfl⟩ := List.mem_map.1 hpart
  exact not_mem_escape (Or.inr rfl) _ hc

/-- Rows are read back as they were written, if there are any and none is empty. -/
theorem decode_encode {rows : List (List String)} (hne : rows ≠ []) (h : ∀ row ∈ rows, row ≠ []) :
    decode (encode rows) = rows := by
  unfold decode encode Text.lines Text.unlines
  rw [String.toList_ofList, Text.cut_glue (by simpa using hne)]
  · rw [List.map_map]
    exact (List.map_congr_left fun row hr => decodeRow_encodeRow (h row hr)).trans (List.map_id _)
  · intro p hp
    obtain ⟨row, _, rfl⟩ := List.mem_map.1 hp
    exact not_mem_encodeRow row

end SurveyForms.Table
