import SurveyForms.Proofs.BlockHeaders

/-! Two ways to tell that a line is deeper. Blocks go by columns, with tabs expanded; joining goes
by the very characters of the indentation. Main statement: joining takes exactly those deeper lines
that repeat the indentation of their header. -/
namespace SurveyForms.Source

open Text

/-- A header that joining applies to: a command, or a word character and text up to a colon that
opens no block. Only spaces may stand behind the colon. -/
structure IsHeader (indent text spaces : List Char) : Prop where
  indented : ∀ b ∈ indent, isIndent b
  ends : ∀ b ∈ spaces, b = ' '
  unbroken : '\n' ∉ text
  starts : text.head? = some '@' ∧ spaces = [] ∨
    (∃ c ∈ text.head?, isWord c) ∧ startsBlock (text ++ spaces) = false ∧
      text.getLast? = some ':'

/-- A line that goes on with a double quote or a word character. -/
structure IsContinuation (indent text : List Char) : Prop where
  indented : ∀ b ∈ indent, isIndent b
  unbroken : '\n' ∉ text
  starts : ∃ c ∈ text.head?, c = '"' ∨ isWord c

def twoLines (header line : List Char) : String := String.ofList (header ++ '\n' :: line)

/-- Of two lines, the second is put behind the first, and nothing stays in its place. -/
def JoinsOnto (indent text spaces indent' text' : List Char) : Prop :=
  foldContinuations (twoLines (indent ++ text ++ spaces) (indent' ++ text')) =
    twoLines (indent ++ text ++ ' ' :: joined [indent' ++ text']) []

variable {indent text spaces indent' text' : List Char}

theorem dropSpaces_append (hspaces : ∀ b ∈ spaces, b = ' ') (hlast : text.getLast? ≠ some ' ') :
    dropSpaces (text ++ spaces) = text := by
  have hdrop : text.reverse.dropWhile (· == ' ') = text.reverse := by
    cases hrev : text.reverse with
    | nil => rfl
    | cons c cs =>
      have hc : c ≠ ' ' := by
        rintro rfl
        exact hlast (by rw [← List.head?_reverse, hrev]; rfl)
      exact List.dropWhile_cons_of_neg (by simpa using hc)
  rw [dropSpaces, List.reverse_append, List.dropWhile_append_of_pos, hdrop, List.reverse_reverse]
  simpa using hspaces

theorem IsHeader.exists_cons (h : IsHeader indent text spaces) :
    ∃ c rest, text = c :: rest ∧ ¬ isIndent c := by
  have hfirst : ∃ c ∈ text.head?, c = '@' ∨ isWord c := by
    rcases h.starts with ⟨hat, _⟩ | ⟨⟨c, hc, hword⟩, _⟩
    · exact ⟨'@', hat, .inl rfl⟩
    · exact ⟨c, hc, .inr hword⟩
  obtain ⟨c, hc, hword⟩ := hfirst
  obtain ⟨rest, rfl⟩ := List.head?_eq_some_iff.mp hc
  refine ⟨c, rest, rfl, fun hindent => ?_⟩
  rcases hword with rfl | hword
  · cases hindent
  · exact (first_of_joined (.inr hword)).1 (isBlank_of_isIndent hindent)

theorem IsHeader.head?_eq (h : IsHeader indent text spaces) :
    head? (text ++ spaces) = some text := by
  rcases h.starts with ⟨hat, rfl⟩ | ⟨⟨c, hc, hword⟩, hblock, hlast⟩
  · obtain ⟨rest, rfl⟩ := List.head?_eq_some_iff.mp hat
    simp [head?]
  · have hdrop : dropSpaces (text ++ spaces) = text :=
      dropSpaces_append h.ends (by simp [hlast])
    obtain ⟨rest, rfl⟩ := List.head?_eq_some_iff.mp hc
    have hat : c ≠ '@' := by
      rintro rfl
      revert hword
      decide
    rw [List.cons_append] at hdrop hblock ⊢
    simp [head?, hat, hword, hblock, hdrop, hlast]

theorem IsContinuation.exists_cons (h : IsContinuation indent text) :
    ∃ c rest, text = c :: rest ∧ ¬ isIndent c ∧ (c = '"' ∨ isWord c) := by
  obtain ⟨c, hc, hfirst⟩ := h.starts
  obtain ⟨rest, rfl⟩ := List.head?_eq_some_iff.mp hc
  exact ⟨c, rest, rfl, fun hindent => (first_of_joined hfirst).1 (isBlank_of_isIndent hindent),
    hfirst⟩

/-- Whether a line continues a header shows in its indentation and its first character. -/
theorem continues_append_iff {deeper : List Char} (hindent : ∀ b ∈ indent, isIndent b)
    (hdeeper : ∀ b ∈ deeper, isIndent b) {c : Char} (hc : ¬ isIndent c) (rest : List Char) :
    continues indent (deeper ++ c :: rest) ↔
      (∃ b more, deeper = indent ++ b :: more) ∧ (c = '"' ∨ isWord c) := by
  rw [continues_iff]
  constructor
  · rintro ⟨b, more, d, tail, hline, hall, hd⟩
    have hdeep : ¬ isIndent d := fun hindent =>
      (first_of_joined hd).1 (isBlank_of_isIndent hindent)
    have hall : ∀ e ∈ indent ++ b :: more, isIndent e :=
      List.forall_mem_append.mpr ⟨hindent, hall⟩
    have hself := indentOf_append hdeeper hc rest
    rw [hline, indentOf_append hall hdeep] at hself
    rw [← hself] at hline
    obtain ⟨rfl, _⟩ := List.cons_eq_cons.mp (List.append_cancel_left hline)
    exact ⟨⟨b, more, hself.symm⟩, hd⟩
  · rintro ⟨⟨b, more, rfl⟩, hfirst⟩
    exact ⟨b, more, c, rest, rfl, (List.forall_mem_append.mp hdeeper).2, hfirst⟩

/-- What continues a header is indented by the header's characters and more. -/
theorem IsContinuation.continues_iff_append (h : IsContinuation indent' text')
    (hindent : ∀ b ∈ indent, isIndent b) :
    continues indent (indent' ++ text') ↔ ∃ b more, indent' = indent ++ b :: more := by
  obtain ⟨c, rest, rfl, hc, hfirst⟩ := h.exists_cons
  rw [continues_append_iff hindent h.indented hc, and_iff_left hfirst]

/-- Deeper by the very characters is deeper by columns, for lines that repeat the indentation. -/
theorem deeper_iff_append (hheader : IsHeader indent text spaces)
    (hline : IsContinuation indent' text') : (∃ b more, indent' = indent ++ b :: more) ↔
      indentColumn 0 (indent ++ text ++ spaces) < indentColumn 0 (indent' ++ text') ∧
        indent <+: indent' := by
  obtain ⟨c, rest, rfl, hc⟩ := hheader.exists_cons
  obtain ⟨d, rest', rfl, hd, _⟩ := hline.exists_cons
  rw [List.append_assoc, List.cons_append, indentColumn_indent hc, indentColumn_indent hd]
  constructor
  · rintro ⟨b, more, rfl⟩
    have hb : isIndent b := hline.indented b (by simp)
    exact ⟨indentColumn_lt hheader.indented hb more 0, List.prefix_append _ _⟩
  · rintro ⟨hdeeper, tail, rfl⟩
    cases tail with
    | nil => exact absurd hdeeper (by simp)
    | cons b more => exact ⟨b, more, rfl⟩

private theorem lines_twoLines {a b : List Char} (ha : '\n' ∉ a) (hb : '\n' ∉ b) :
    lines (twoLines a b).toList = [a, b] := by
  rw [twoLines, String.toList_ofList, lines, cut_append ha, cut_of_not_mem hb]

theorem break_not_mem_indent (h : ∀ b ∈ indent, isIndent b) : '\n' ∉ indent :=
  fun hbreak => absurd (h _ hbreak) (by decide)

theorem IsContinuation.break_not_mem (h : IsContinuation indent text) : '\n' ∉ indent ++ text := by
  rw [List.mem_append, not_or]
  exact ⟨break_not_mem_indent h.indented, h.unbroken⟩

theorem IsHeader.break_not_mem (h : IsHeader indent text spaces) :
    '\n' ∉ indent ++ text ++ spaces := by
  rw [List.mem_append, List.mem_append, not_or, not_or]
  exact ⟨⟨break_not_mem_indent h.indented, h.unbroken⟩,
    fun hbreak => absurd (h.ends _ hbreak) (by decide)⟩

theorem IsHeader.indentOf_eq (h : IsHeader indent text spaces) :
    indentOf (indent ++ text ++ spaces) = indent := by
  obtain ⟨c, rest, rfl, hc⟩ := h.exists_cons
  rw [List.append_assoc, List.cons_append]
  exact indentOf_append h.indented hc _

theorem IsHeader.head?_contentOf (h : IsHeader indent text spaces) :
    head? (contentOf (indent ++ text ++ spaces)) = some text := by
  obtain ⟨c, rest, htext, hc⟩ := h.exists_cons
  have hcontent : contentOf (indent ++ text ++ spaces) = text ++ spaces := by
    rw [htext, contentOf, List.append_assoc, List.dropWhile_append_of_pos h.indented,
      List.cons_append, List.dropWhile_cons_of_neg hc]
  rw [hcontent, h.head?_eq]

/-- A line that continues a header is joined to it. -/
theorem joinsOnto_of_continues (hheader : IsHeader indent text spaces)
    (hline : IsContinuation indent' text') (h : continues indent (indent' ++ text')) :
    JoinsOnto indent text spaces indent' text' := by
  have hrun : ∀ l ∈ [indent' ++ text'], continues (indentOf (indent ++ text ++ spaces)) l := by
    rw [hheader.indentOf_eq]
    exact List.forall_mem_singleton.mpr h
  have hfold : foldLines (_ :: ([indent' ++ text'] ++ [])) = _ :=
    foldLines_run hheader.head?_contentOf hrun (by simp)
  rw [List.append_nil] at hfold
  rw [JoinsOnto, foldContinuations, lines_twoLines hheader.break_not_mem hline.break_not_mem,
    hfold, wrapped_of_ne_nil (by simp), hheader.indentOf_eq, foldLines]
  rfl

/-- A line that does not continue a header stays as it is. -/
theorem foldContinuations_of_not_continues (hheader : IsHeader indent text spaces)
    (hline : IsContinuation indent' text') (h : ¬ continues indent (indent' ++ text')) :
    foldContinuations (twoLines (indent ++ text ++ spaces) (indent' ++ text')) =
      twoLines (indent ++ text ++ spaces) (indent' ++ text') := by
  rw [foldContinuations_eq_self_iff, lines_twoLines hheader.break_not_mem hline.break_not_mem]
  refine List.isChain_pair.mpr fun hjoins => h ?_
  rw [← hheader.indentOf_eq]
  exact hjoins.2

/-- A text in which lines were joined has changed. -/
private theorem JoinsOnto.ne_self (h : JoinsOnto indent text spaces indent' text')
    (hheader : IsHeader indent text spaces) (hline : IsContinuation indent' text') :
    foldContinuations (twoLines (indent ++ text ++ spaces) (indent' ++ text')) ≠
      twoLines (indent ++ text ++ spaces) (indent' ++ text') := by
  intro hself
  have hbreak : '\n' ∉ indent ++ text ++ ' ' :: joined [indent' ++ text'] := by
    simp only [List.mem_append, List.mem_cons, not_or]
    exact ⟨⟨break_not_mem_indent hheader.indented, hheader.unbroken⟩, by decide,
      break_not_mem_joined _⟩
  have hlines := congrArg (fun src => lines src.toList) (hself.symm.trans h)
  simp only [lines_twoLines hheader.break_not_mem hline.break_not_mem,
    lines_twoLines hbreak List.not_mem_nil] at hlines
  obtain ⟨c, rest, rfl, _⟩ := hline.exists_cons
  simp at hlines

/-- Joining puts a line behind its header exactly if it is deeper by columns and its indentation
begins with that of the header. Otherwise the text stays as it is. -/
theorem joinsOnto_iff_deeper (hheader : IsHeader indent text spaces)
    (hline : IsContinuation indent' text') :
    (JoinsOnto indent text spaces indent' text' ↔
      indentColumn 0 (indent ++ text ++ spaces) < indentColumn 0 (indent' ++ text') ∧
        indent <+: indent') ∧
    (foldContinuations (twoLines (indent ++ text ++ spaces) (indent' ++ text')) =
        twoLines (indent ++ text ++ spaces) (indent' ++ text') ↔
      ¬ (indentColumn 0 (indent ++ text ++ spaces) < indentColumn 0 (indent' ++ text') ∧
        indent <+: indent')) := by
  rw [← deeper_iff_append hheader hline, ← hline.continues_iff_append hheader.indented]
  by_cases hcontinues : continues indent (indent' ++ text')
  · have hjoins := joinsOnto_of_continues hheader hline hcontinues
    exact ⟨iff_of_true hjoins hcontinues,
      iff_of_false (hjoins.ne_self hheader hline) (not_not.mpr hcontinues)⟩
  · have hself := foldContinuations_of_not_continues hheader hline hcontinues
    exact ⟨iff_of_false (fun hjoins => hjoins.ne_self hheader hline hself) hcontinues,
      iff_of_true hself hcontinues⟩

/-- A tab, and a tab and a space: the line goes on from the header's indentation. -/
theorem tabbed_line_joins :
    let label := "\"L\"".toList
    IsHeader ['\t'] "q text:".toList [' '] ∧ IsContinuation ['\t', ' '] label ∧
      JoinsOnto ['\t'] "q text:".toList [' '] ['\t', ' '] label := by
  intro label
  have hheader : IsHeader ['\t'] "q text:".toList [' '] :=
    ⟨List.all_eq_true.mp (by decide), by simp, by decide,
      .inr ⟨⟨'q', by decide, by decide⟩, by decide, by decide⟩⟩
  have hline : IsContinuation ['\t', ' '] label :=
    ⟨List.all_eq_true.mp (by decide), by decide, '"', by decide, .inl rfl⟩
  exact ⟨hheader, hline, (joinsOnto_iff_deeper hheader hline).1.mpr (by decide)⟩

/-- Twelve spaces reach further than a tab, but they do not begin with it: the line is deeper for
the block and is not joined. -/
theorem spaces_below_tab_not_joined :
    let label := "\"L\"".toList
    let deeper := List.replicate 12 ' '
    IsHeader ['\t'] "q text:".toList [] ∧ IsContinuation deeper label ∧
      indentColumn 0 ('\t' :: "q text:".toList) < indentColumn 0 (deeper ++ label) ∧
      ¬ JoinsOnto ['\t'] "q text:".toList [] deeper label := by
  refine ⟨⟨List.all_eq_true.mp (by decide), by simp, by decide,
      .inr ⟨⟨'q', by decide, by decide⟩, by decide, by decide⟩⟩,
    ⟨List.all_eq_true.mp (by decide), by decide, '"', by decide, .inl rfl⟩, by decide, ?_⟩
  rw [JoinsOnto]
  decide +kernel

end SurveyForms.Source
