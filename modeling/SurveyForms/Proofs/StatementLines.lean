import SurveyForms.Proofs.Blocks
import SurveyForms.Proofs.Wrapping

/-! From the lines of a source text to its forest. A line that begins with neither white space
alone nor a comment mark carries a statement, and what is added to its end changes neither its
place nor that. -/
namespace SurveyForms

open Source Text

/-- A text that, behind white space, begins with something other than a comment mark. -/
def Begins (cs : List Char) : Prop :=
  ∃ gap c rest, cs = gap ++ c :: rest ∧ (∀ b ∈ gap, isBlank b) ∧ ¬ isBlank c ∧ c ≠ '#'

theorem Begins.append {cs : List Char} (h : Begins cs) (tail : List Char) :
    Begins (cs ++ tail) := by
  obtain ⟨gap, c, rest, rfl, hgap, hc, hmark⟩ := h
  exact ⟨gap, c, rest ++ tail, by simp, hgap, hc, hmark⟩

/-- A header begins a statement. -/
theorem begins_of_head? {line header : List Char}
    (h : head? (contentOf line) = some header) (tail : List Char) :
    Begins (indentOf line ++ header ++ tail) := by
  obtain ⟨c, rest, _, rfl, _, _, hc⟩ := head?_eq_some h
  refine ⟨indentOf line, c, rest ++ tail, by simp, fun b hb => ?_, ?_, ?_⟩
  · exact isBlank_of_isIndent (isIndent_of_mem_indentOf b hb)
  · rcases hc with rfl | hc
    · decide
    · exact (first_of_joined (.inr hc)).1
  · rcases hc with rfl | hc
    · decide
    · exact (first_of_joined (.inr hc)).2.1

theorem begins_of_continues {header line : List Char}
    (h : continues (indentOf header) line) : Begins line := by
  obtain ⟨c, more, d, rest, rfl, hall, hd⟩ := continues_iff.mp h
  obtain ⟨hblank, hmark, _⟩ := first_of_joined hd
  refine ⟨indentOf header ++ c :: more, d, rest, rfl, fun b hb => ?_, hblank, hmark⟩
  exact isBlank_of_isIndent (List.forall_mem_append.mpr ⟨isIndent_of_mem_indentOf, hall⟩ b hb)

theorem begins_wrapped {line header : List Char} (h : head? (contentOf line) = some header)
    (hline : Begins line) (run : List (List Char)) : Begins (wrapped line header run) := by
  unfold wrapped
  split
  · exact hline
  · exact begins_of_head? h _

theorem indentColumn_append {width : Nat} {cs : List Char}
    (h : ∃ c ∈ cs, c ≠ ' ' ∧ c ≠ '\t') (tail : List Char) :
    indentColumn width (cs ++ tail) = indentColumn width cs := by
  induction cs generalizing width with
  | nil => obtain ⟨c, hc, _⟩ := h; cases hc
  | cons c cs ih =>
    by_cases hspace : c = ' '
    · subst hspace
      exact ih (by simpa using h)
    by_cases htab : c = '\t'
    · subst htab
      exact ih (by simpa using h)
    have hstop (more : List Char) : indentColumn width (c :: more) = width + 1 := by
      unfold indentColumn
      split <;> simp_all
    rw [List.cons_append, hstop, hstop]

theorem exists_not_indent {cs : List Char} (h : allBlank cs = false) :
    ∃ c ∈ cs, c ≠ ' ' ∧ c ≠ '\t' := by
  obtain ⟨c, hc, hblank⟩ := List.all_eq_false.mp h
  refine ⟨c, hc, ?_, ?_⟩
  · rintro rfl
    exact hblank rfl
  · rintro rfl
    exact hblank rfl

/-- A text without the carriage return at its end. -/
def withoutReturn (cs : List Char) : List Char :=
  if cs.getLast? == some '\r' then cs.dropLast else cs

theorem withoutReturn_append {cs tail : List Char}
    (hlast : tail ≠ [] ∨ ∀ c ∈ cs.getLast?, c ≠ '\r') :
    withoutReturn (cs ++ tail) = cs ++ withoutReturn tail := by
  cases tail with
  | nil =>
    have hcs : cs.getLast? ≠ some '\r' := fun hr => hlast.resolve_left (by simp) '\r' hr rfl
    simp [withoutReturn, hcs]
  | cons c tail =>
    rw [withoutReturn, withoutReturn, List.getLast?_append_of_ne_nil _ (by simp),
      List.dropLast_append_of_ne_nil (by simp)]
    split <;> rfl

theorem withoutReturn_isPrefix (cs : List Char) : withoutReturn cs <+: cs := by
  unfold withoutReturn
  split
  · exact List.dropLast_prefix cs
  · exact List.prefix_refl cs

theorem mem_of_mem_withoutReturn {c : Char} {cs : List Char} (h : c ∈ withoutReturn cs) :
    c ∈ cs := (withoutReturn_isPrefix cs).subset h

theorem indentColumn_withoutReturn {raw : List Char}
    (h : ¬ allBlank (withoutReturn raw)) :
    indentColumn 0 (withoutReturn raw) = indentColumn 0 raw := by
  obtain ⟨tail, hraw⟩ := withoutReturn_isPrefix raw
  have hvisible := exists_not_indent (Bool.eq_false_iff.mpr h)
  rw [← indentColumn_append hvisible tail, hraw]

theorem allBlank_withoutReturn (raw : List Char) : allBlank (withoutReturn raw) = allBlank raw := by
  unfold withoutReturn
  split
  · next hlast =>
    have hraw := List.dropLast_append_getLast? '\r' (by simpa using hlast)
    conv_rhs => rw [← hraw]
    simp [allBlank, show isBlank '\r' = true from rfl]
  · rfl

/-- A line without the carriage return at its end, unless it is blank. -/
theorem ofText?_withoutReturn (n : Nat) (raw : List Char) : Line.ofText? n raw =
    if allBlank (withoutReturn raw) then none
    else some ⟨n, indentColumn 0 (withoutReturn raw), withoutReturn raw⟩ := rfl

/-- A line that is not blank, cut behind its indentation. -/
theorem ofText?_eq (n : Nat) (raw : List Char) : Line.ofText? n raw =
    if allBlank raw then none
    else some ⟨n, indentColumn 0 raw, indentOf raw ++ withoutReturn (contentOf raw)⟩ := by
  have htext : withoutReturn raw = indentOf raw ++ withoutReturn (contentOf raw) := by
    conv_lhs => rw [← indentOf_append_contentOf raw]
    refine withoutReturn_append (.inr fun c hc hreturn => ?_)
    have := isIndent_of_mem_indentOf c (List.mem_of_getLast? hc)
    rw [hreturn] at this
    cases this
  rw [ofText?_withoutReturn, allBlank_withoutReturn]
  split
  · rfl
  · next hblank =>
    rw [indentColumn_withoutReturn (by rwa [allBlank_withoutReturn]), htext]

theorem ofText?_append {cs : List Char} (h : Begins cs) (tail : List Char)
    (hlast : tail ≠ [] ∨ ∀ c ∈ cs.getLast?, c ≠ '\r') (n : Nat) :
    Line.ofText? n (cs ++ tail) = some ⟨n, indentColumn 0 cs, cs ++ withoutReturn tail⟩ := by
  have htext := withoutReturn_append hlast
  obtain ⟨gap, c, rest, rfl, hgap, hc, _⟩ := h
  have hblank : ¬ allBlank (gap ++ c :: rest ++ withoutReturn tail) := by
    simp [allBlank, hc]
  have hcol : indentColumn 0 (gap ++ c :: rest ++ withoutReturn tail) =
      indentColumn 0 (gap ++ c :: rest) := by
    refine indentColumn_append ⟨c, by simp, ?_, ?_⟩ _
    · rintro rfl
      exact hc rfl
    · rintro rfl
      exact hc rfl
  rw [ofText?_withoutReturn, htext, if_neg hblank, hcol]

theorem isComment_of_begins {cs : List Char} (h : Begins cs) (n col : Nat) :
    (Line.mk n col cs).isComment = false := by
  obtain ⟨gap, c, rest, rfl, hgap, hc, hmark⟩ := h
  simp [Line.isComment, trim_append_cons hgap hc, hmark]

/-- The lines of a text that are not blank, numbered from `n` on. -/
def linesFrom (n : Nat) (raws : List (List Char)) : List Line :=
  (raws.zipIdx n).filterMap fun (raw, number) => Line.ofText? number raw

theorem linesFrom_append (n : Nat) (a b : List (List Char)) :
    linesFrom n (a ++ b) = linesFrom n a ++ linesFrom (n + a.length) b := by
  rw [linesFrom, List.zipIdx_append, List.filterMap_append]
  rfl

theorem linesFrom_cons (n : Nat) (raw : List Char) (raws : List (List Char)) :
    linesFrom n (raw :: raws) = (Line.ofText? n raw).toList ++ linesFrom (n + 1) raws := by
  rw [linesFrom, List.zipIdx_cons, List.filterMap_cons]
  cases h : Line.ofText? n raw with
  | none => simp only [h]; rfl
  | some l => simp only [h]; rfl

theorem break_not_mem_lines (cs : List Char) : ∀ l ∈ lines cs, '\n' ∉ l := by
  rw [lines]
  induction cs with
  | nil => simp [cut]
  | cons c cs ih =>
    rw [cut]
    split
    · exact List.forall_mem_cons.mpr ⟨List.not_mem_nil, ih⟩
    · next hc =>
      cases hcut : cut '\n' cs with
      | nil => exact absurd hcut (cut_ne_nil '\n' cs)
      | cons l ls =>
        rw [hcut] at ih
        obtain ⟨hl, hls⟩ := List.forall_mem_cons.mp ih
        exact List.forall_mem_cons.mpr ⟨by simp [Ne.symm hc, hl], hls⟩

/-- Joined lines stay single lines. -/
theorem lines_foldContinuations (src : String) :
    lines (foldContinuations src).toList = foldLines (lines src.toList) := by
  rw [foldContinuations, String.toList_ofList, lines, unlines]
  exact cut_glue (foldLines_ne_nil (cut_ne_nil _ _))
    (break_not_mem_foldLines (break_not_mem_lines src.toList))

theorem toOption_ofText (file src : String) : (Survey.ofText file src).toOption =
    (surveyReader file).forest? file (linesFrom 1 (lines src.toList)) := rfl

/-- The forest of a source is that of its folded lines. -/
theorem toOption_ofSource (file src : String) : (Survey.ofSource file src).toOption =
    (surveyReader file).forest? file (linesFrom 1 (foldLines (lines src.toList))) := by
  rw [Survey.ofSource, toOption_ofText, lines_foldContinuations]

def isStatement (raw : List Char) : Bool := (Line.ofText? 0 raw).any (!·.isComment)

theorem any_ofText? (n : Nat) (raw : List Char) :
    (Line.ofText? n raw).any (!·.isComment) = isStatement raw := by
  unfold isStatement Line.ofText?
  simp only
  split <;> split <;> rfl

theorem isStatement_of_begins {cs : List Char} (h : Begins cs) : isStatement cs := by
  obtain ⟨gap, c, rest, rfl, hgap, hc, hmark⟩ := h
  have hfirst : Begins (gap ++ [c]) := ⟨gap, c, [], rfl, hgap, hc, hmark⟩
  have hreturn : ∀ d ∈ (gap ++ [c]).getLast?, d ≠ '\r' := by
    rw [List.getLast?_concat]
    rintro d ⟨⟩ rfl
    exact hc rfl
  have htext := ofText?_append hfirst rest (.inr hreturn) 0
  rw [List.append_assoc, List.singleton_append] at htext
  rw [isStatement, htext, Option.any_some, isComment_of_begins (hfirst.append _)]
  rfl

theorem isStatement_nil : isStatement [] = false := rfl

/-- The lines with a statement, numbered after the others are left out and before. -/
theorem filter_linesFrom (n : Nat) (raws : List (List Char)) :
    (linesFrom n raws).filter (!·.isComment) =
      ((raws.zipIdx n).filter (isStatement ·.1)).map fun l =>
        ⟨l.2, indentColumn 0 l.1, withoutReturn l.1⟩ := by
  induction raws generalizing n with
  | nil => rfl
  | cons raw raws ih =>
    rw [linesFrom_cons, List.filter_append, ih, List.zipIdx_cons, List.filter_cons]
    simp only [← any_ofText? n raw, ofText?_withoutReturn]
    split
    · rfl
    · next hblank =>
      rw [indentColumn_withoutReturn hblank]
      cases hcomment : Line.isComment ⟨n, indentColumn 0 raw, withoutReturn raw⟩ <;>
        simp [hcomment]

/-- Lines with a statement, counted before and after numbering. -/
theorem length_filter_linesFrom (n : Nat) (raws : List (List Char)) :
    ((linesFrom n raws).filter (!·.isComment)).length = raws.countP isStatement := by
  rw [filter_linesFrom, List.length_map, ← List.countP_eq_length_filter]
  conv_rhs => rw [← List.zipIdx_map_fst n raws, List.countP_map]
  rfl

theorem countP_of_forest? {file : String} {raws : List (List Char)} {f : Survey}
    (h : (surveyReader file).forest? file (linesFrom 1 raws) = some f) :
    f.spelled.length = raws.countP isStatement := by
  have hspelled := congrArg List.length (spelled_of_block h)
  rw [List.length_map, List.length_map, length_filter_linesFrom] at hspelled
  exact hspelled

/-- The text of a line apart from the carriage return at its end can be cut behind its code. -/
structure Ending (cs tail : List Char) : Prop where
  begins : Begins cs
  kept : tail ≠ [] ∨ ∀ c ∈ cs.getLast?, c ≠ '\r'

theorem linesFrom_ending {cs tail : List Char} (h : Ending cs tail) (a b : List (List Char)) :
    linesFrom 1 (a ++ (cs ++ tail) :: b) = linesFrom 1 a ++
      ⟨1 + a.length, indentColumn 0 cs, cs ++ withoutReturn tail⟩ ::
        linesFrom (1 + a.length + 1) b := by
  rw [linesFrom_append, linesFrom_cons, ofText?_append h.begins tail h.kept]
  rfl

/-- Two endings of a line with the same tokens give the same forest, or are both refused. -/
theorem forest?_ending {file : String} {cs tail tail' : List Char} (h : Ending cs tail)
    (h' : Ending cs tail')
    (htokens : tokens? (cs ++ withoutReturn tail) = tokens? (cs ++ withoutReturn tail'))
    (a b : List (List Char)) :
    (surveyReader file).forest? file (linesFrom 1 (a ++ (cs ++ tail) :: b)) =
      (surveyReader file).forest? file (linesFrom 1 (a ++ (cs ++ tail') :: b)) := by
  refine (surveyReader file).forest?_congr file ?_
  rw [linesFrom_ending h, linesFrom_ending h']
  have hrefl (ls : List Line) : List.Forall₂ (surveyReader file).Alike ls ls :=
    List.forall₂_same.mpr fun l _ => .refl _ l
  refine List.rel_append (hrefl _) (.cons ?_ (hrefl _))
  have hcomment (tail : List Char) := isComment_of_begins (h.begins.append (withoutReturn tail))
    (1 + a.length) (indentColumn 0 cs)
  refine ⟨rfl, (hcomment tail).trans (hcomment tail').symm, fun hc => ?_, ?_⟩
  · rw [hcomment] at hc
    cases hc
  · exact toOption_entry_congr file rfl rfl htokens

/-- Two endings of a line that give the same forest have the same words. -/
theorem words?_ending {file : String} {cs tail tail' : List Char} (h : Ending cs tail)
    (h' : Ending cs tail') {a b : List (List Char)} {f : Survey}
    (hf : (surveyReader file).forest? file (linesFrom 1 (a ++ (cs ++ tail) :: b)) = some f)
    (hf' : (surveyReader file).forest? file (linesFrom 1 (a ++ (cs ++ tail') :: b)) = some f) :
    ∃ ws, words? (cs ++ withoutReturn tail) = some ws ∧
      words? (cs ++ withoutReturn tail') = some ws := by
  have hcomment (tail : List Char) := isComment_of_begins (h.begins.append (withoutReturn tail))
    (1 + a.length) (indentColumn 0 cs)
  have hspelled := spelled_of_block hf
  have hspelled' := spelled_of_block hf'
  rw [linesFrom_ending h, List.filter_append, List.filter_cons_of_pos (by simp [hcomment]),
    List.map_append, List.map_cons] at hspelled
  rw [linesFrom_ending h', List.filter_append, List.filter_cons_of_pos (by simp [hcomment]),
    List.map_append, List.map_cons] at hspelled'
  have hmem : words? (cs ++ withoutReturn tail) ∈ f.spelled.map some := by
    rw [hspelled]
    simp
  obtain ⟨ws, _, hws⟩ := List.mem_map.mp hmem
  have hsame := List.append_cancel_left (hspelled.symm.trans hspelled')
  exact ⟨ws, hws.symm, (List.cons_eq_cons.mp hsame).1.symm.trans hws.symm⟩

end SurveyForms
