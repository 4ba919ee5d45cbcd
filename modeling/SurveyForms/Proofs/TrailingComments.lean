import SurveyForms.Proofs.StatementLines

/-! Comments at the end of a line. They are dropped when a statement is read, but that is after
wrapped lines have been joined, so a comment hides the lines that are joined behind it. Main
statement: exactly when a comment at the end of a line can be taken away without changing what is
read. -/
namespace SurveyForms

open Source Text

/-- The statement that the last of some lines belongs to, as far as they go. -/
def lastStatement (ls : List (List Char)) : List Char :=
  match openHead ls with
  | some (line, run) => (foldLines (line :: run)).headD []
  | none => ls.getLastD []

/-- Whether the first of the lines below is joined to the statement that is still open. -/
def joinsNext (ls below : List (List Char)) : Bool :=
  match openHead ls with
  | some (line, _) => below.head?.any (continues (indentOf line))
  | none => false

/-- A line that is not joined to a header in front of it. -/
def Unjoined (pre : List (List Char)) (line : List Char) : Prop :=
  ∀ header run, openHead pre = some (header, run) → ¬ continues (indentOf header) line

/-- A line with a statement, taken apart into its code and the comment behind it. -/
structure Trailing (line code tail : List Char) : Prop where
  line_eq : line = code ++ tail
  comment : CommentTail tail
  begins : Begins code
  solid : Solid code

namespace Trailing

variable {line code tail : List Char}

theorem indentOf_eq (h : Trailing line code tail) : indentOf line = indentOf code := by
  obtain ⟨gap, c, rest, hcode, _, hc, _⟩ := h.begins
  cases hcontent : contentOf code with
  | nil =>
    have hall := List.dropWhile_eq_nil_iff.mp hcontent c (by simp [hcode])
    exact absurd (isBlank_of_isIndent hall) hc
  | cons d rest =>
    have hd : ¬ isIndent d := by
      have := List.head?_dropWhile_not isIndent code
      rw [← contentOf, hcontent] at this
      simpa using this
    have hsplit := indentOf_append_contentOf code
    rw [hcontent] at hsplit
    rw [h.line_eq, ← hsplit, List.append_assoc, List.cons_append,
      indentOf_append isIndent_of_mem_indentOf hd, indentOf_append isIndent_of_mem_indentOf hd]

/-- Whether a line continues a header shows in its code. -/
theorem continues_eq (h : Trailing line code tail) (header : List Char) :
    continues (indentOf header) line = continues (indentOf header) code := by
  rw [Bool.eq_iff_iff, continues_iff, continues_iff]
  constructor
  · rintro ⟨c, more, d, rest, hline, hall, hd⟩
    rw [h.line_eq] at hline
    have hindent : ∀ b ∈ indentOf header ++ c :: more, isIndent b :=
      List.forall_mem_append.mpr ⟨isIndent_of_mem_indentOf, hall⟩
    obtain ⟨gap, e, body, hcode, _, he, _⟩ := h.begins
    have hdeep : ¬ isIndent e := fun hindent => he (isBlank_of_isIndent hindent)
    rcases List.append_eq_append_iff.mp hline with ⟨extra, hextra, _⟩ | ⟨extra, hextra, hrest⟩
    · exact absurd (hindent e (by rw [hextra, hcode]; simp)) hdeep
    · cases extra with
      | nil =>
        rw [List.append_nil] at hextra
        exact absurd (hindent e (by rw [← hextra, hcode]; simp)) hdeep
      | cons d' extra =>
        obtain ⟨rfl, _⟩ := List.cons_eq_cons.mp hrest
        exact ⟨c, more, d, extra, hextra, hall, hd⟩
  · rintro ⟨c, more, d, rest, rfl, hall, hd⟩
    exact ⟨c, more, d, rest ++ tail, by rw [h.line_eq]; simp, hall, hd⟩

theorem unjoined (h : Trailing line code tail) {pre : List (List Char)}
    (hcode : Unjoined pre code) : Unjoined pre line := by
  intro header run hopen hline
  exact hcode header run hopen ((h.continues_eq header).symm.trans hline)

theorem code_ne_nil (h : Trailing line code tail) : code ≠ [] := by
  obtain ⟨gap, c, rest, rfl, _⟩ := h.begins
  simp

end Trailing

theorem joinsNext_of_some {ls : List (List Char)} {line : List Char} {run : List (List Char)}
    (h : openHead ls = some (line, run)) (below : List (List Char)) :
    joinsNext ls below = !(below.takeWhile (continues (indentOf line))).isEmpty := by
  simp only [joinsNext, h]
  cases below with
  | nil => rfl
  | cons next below => cases hnext : continues (indentOf line) next <;> simp [hnext]

theorem joinsNext_of_none {ls : List (List Char)} (h : openHead ls = none)
    (below : List (List Char)) : joinsNext ls below = false := by
  simp only [joinsNext, h]

/-- `Fits pre line code below`: with and without its comment a line becomes the end of the same
statement at the same place among the folded lines, one time with a comment behind it and the
other time with what is joined from below, if anything. -/
def Fits (pre : List (List Char)) (line code : List Char) (below : List (List Char)) : Prop :=
  ∃ a b comment joined,
    foldLines (pre ++ line :: below) = a ++ (lastStatement (pre ++ [code]) ++ comment) :: b ∧
    foldLines (pre ++ code :: below) = a ++ (lastStatement (pre ++ [code]) ++ joined) :: b ∧
    CommentTail comment ∧ Begins (lastStatement (pre ++ [code])) ∧
    Solid (lastStatement (pre ++ [code])) ∧
    (joined = [] ∧ joinsNext (pre ++ [line]) below = false ∧
        joinsNext (pre ++ [code]) below = false ∨
      JoinedTail joined ∧ joinsNext (pre ++ [code]) below = true)

/-- A line that is joined to a header fits. -/
theorem fits_of_joined {pre below : List (List Char)} {line code tail header : List Char}
    {run : List (List Char)} (h : Trailing line code tail)
    (hopen : openHead pre = some (header, run)) (hcode : continues (indentOf header) code) :
    Fits pre line code below := by
  have hline : continues (indentOf header) line := (h.continues_eq header).trans hcode
  have hopen_code := openHead_concat_of_continues hopen hcode
  have hopen_line := openHead_concat_of_continues hopen hline
  obtain ⟨more, rest, rfl, hmore, hcontinues, hrest⟩ := exists_run header below
  obtain ⟨before, head, hpre, hhead, hfold_line⟩ := foldLines_append_of_open hopen
    (List.forall_mem_cons.mpr ⟨hline, hcontinues⟩) hrest
  obtain ⟨before', head', hpre', hhead', hfold_code⟩ := foldLines_append_of_open hopen
    (List.forall_mem_cons.mpr ⟨hcode, hcontinues⟩) hrest
  obtain rfl : before = before' := List.append_cancel_right (hpre.symm.trans hpre')
  obtain rfl : head = head' := Option.some.inj (hhead.symm.trans hhead')
  have hstatement : lastStatement (pre ++ [code]) =
      indentOf header ++ head ++ ' ' :: joined (run ++ [code]) := by
    have hfold := foldLines_run hhead (continues_of_openHead hopen_code)
      (by simp : ∀ l ∈ ([] : List (List Char)).head?, _)
    rw [List.append_nil] at hfold
    simp only [lastStatement, hopen_code, hfold]
    exact wrapped_of_ne_nil (by simp) header head
  obtain ⟨hjoined_line, hlast⟩ := joined_append h.code_ne_nil h.solid run tail more
  obtain ⟨hjoined_code, _⟩ := joined_append h.code_ne_nil h.solid run [] more
  refine ⟨foldLines before, (run ++ code :: more).map (fun _ => []) ++ foldLines rest,
    trimEnd (collapse (tail ++ unlinesBelow more)), trimEnd (collapse (unlinesBelow more)),
    ?_, ?_, commentTail_joined h.comment more, ?_, ?_, ?_⟩
  · rw [← List.cons_append, hfold_line, wrapped_of_ne_nil (by simp), h.line_eq, hjoined_line,
      hstatement]
    simp
  · rw [← List.cons_append, hfold_code, wrapped_of_ne_nil (by simp), hstatement]
    rw [List.append_nil] at hjoined_code
    rw [hjoined_code]
    simp
  · rw [hstatement]
    exact begins_of_head? hhead _
  · intro c hc
    have hcode_last := List.getLast?_eq_getLast_of_ne_nil h.code_ne_nil
    rw [hstatement, List.getLast?_append_cons, List.getLast?_cons, hlast, hcode_last] at hc
    cases hc
    exact h.solid _ hcode_last
  · have hnext_line := joinsNext_of_some hopen_line (more ++ rest)
    have hnext_code := joinsNext_of_some hopen_code (more ++ rest)
    rw [hmore] at hnext_line hnext_code
    cases more with
    | nil => exact .inl ⟨rfl, hnext_line, hnext_code⟩
    | cons l more =>
      have hl := hcontinues l (by simp)
      exact .inr ⟨(joined_of_continues isIndent_of_mem_indentOf hl more).1, hnext_code⟩

private theorem openHead_singleton (line : List Char) :
    openHead [line] = if (head? (contentOf line)).isSome then some (line, []) else none := by
  simp [openHead]

/-- Lines that continue a header hold a statement of their own if they are not joined. -/
private theorem countP_foldLines_lt {header : List Char} {run rest : List (List Char)}
    (hne : run ≠ []) (hrun : ∀ l ∈ run, continues (indentOf header) l)
    (hrest : ∀ l ∈ rest.head?, ¬ continues (indentOf header) l) :
    (foldLines rest).countP isStatement < (foldLines (run ++ rest)).countP isStatement := by
  have hfree : ∀ line run', openHead run = some (line, run') → ∀ l ∈ rest.head?,
      ¬ continues (indentOf line) l := by
    intro line run' hopen l hl hcontinues
    have hline : line ∈ run := mem_of_openHead hopen
    exact hrest l hl (continues_trans (hrun line hline) hcontinues)
  rw [foldLines_append hfree, List.countP_append]
  cases run with
  | nil => exact absurd rfl hne
  | cons m run =>
    have hm : Begins m := begins_of_continues (hrun m (by simp))
    cases hhead : head? (contentOf m) with
    | none =>
      rw [foldLines_cons_of_none hhead, List.countP_cons_of_pos (isStatement_of_begins hm)]
      omega
    | some head =>
      rw [foldLines_cons_of_some hhead, List.cons_append,
        List.countP_cons_of_pos (isStatement_of_begins (begins_wrapped hhead hm _))]
      omega

section Free

variable {pre below : List (List Char)} {line code tail : List Char}

/-- A line at which no earlier statement goes on is folded with what is below it. -/
private theorem foldLines_of_free (below : List (List Char))
    (hfree : Unjoined pre line) :
    foldLines (pre ++ line :: below) = foldLines pre ++ foldLines (line :: below) := by
  refine foldLines_append fun header run hopen l hl => ?_
  cases hl
  exact hfree header run hopen

private theorem foldLines_cons_of_not_joinsNext
    (hfree : Unjoined pre line)
    (hnext : joinsNext (pre ++ [line]) below = false) :
    foldLines (line :: below) = line :: foldLines below := by
  have hopen := openHead_concat_of_free hfree
  rw [openHead_singleton] at hopen
  cases hhead : head? (contentOf line) with
  | none => exact foldLines_cons_of_none hhead below
  | some header =>
    rw [hhead, Option.isSome_some, if_pos rfl] at hopen
    rw [joinsNext_of_some hopen, Bool.not_eq_false', List.isEmpty_iff] at hnext
    have hbelow := List.takeWhile_append_dropWhile (p := continues (indentOf line)) (l := below)
    rw [hnext, List.nil_append] at hbelow
    rw [foldLines_cons_of_some hhead, hnext, hbelow]
    rfl

private theorem head?_of_joinsNext
    (hfree : Unjoined pre line)
    (hnext : joinsNext (pre ++ [line]) below = true) :
    ∃ header, head? (contentOf line) = some header ∧
      below.takeWhile (continues (indentOf line)) ≠ [] := by
  have hopen := openHead_concat_of_free hfree
  rw [openHead_singleton] at hopen
  cases hhead : head? (contentOf line) with
  | none =>
    rw [hhead] at hopen
    rw [joinsNext_of_none hopen] at hnext
    cases hnext
  | some header =>
    rw [hhead, Option.isSome_some, if_pos rfl] at hopen
    rw [joinsNext_of_some hopen] at hnext
    exact ⟨header, rfl, by simpa using hnext⟩

private theorem lastStatement_of_free
    (hfree : Unjoined pre line) :
    lastStatement (pre ++ [line]) = line := by
  have hopen := openHead_concat_of_free hfree
  rw [openHead_singleton] at hopen
  simp only [lastStatement, hopen]
  cases hhead : head? (contentOf line) with
  | none => simp
  | some header => simp [foldLines_cons_of_some hhead, wrapped]

private theorem fits_of_plain (h : Trailing line code tail)
    (hfree : Unjoined pre code)
    (hline : joinsNext (pre ++ [line]) below = false)
    (hcode : joinsNext (pre ++ [code]) below = false) : Fits pre line code below := by
  have hfree_line := h.unjoined hfree
  have hstatement := lastStatement_of_free hfree
  refine ⟨foldLines pre, foldLines below, tail, [], ?_, ?_, h.comment, ?_, ?_,
    .inl ⟨rfl, hline, hcode⟩⟩
  · rw [hstatement, foldLines_of_free below hfree_line,
      foldLines_cons_of_not_joinsNext hfree_line hline, h.line_eq]
  · rw [hstatement, foldLines_of_free below hfree, foldLines_cons_of_not_joinsNext hfree hcode,
      List.append_nil]
  · rw [hstatement]
    exact h.begins
  · rw [hstatement]
    exact h.solid

private theorem header_of_solid {header : List Char} (hsolid : Solid code)
    (h : head? (contentOf code) = some header) : indentOf code ++ header = code := by
  obtain ⟨c, rest, spaces, _, hcontent, hspaces, _⟩ := head?_eq_some h
  have hsplit := indentOf_append_contentOf code
  rw [hcontent, ← List.append_assoc] at hsplit
  cases hlast : spaces.getLast? with
  | none => rwa [List.getLast?_eq_none_iff.mp hlast, List.append_nil] at hsplit
  | some b =>
    have hb := hspaces b (List.mem_of_getLast? hlast)
    have hcode : code.getLast? = some ' ' := by rw [← hsplit, List.getLast?_append, hlast, hb]; rfl
    exact absurd rfl (hsolid ' ' hcode).1

/-- Spaces at the end of a comment can be taken off. -/
private theorem commentTail_of_spaces {header spaces : List Char} (htail : CommentTail tail)
    (h : code ++ tail = header ++ spaces) (hspaces : ∀ b ∈ spaces, b = ' ') :
    ∃ tail', header = code ++ tail' ∧ CommentTail tail' := by
  obtain ⟨gap, body, rfl, hgap, hbody⟩ := htail
  have hmark : (code ++ gap ++ ['#']) ++ body = header ++ spaces := by simpa using h
  rcases List.append_eq_append_iff.mp hmark with ⟨more, hheader, rfl⟩ | ⟨extra, hheader, rfl⟩
  · refine ⟨gap ++ '#' :: more, by simpa using hheader, gap, more, rfl, hgap, ?_⟩
    exact fun hbreak => hbody (by simp [hbreak])
  · cases hlast : extra.getLast? with
    | none =>
      rw [List.getLast?_eq_none_iff.mp hlast, List.append_nil] at hheader
      exact ⟨gap ++ ['#'], by simpa using hheader.symm, gap, [], rfl, hgap, List.not_mem_nil⟩
    | some b =>
      have hb := hspaces b (by simp [List.mem_of_getLast? hlast])
      have hmark' : (header ++ extra).getLast? = some '#' := by
        rw [← hheader, List.getLast?_concat]
      rw [List.getLast?_append, hlast, hb] at hmark'
      cases hmark'

private theorem fits_of_head (h : Trailing line code tail)
    (hfree : Unjoined pre code)
    (hline : joinsNext (pre ++ [line]) below = true)
    (hcode : joinsNext (pre ++ [code]) below = true) : Fits pre line code below := by
  have hfree_line := h.unjoined hfree
  have hstatement := lastStatement_of_free hfree
  obtain ⟨head_line, hhead_line, _⟩ := head?_of_joinsNext hfree_line hline
  obtain ⟨head_code, hhead_code, hne⟩ := head?_of_joinsNext hfree hcode
  obtain ⟨run, rest, rfl, hrun, hcontinues, hrest⟩ := exists_run code below
  rw [hrun] at hne
  obtain ⟨c, body, spaces, _, hcontent, hspaces, _⟩ := head?_eq_some hhead_line
  have hsplit : code ++ tail = (indentOf line ++ head_line) ++ spaces := by
    rw [← h.line_eq, List.append_assoc, ← hcontent, indentOf_append_contentOf]
  obtain ⟨tail', htail', hcomment⟩ := commentTail_of_spaces h.comment hsplit hspaces
  refine ⟨foldLines pre, run.map (fun _ => []) ++ foldLines rest, tail' ++ ' ' :: joined run,
    ' ' :: joined run, ?_, ?_, ?_, ?_, ?_, ?_⟩
  · rw [← h.indentOf_eq] at hcontinues hrest
    rw [hstatement, foldLines_of_free _ hfree_line, foldLines_run hhead_line hcontinues hrest,
      wrapped_of_ne_nil hne, htail', List.append_assoc, List.cons_append]
  · rw [hstatement, foldLines_of_free _ hfree, foldLines_run hhead_code hcontinues hrest,
      wrapped_of_ne_nil hne, header_of_solid h.solid hhead_code, List.cons_append]
  · obtain ⟨gap, body, rfl, hgap, hbody⟩ := hcomment
    refine ⟨gap, body ++ ' ' :: joined run, by simp, hgap, fun hbreak => ?_⟩
    rcases List.mem_append.mp hbreak with hbreak | hbreak
    · exact hbody hbreak
    · exact break_not_mem_joined run (List.mem_of_ne_of_mem (by decide) hbreak)
  · rw [hstatement]
    exact h.begins
  · rw [hstatement]
    exact h.solid
  · refine .inr ⟨?_, hcode⟩
    cases run with
    | nil => exact absurd rfl hne
    | cons l run =>
      obtain ⟨htail, hjoined⟩ :=
        joined_of_continues isIndent_of_mem_indentOf (hcontinues l (by simp)) run
      rwa [hjoined] at htail

end Free

/-- Of two spellings of a line one of which takes in the lines below, that one leaves fewer
statements. -/
private theorem countP_lt_of_joinsNext {pre below : List (List Char)} {line other : List Char}
    (hfree : Unjoined pre line)
    (hfree' : Unjoined pre other)
    (hline : Begins line) (hother : Begins other)
    (hnext : joinsNext (pre ++ [line]) below = true)
    (hnext' : joinsNext (pre ++ [other]) below = false) :
    (foldLines (pre ++ line :: below)).countP isStatement <
      (foldLines (pre ++ other :: below)).countP isStatement := by
  obtain ⟨header, hheader, hne⟩ := head?_of_joinsNext hfree hnext
  rw [foldLines_of_free below hfree', foldLines_cons_of_not_joinsNext hfree' hnext',
    foldLines_of_free below hfree]
  obtain ⟨run, rest, rfl, hrun, hcontinues, hrest⟩ := exists_run line below
  rw [hrun] at hne
  have hlt := countP_foldLines_lt hne hcontinues hrest
  have hgone : (run.map fun _ => ([] : List Char)).countP isStatement = 0 := by
    rw [List.countP_eq_zero]
    intro l hl
    obtain ⟨_, _, rfl⟩ := List.mem_map.mp hl
    rw [isStatement_nil]
    simp
  rw [foldLines_run hheader hcontinues hrest, List.cons_append, List.countP_append,
    List.countP_append, List.countP_cons_of_pos (isStatement_of_begins hother),
    List.countP_cons_of_pos (isStatement_of_begins (begins_wrapped hheader hline run)),
    List.countP_append, hgone]
  omega

/-- When a comment at the end of a line hides nothing: its statement can be read up to the comment,
and either nothing more is joined to it, with the comment and without, or an earlier comment of the
statement hides it anyway. -/
def CommentHidesNothing (pre : List (List Char)) (line code : List Char)
    (below : List (List Char)) : Prop :=
  Commented (lastStatement (pre ++ [code])) ∨ (scan (lastStatement (pre ++ [code]))).2 = [] ∧
    joinsNext (pre ++ [line]) below = false ∧ joinsNext (pre ++ [code]) below = false

instance (pre : List (List Char)) (line code : List Char) (below : List (List Char)) :
    Decidable (CommentHidesNothing pre line code below) :=
  inferInstanceAs (Decidable (_ ∨ _))

private theorem commentTail_withoutReturn {tail : List Char} (h : CommentTail tail) :
    CommentTail (withoutReturn tail) := by
  obtain ⟨gap, body, rfl, hgap, hbody⟩ := h
  have hmark : ∀ c ∈ (gap ++ ['#']).getLast?, c ≠ '\r' := by
    rw [List.getLast?_concat]
    rintro c ⟨⟩
    decide
  have hsplit := withoutReturn_append (.inr hmark : body ≠ [] ∨ _)
  rw [List.append_assoc, List.singleton_append] at hsplit
  refine ⟨gap, withoutReturn body, by rw [hsplit]; simp, hgap, fun hbreak => ?_⟩
  exact hbody (mem_of_mem_withoutReturn hbreak)

private theorem joinedTail_withoutReturn {tail : List Char} (h : JoinedTail tail) :
    JoinedTail (withoutReturn tail) := by
  obtain ⟨d, body, rfl, hd, hbody⟩ := h
  have hfirst : ∀ c ∈ [' ', d].getLast?, c ≠ '\r' := by
    rintro c ⟨⟩ hreturn
    rw [show d = '\r' from hreturn] at hd
    exact (first_of_joined hd).1 rfl
  have hsplit := withoutReturn_append (.inr hfirst : body ≠ [] ∨ _)
  exact ⟨d, withoutReturn body, hsplit, hd, fun hbreak => hbody (mem_of_mem_withoutReturn hbreak)⟩

/-- What is read with the comment and without it, where the two fit. -/
private theorem forest?_eq_iff_of_fits {file : String} {pre below : List (List Char)}
    {line code : List Char} (h : Fits pre line code below)
    (hbreak : '\n' ∉ lastStatement (pre ++ [code])) :
    (surveyReader file).forest? file (linesFrom 1 (foldLines (pre ++ line :: below))) =
        (surveyReader file).forest? file (linesFrom 1 (foldLines (pre ++ code :: below))) ↔
      (surveyReader file).forest? file (linesFrom 1 (foldLines (pre ++ line :: below))) = none ∧
        (surveyReader file).forest? file (linesFrom 1 (foldLines (pre ++ code :: below))) = none ∨
      CommentHidesNothing pre line code below := by
  obtain ⟨a, b, comment, joined, hline, hcode, hcomment, hbegins, hsolid, hjoined⟩ := h
  have hending : Ending (lastStatement (pre ++ [code])) comment := by
    refine ⟨hbegins, .inl ?_⟩
    obtain ⟨gap, body, rfl, _⟩ := hcomment
    simp
  have hending' : Ending (lastStatement (pre ++ [code])) joined := by
    refine ⟨hbegins, ?_⟩
    rcases hjoined with _ | ⟨⟨d, body, rfl, _⟩, _⟩
    · refine .inr fun c hc hreturn => (hsolid c hc).1 ?_
      rw [hreturn]
      rfl
    · exact .inl (by simp)
  have hcomment' := commentTail_withoutReturn hcomment
  rw [hline, hcode]
  unfold CommentHidesNothing
  generalize lastStatement (pre ++ [code]) = statement at *
  constructor
  · intro hsame
    cases hforest : (surveyReader file).forest? file
        (linesFrom 1 (a ++ (statement ++ comment) :: b)) with
    | none => exact .inl ⟨rfl, hsame ▸ hforest⟩
    | some f =>
      obtain ⟨ws, hws, hws'⟩ := words?_ending hending hending' hforest (hsame ▸ hforest)
      right
      -- nothing joined: the statement was read as it stands; else the words tell the two apart
      rcases hjoined with ⟨rfl, hnext⟩ | ⟨hjoined, _⟩
      · have hread : words? (statement ++ []) = some ws := hws'
        obtain ⟨ls, hls, _⟩ := words?_eq_some_iff.mp hread
        rw [List.append_nil] at hls
        exact .inr ⟨by rw [hls.scan_eq], hnext⟩
      · by_contra hopen
        exact words?_commentTail_ne hbreak hsolid hcomment' (joinedTail_withoutReturn hjoined)
          (fun hcommented => hopen (.inl hcommented)) hws hws'
  · rintro (⟨hnone, hnone'⟩ | hharmless)
    · rw [hnone, hnone']
    · have hread : (scan statement).2 = [] := hharmless.elim (·.1) (·.1)
      refine forest?_ending hending hending' ?_ a b
      refine tokens?_commentTail_eq hread hbreak hsolid hcomment' ?_
      rcases hjoined with ⟨rfl, _⟩ | ⟨hjoined, hnext⟩
      · exact .inl rfl
      · rcases hharmless with hharmless | ⟨_, _, hnext'⟩
        · exact .inr ⟨hharmless, joinedTail_withoutReturn hjoined⟩
        · rw [hnext] at hnext'
          cases hnext'

/-- Taking the comment away from a statement line leaves its code. -/
private theorem trailing_of_withoutComment? {line code : List Char} (hbreak : '\n' ∉ line)
    (hstatement : (trim line).head? ≠ some '#') (h : withoutComment? line = some code) :
    ∃ tail, Trailing line code tail ∧ ¬ Commented code := by
  obtain ⟨tail, ls, hline, hcomment, hls, hplain, hsolid⟩ := withoutComment?_eq_some h hbreak
  refine ⟨tail, ⟨hline, hcomment, ?_, hsolid⟩, ?_⟩
  · obtain ⟨gap, body, rfl, hgap, _⟩ := hcomment
    have hsplit := List.takeWhile_append_dropWhile (p := isBlank) (l := code)
    have hgap' : ∀ b ∈ code.takeWhile isBlank, isBlank b := fun b => List.mem_takeWhile_imp
    cases hdrop : code.dropWhile isBlank with
    | nil =>
      rw [hdrop, List.append_nil] at hsplit
      rw [hsplit] at hgap'
      have hall : ∀ b ∈ code ++ gap, isBlank b :=
        List.forall_mem_append.mpr ⟨hgap', fun b hb => isBlank_of_isGap (hgap b hb)⟩
      rw [hline, ← List.append_assoc, trim_append_cons hall (by decide)] at hstatement
      exact absurd rfl hstatement
    | cons c rest =>
      have hc : ¬ isBlank c := by
        have := List.head?_dropWhile_not isBlank code
        rw [hdrop] at this
        simpa using this
      rw [hdrop] at hsplit
      refine ⟨_, c, rest, hsplit.symm, hgap', hc, ?_⟩
      rw [hline, ← hsplit, List.append_assoc, List.cons_append, trim_append_cons hgap' hc]
        at hstatement
      simpa using hstatement
  · rintro ⟨_, l, hl, hcls⟩
    rw [hls.scan_eq] at hl
    exact hplain l hl hcls

/-- With and without its comment a line ends the same statement, unless the comment decides whether
the lines below are joined to it. -/
private theorem fits_or_countP_ne {pre below : List (List Char)} {line code tail : List Char}
    (h : Trailing line code tail) : Fits pre line code below ∨
      lastStatement (pre ++ [code]) = code ∧
        joinsNext (pre ++ [line]) below ≠ joinsNext (pre ++ [code]) below ∧
        (foldLines (pre ++ line :: below)).countP isStatement ≠
          (foldLines (pre ++ code :: below)).countP isStatement := by
  by_cases hopen : ∃ header run, openHead pre = some (header, run) ∧
      continues (indentOf header) code
  · obtain ⟨header, run, hopen, hcode⟩ := hopen
    exact .inl (fits_of_joined h hopen hcode)
  have hfree : Unjoined pre code := fun header run hsome hcode =>
    hopen ⟨header, run, hsome, hcode⟩
  have hfree_line := h.unjoined hfree
  have hline : Begins line := h.line_eq ▸ h.begins.append tail
  cases hnext : joinsNext (pre ++ [line]) below with
  | false =>
    cases hnext' : joinsNext (pre ++ [code]) below with
    | false => exact .inl (fits_of_plain h hfree hnext hnext')
    | true =>
      have hlt := countP_lt_of_joinsNext hfree hfree_line h.begins hline hnext' hnext
      exact .inr ⟨lastStatement_of_free hfree, by simp, hlt.ne'⟩
  | true =>
    cases hnext' : joinsNext (pre ++ [code]) below with
    | false =>
      have hlt := countP_lt_of_joinsNext hfree_line hfree hline h.begins hnext hnext'
      exact .inr ⟨lastStatement_of_free hfree, by simp, hlt.ne⟩
    | true => exact .inl (fits_of_head h hfree hnext hnext')

/-- Where a comment at the end of a line can be taken away: the forest stays the same, or the
source is refused both times, exactly if it was refused both times or the comment hides nothing.
In all other cases lines that are joined behind the comment are lost with it. -/
theorem Survey.trailing_comment_transparent_iff {file src : String}
    {pre below : List (List Char)} {line code : List Char}
    (hlines : lines src.toList = pre ++ line :: below) (hstatement : (trim line).head? ≠ some '#')
    (hcode : withoutComment? line = some code) :
    let src' := String.ofList (unlines (pre ++ code :: below))
    (Survey.ofSource file src).toOption = (Survey.ofSource file src').toOption ↔
      (Survey.ofSource file src).toOption = none ∧ (Survey.ofSource file src').toOption = none ∨
        CommentHidesNothing pre line code below := by
  intro src'
  have hbreak := break_not_mem_lines src.toList
  rw [hlines] at hbreak
  have hbreak_line : '\n' ∉ line := hbreak line (by simp)
  obtain ⟨tail, htrailing, hplain⟩ := trailing_of_withoutComment? hbreak_line hstatement hcode
  have hbreak' : ∀ l ∈ pre ++ code :: below, '\n' ∉ l := by
    intro l hl
    rcases List.mem_append.mp hl with hl | hl
    · exact hbreak l (by simp [hl])
    rcases List.mem_cons.mp hl with rfl | hl
    · exact fun hmem => hbreak_line (by rw [htrailing.line_eq]; simp [hmem])
    · exact hbreak l (by simp [hl])
  have hlines' : lines src'.toList = pre ++ code :: below := by
    rw [String.toList_ofList]
    exact cut_glue (by simp) hbreak'
  rw [toOption_ofSource, toOption_ofSource, hlines, hlines']
  rcases fits_or_countP_ne htrailing with hfits | ⟨hstatement, hnext, hcount⟩
  · refine forest?_eq_iff_of_fits hfits ?_
    obtain ⟨a, b, _, joined, _, hfold, _⟩ := hfits
    have hmem := break_not_mem_foldLines hbreak' (lastStatement (pre ++ [code]) ++ joined)
      (by rw [hfold]; simp)
    exact fun h => hmem (by simp [h])
  · constructor
    · intro hsame
      cases hforest : (surveyReader file).forest? file
          (linesFrom 1 (foldLines (pre ++ line :: below))) with
      | none => exact .inl ⟨rfl, hsame ▸ hforest⟩
      | some f =>
        have hcount' := countP_of_forest? (hsame ▸ hforest)
        exact absurd ((countP_of_forest? hforest).symm.trans hcount') hcount
    · rintro (⟨hnone, hnone'⟩ | hcommented | ⟨_, hnone, hnone'⟩)
      · rw [hnone, hnone']
      · exact absurd (hstatement ▸ hcommented) hplain
      · exact absurd (hnone.trans hnone'.symm) hnext

/-- A comment on the last line of a wrapped question, with another statement below. -/
theorem wrapped_question_comment_transparent :
    let pre := ["q text:".toList, "  \"Label\"".toList]
    let line := "  hint \"why\" # note".toList
    let code := "  hint \"why\"".toList
    let below := ["r integer:".toList]
    let src := "q text:\n  \"Label\"\n  hint \"why\" # note\nr integer:"
    CommentHidesNothing pre line code below ∧ (Survey.ofSource "/form.comb" src).toOption ≠ none ∧
      (Survey.ofSource "/form.comb" src).toOption = (Survey.ofSource "/form.comb"
        (String.ofList (unlines (pre ++ code :: below)))).toOption := by
  intro pre line code below src
  have hharmless : CommentHidesNothing pre line code below := by decide +kernel
  have hlines : lines src.toList = pre ++ line :: below := by decide +kernel
  refine ⟨hharmless, by decide +kernel, ?_⟩
  exact (Survey.trailing_comment_transparent_iff hlines (by decide +kernel)
    (by decide +kernel)).mpr (.inr hharmless)

/-- A comment on a command hides the line that is wrapped below it: of a form's settings, those
behind the comment are lost. -/
theorem command_comment_hides_wrapped_line :
    let line := "@form f 1 \"T\" # note".toList
    let code := "@form f 1 \"T\"".toList
    let below := ["  style pages".toList]
    let src := "@form f 1 \"T\" # note\n  style pages"
    let pos : Position := ⟨"/form.comb", 1, 1⟩
    lines src.toList = line :: below ∧ (trim line).head? ≠ some '#' ∧
      withoutComment? line = some code ∧
      (Survey.ofSource "/form.comb" src).toOption =
        some (.leaf (.command ⟨pos, "form", "f", ["1", "T"]⟩) .nil) ∧
      (Survey.ofSource "/form.comb" (String.ofList (unlines (code :: below)))).toOption =
        some (.leaf (.command ⟨pos, "form", "f", ["1", "T", "style", "pages"]⟩) .nil) := by
  decide +kernel

end SurveyForms
