import SurveyForms.Proofs.BlockTrees

/-! Whole-line comments. Main statement: emptying comment lines of a source, at whatever column they
stand, changes neither what is refused nor the statements that are read. -/
namespace SurveyForms

open Source Text

/-- A forest with only those leaves that pass a test. Its blocks are kept. -/
def Forest.filterLeaves (keep : α → Bool) : Forest α β → Forest α β
  | .nil => .nil
  | .leaf a rest => if keep a then .leaf a (rest.filterLeaves keep) else rest.filterLeaves keep
  | .block h body rest => .block h (body.filterLeaves keep) (rest.filterLeaves keep)

def Survey.withoutComments (f : Survey) : Survey := f.filterLeaves (!·.isComment)

def Choices.withoutComments (f : Choices) : Choices := f.filterLeaves (!·.isComment)

theorem Forest.anyStatement_filterLeaves (keep : α → Bool) (f : Forest α β) :
    (f.filterLeaves keep).anyStatement keep = f.anyStatement keep := by
  induction f with
  | nil => rfl
  | leaf a rest ih =>
    rw [filterLeaves, anyStatement]
    cases hkeep : keep a with
    | true => simp [anyStatement, hkeep]
    | false => simpa using ih
  | block => rfl

/-- Dropping elements that pass a test does not move the place where the test first fails. -/
private theorem span_filter {p q : α → Bool} (h : ∀ a, p a = false → q a = true) (l : List α) :
    (l.filter p).takeWhile q = (l.takeWhile q).filter p ∧
      (l.filter p).dropWhile q = (l.dropWhile q).filter p := by
  induction l with
  | nil => exact ⟨rfl, rfl⟩
  | cons a l ih =>
    obtain ⟨htake, hdrop⟩ := ih
    cases hp : p a with
    | false => simp [hp, h a hp, htake, hdrop]
    | true => cases hq : q a <;> simp [hp, hq, htake, hdrop]

namespace LineReader

variable {reader : LineReader α β} {leaf : α → Option γ} {header : β → γ} {line : Line → Option γ}

theorem firstColumn_filter (ls : List Line) :
    firstColumn (ls.filter (!·.isComment)) = firstColumn ls := by
  rw [firstColumn, firstColumn, ← List.head?_filter, ← List.head?_filter, List.filter_filter]
  simp only [Bool.and_self]

private theorem span_statements (col : Nat) (ls : List Line) :
    (ls.filter (!·.isComment)).takeWhile (inBody col) =
        (ls.takeWhile (inBody col)).filter (!·.isComment) ∧
      (ls.filter (!·.isComment)).dropWhile (inBody col) =
        (ls.dropWhile (inBody col)).filter (!·.isComment) :=
  span_filter (fun k hk => by simp_all [inBody]) ls

private theorem filter_statement {l : Line} (hl : l.isComment = false) (ls : List Line) :
    (l :: ls).filter (!·.isComment) = l :: ls.filter (!·.isComment) :=
  List.filter_cons_of_pos (by simp [hl])

private theorem filter_comment {l : Line} (hl : l.isComment) (ls : List Line) :
    (l :: ls).filter (!·.isComment) = ls.filter (!·.isComment) :=
  List.filter_cons_of_neg (by simp [hl])

theorem Shows.reads_filter (h : reader.Shows leaf header line) {col : Nat} {ls : List Line}
    {f : Forest α β} (hf : reader.Reads col ls f) : reader.Reads col (ls.filter (!·.isComment))
      (f.filterLeaves (!reader.isComment ·)) := by
  induction hf with
  | nil => exact .nil
  | @comment _ l _ _ hl _ ih =>
    have hread : reader.isComment (reader.comment l) = true := by
      rw [h.isComment, h.comment]
      rfl
    rwa [filter_comment hl, Forest.filterLeaves, if_neg (by simp [hread])]
  | @leaf _ _ a _ hl hentry _ ih =>
    obtain ⟨hsome, hleaf⟩ := h.of_entry hentry
    have hread : reader.isComment a = false := by
      rw [h.isComment, hleaf, Option.isNone_eq_false_iff, hsome]
    rw [filter_statement hl, Forest.filterLeaves, if_pos (by simp [hread])]
    exact .leaf hl hentry ih
  | block hl hentry _ hany _ ihbody ihrest =>
    rw [← firstColumn_filter, ← (span_statements _ _).1] at ihbody
    rw [← (span_statements _ _).2] at ihrest
    rw [filter_statement hl, Forest.filterLeaves]
    exact .block hl hentry ihbody ((Forest.anyStatement_filterLeaves _ _).trans hany) ihrest
  | @bodiless _ _ _ a _ _ _ hl hentry _ hnone _ ihbody ihrest =>
    obtain ⟨hline, hbodiless⟩ := h.of_entry hentry
    have hread : reader.isComment a = false := by
      rw [h.isComment, hbodiless a rfl, hline]
      rfl
    rw [← firstColumn_filter, ← (span_statements _ _).1] at ihbody
    rw [← (span_statements _ _).2] at ihrest
    rw [filter_statement hl, Forest.filterLeaves, if_pos (by simp [hread])]
    exact .bodiless hl hentry ihbody ((Forest.anyStatement_filterLeaves _ _).trans hnone) ihrest

theorem Shows.refuses_filter (h : reader.Shows leaf header line) {file : String} {col : Nat}
    {ls : List Line} {d : Diagnostic} (hd : reader.Refuses file d col ls) :
    reader.Refuses file d col (ls.filter (!·.isComment)) := by
  induction hd with
  | comment hl _ ih => rwa [filter_comment hl]
  | unindent hl hcol hd => rw [filter_statement hl]; exact .unindent hl hcol hd
  | indent hl hcol hd => rw [filter_statement hl]; exact .indent hl hcol hd
  | entry hl he => rw [filter_statement hl]; exact .entry hl he
  | leaf hl hentry _ ih => rw [filter_statement hl]; exact .leaf hl hentry ih
  | inside hl hentry _ ih =>
    rw [← firstColumn_filter, ← (span_statements _ _).1] at ih
    rw [filter_statement hl]
    exact .inside hl hentry ih
  | after hl hentry hbody hmeans _ ih =>
    have hbody := h.reads_filter hbody
    rw [← firstColumn_filter, ← (span_statements _ _).1] at hbody
    rw [← (span_statements _ _).2] at ih
    rw [filter_statement hl]
    refine .after hl hentry hbody ?_ ih
    rwa [Forest.anyStatement_filterLeaves]
  | missing hl hentry hbody hnone hd =>
    have hbody := h.reads_filter hbody
    rw [← firstColumn_filter, ← (span_statements _ _).1] at hbody
    rw [filter_statement hl]
    exact .missing hl hentry hbody
      ((Forest.anyStatement_filterLeaves _ _).trans hnone) hd

/-- A block without its comment lines is read to the forest without its comments, or refused in the
same way. -/
theorem Shows.block_filter (h : reader.Shows leaf header line) (file : String) (col : Nat)
    (ls : List Line) : reader.block file col (ls.filter (!·.isComment)) =
      (reader.block file col ls).map (Forest.filterLeaves (!reader.isComment ·)) := by
  rcases reads_or_refuses reader file col ls with ⟨f, hf⟩ | ⟨d, hd⟩
  · rw [hf.block_eq, (h.reads_filter hf).block_eq]
    rfl
  · rw [hd.block_eq, (h.refuses_filter hd).block_eq]
    rfl

end LineReader

/-- A line whose first character apart from white space is a comment mark. -/
def isCommentLine (raw : List Char) : Bool := (trimStart raw).head? == some '#'

/-- A line, and the same line or, if it is a comment line, nothing in its place. -/
def Uncommented (raw raw' : List Char) : Prop := raw' = raw ∨ isCommentLine raw ∧ raw' = []

instance : DecidableRel Uncommented := fun _ _ => inferInstanceAs (Decidable (_ ∨ _))

theorem not_isCommentLine_of_begins {raw : List Char} (h : Begins raw) : ¬ isCommentLine raw := by
  obtain ⟨gap, c, rest, rfl, hgap, hc, hmark⟩ := h
  simp [isCommentLine, trimStart, List.dropWhile_append_of_pos hgap, hc, hmark]

theorem isStatement_of_isCommentLine {raw : List Char} (h : isCommentLine raw) :
    isStatement raw = false := by
  have hsplit := List.takeWhile_append_dropWhile (p := isBlank) (l := raw)
  have hgap : ∀ c ∈ raw.takeWhile isBlank, isBlank c := fun c => List.mem_takeWhile_imp
  obtain ⟨rest, hrest⟩ : ∃ rest, raw.dropWhile isBlank = '#' :: rest := by
    rw [isCommentLine, trimStart, beq_iff_eq, List.head?_eq_some_iff] at h
    exact h
  rw [hrest] at hsplit
  have hkept : withoutReturn ((raw.takeWhile isBlank ++ ['#']) ++ rest) = _ :=
    withoutReturn_append (.inr (by simp))
  rw [List.append_assoc, List.singleton_append, hsplit, List.append_assoc,
    List.singleton_append] at hkept
  have hcomment : Line.isComment ⟨0, indentColumn 0 (withoutReturn raw), withoutReturn raw⟩ := by
    rw [Line.isComment, hkept, trim_append_cons hgap (by decide)]
    rfl
  rw [isStatement, ofText?_withoutReturn]
  split
  · rfl
  · simp [hcomment]

/-- Emptying comment lines leaves the statements of a text where they are. -/
theorem filter_linesFrom_uncommented {raws raws' : List (List Char)}
    (h : List.Forall₂ Uncommented raws raws') (n : Nat) :
    (linesFrom n raws').filter (!·.isComment) = (linesFrom n raws).filter (!·.isComment) := by
  rw [filter_linesFrom, filter_linesFrom]
  congr 1
  induction h generalizing n with
  | nil => rfl
  | @cons raw raw' raws raws' hraw _ ih =>
    rw [List.zipIdx_cons, List.zipIdx_cons, List.filter_cons, List.filter_cons, ih]
    rcases hraw with rfl | ⟨hcomment, rfl⟩
    · rfl
    · simp [isStatement_of_isCommentLine hcomment, isStatement_nil]

/-- A comment line and an empty line neither are headers nor continue one. -/
private theorem Uncommented.cases {raw raw' : List Char} (h : Uncommented raw raw') :
    raw' = raw ∨ head? (contentOf raw) = none ∧ raw' = [] ∧
      ∀ header, continues (indentOf header) raw = false := by
  refine h.imp_right fun ⟨hcomment, hnil⟩ => ⟨?_, hnil, fun header => ?_⟩
  · by_contra hhead
    obtain ⟨header, hheader⟩ := Option.ne_none_iff_exists'.mp hhead
    obtain ⟨_, _, spaces, _, hcontent, _⟩ := head?_eq_some hheader
    have hbegins := begins_of_head? hheader spaces
    rw [List.append_assoc, ← hcontent, indentOf_append_contentOf] at hbegins
    exact not_isCommentLine_of_begins hbegins hcomment
  · by_contra hcontinues
    exact not_isCommentLine_of_begins (begins_of_continues (by simpa using hcontinues)) hcomment

private theorem not_continues_nil (indent : List Char) : continues indent [] = false := by
  simp [continues]

private theorem Uncommented.continues_eq {raw raw' : List Char} (h : Uncommented raw raw')
    (line : List Char) : continues (indentOf line) raw = continues (indentOf line) raw' := by
  rcases h.cases with rfl | ⟨-, rfl, hnot⟩
  · rfl
  · rw [hnot, not_continues_nil]

private theorem eq_of_uncommented_run {line : List Char} {run run' : List (List Char)}
    (h : List.Forall₂ Uncommented run run') (hrun : ∀ l ∈ run, continues (indentOf line) l) :
    run' = run := by
  induction h with
  | nil => rfl
  | @cons raw raw' run run' hraw _ ih =>
    obtain ⟨hcontinues, hmore⟩ := List.forall_mem_cons.mp hrun
    rcases hraw.cases with rfl | ⟨-, -, hnot⟩
    · rw [ih hmore]
    · rw [hnot] at hcontinues
      cases hcontinues

/-- Joining goes the same way with comment lines emptied. -/
theorem foldLines_uncommented {raws raws' : List (List Char)}
    (h : List.Forall₂ Uncommented raws raws') :
    List.Forall₂ Uncommented (foldLines raws) (foldLines raws') := by
  induction hn : raws.length using Nat.strong_induction_on generalizing raws raws' with
  | _ n ih =>
    cases h with
    | nil =>
      rw [foldLines]
      exact .nil
    | @cons raw raw' raws raws' hraw hraws =>
      rw [List.length_cons] at hn
      rcases hraw.cases with rfl | ⟨hhead, rfl, -⟩
      · cases hheader : head? (contentOf raw') with
        | none =>
          rw [foldLines_cons_of_none hheader, foldLines_cons_of_none hheader]
          exact .cons (.inl rfl) (ih raws.length (by omega) hraws rfl)
        | some header =>
          have hdrop := (List.dropWhile_suffix (l := raws) (continues (indentOf raw'))).length_le
          obtain ⟨hrun, hrest⟩ := forall₂_span (fun _ _ hl => hl.continues_eq raw') hraws
          have hsame := eq_of_uncommented_run hrun fun l => List.mem_takeWhile_imp
          rw [foldLines_cons_of_some hheader, foldLines_cons_of_some hheader, hsame]
          refine List.rel_append ?_ (ih _ (by omega) hrest rfl)
          exact List.forall₂_same.mpr fun l _ => .inl rfl
      · rw [foldLines_cons_of_none hhead, foldLines_cons_of_none rfl]
        exact .cons hraw (ih raws.length (by omega) hraws rfl)

/-- Texts whose lines differ in emptied comments are read to the same statements by a reader of
comments. -/
private theorem map_block_uncommented {reader : LineReader α β} {leaf : α → Option γ}
    {header : β → γ} {line : Line → Option γ} (h : reader.Shows leaf header line) (file : String)
    {raws raws' : List (List Char)} (hraws : List.Forall₂ Uncommented raws raws') :
    (reader.block file (LineReader.firstColumn (linesFrom 1 raws)) (linesFrom 1 raws)).map
        (Forest.filterLeaves (!reader.isComment ·)) =
      (reader.block file (LineReader.firstColumn (linesFrom 1 raws')) (linesFrom 1 raws')).map
        (Forest.filterLeaves (!reader.isComment ·)) := by
  have hsame := filter_linesFrom_uncommented hraws 1
  rw [← h.block_filter, ← h.block_filter, ← LineReader.firstColumn_filter (linesFrom 1 raws),
    ← LineReader.firstColumn_filter (linesFrom 1 raws'), hsame]

/-- Whole-line comments are transparent: with any of the comment lines of a source emptied, it is
refused with the same fault at the same place, or read to the same statements at the same places. -/
theorem comment_lines_transparent {src src' : String}
    (h : List.Forall₂ Uncommented (lines src.toList) (lines src'.toList)) (file : String) :
    (Survey.ofSource file src).map Survey.withoutComments =
      (Survey.ofSource file src').map Survey.withoutComments ∧
    (Choices.ofText file src).map Choices.withoutComments =
      (Choices.ofText file src').map Choices.withoutComments := by
  constructor
  · have hfolded := map_block_uncommented (surveyReader_shows file) file (foldLines_uncommented h)
    rw [← lines_foldContinuations, ← lines_foldContinuations] at hfolded
    exact hfolded
  · exact map_block_uncommented (choicesReader_shows file) file h

/-- Comments in front of a body, at the column of no block, and below a group word without a body;
the one behind the wrapped line stays. -/
theorem scattered_comments_transparent :
    let src := "group g:\n   # body\n q text:\n  \"L\"\n # on\n# odd\n repeat text:\n  # none"
    let src' := "group g:\n\n q text:\n  \"L\"\n # on\n\n repeat text:\n"
    List.Forall₂ Uncommented (lines src.toList) (lines src'.toList) ∧
      (Survey.ofSource "f" src).map Survey.withoutComments =
        (Survey.ofSource "f" src').map Survey.withoutComments ∧
      (Survey.ofSource "f" src).toOption.isSome := by
  intro src src'
  have h : List.Forall₂ Uncommented (lines src.toList) (lines src'.toList) := by decide +kernel
  exact ⟨h, (comment_lines_transparent h "f").1, by decide +kernel⟩

end SurveyForms
