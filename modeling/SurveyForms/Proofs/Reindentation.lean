import SurveyForms.Proofs.BlockViews
import SurveyForms.Proofs.StatementLines
import SurveyForms.Proofs.TokenColumns

/-! Sources that differ in indentation alone. Main statement: if the columns of their statements are
in the same order, both are read to the same forest, up to columns, or refused with the same fault
at the same line. -/
namespace SurveyForms

open Source Text

/-! What holds positions, with its columns forgotten. -/

def Position.anywhere (p : Position) : Position := { p with col := 0 }

def Diagnostic.anywhere (d : Diagnostic) : Diagnostic := { d with pos := d.pos.anywhere }

def SurveyLeaf.anywhere : SurveyLeaf → SurveyLeaf
  | .comment pos text => .comment pos.anywhere text
  | .command c => .command { c with pos := c.pos.anywhere }
  | .question q => .question { q with pos := q.pos.anywhere }

def SurveyHeader.anywhere : SurveyHeader → SurveyHeader
  | .conditional pos c => .conditional pos.anywhere c
  | .group g => .group { g with pos := g.pos.anywhere }

def ChoicesLeaf.anywhere : ChoicesLeaf → ChoicesLeaf
  | .comment pos text => .comment pos.anywhere text
  | .command c => .command { c with pos := c.pos.anywhere }
  | .choice c => .choice { c with pos := c.pos.anywhere }

def ChoiceList.anywhere (l : ChoiceList) : ChoiceList := { l with pos := l.pos.anywhere }

def Survey.anywhere (f : Survey) : Survey := f.map (·.anywhere) (·.anywhere)

def Choices.anywhere (f : Choices) : Choices := f.map (·.anywhere) (·.anywhere)

/-- Steps that are alike, one after the other. -/
theorem both_bind_congr {onError : ε → δ} {k : α → γ} {m : β → ρ} {x x' : Except ε α}
    {f f' : α → Except ε β} (hx : both onError k x = both onError k x')
    (hf : ∀ a a', k a = k a' → both onError m (f a) = both onError m (f' a')) :
    both onError m (x >>= f) = both onError m (x' >>= f') := by
  cases x with
  | error e =>
    cases x' with
    | error e' => exact congrArg Except.error (Except.error.inj hx)
    | ok a' => cases hx
  | ok a =>
    cases x' with
    | error e' => cases hx
    | ok a' => exact hf a a' (Except.ok.inj hx)

/-! Readers, with the columns of what they read forgotten. -/

def surveyView (file : String) : View SurveyLeaf SurveyHeader Diagnostic SurveyLeaf SurveyHeader :=
  ⟨surveyReader file, file, Diagnostic.anywhere, SurveyLeaf.anywhere, SurveyHeader.anywhere⟩

def choicesView (file : String) : View ChoicesLeaf ChoiceList Diagnostic ChoicesLeaf ChoiceList :=
  ⟨choicesReader file, file, Diagnostic.anywhere, ChoicesLeaf.anywhere, ChoiceList.anywhere⟩

/-- A line and its counterpart under the same number, with the same code and the same text between
the white space at their ends. -/
structure Source.SameText (z : Line × Line) : Prop where
  number : z.1.number = z.2.number
  solids : solids z.1.text = Source.solids z.2.text
  trim : trim z.1.text = Text.trim z.2.text

namespace Source.SameText

variable {z : Line × Line} (h : SameText z)
include h

theorem isComment : z.1.isComment = z.2.isComment := by
  rw [Line.isComment, Line.isComment, h.trim]

theorem commentText : z.1.commentText = z.2.commentText := by
  rw [Line.commentText, Line.commentText, h.trim]

theorem both_located (file : String) {rule : Grammar.Rule γ} (hrule : Grammar.Blind rule.run) :
    both Diagnostic.anywhere id (located file z.1 (Grammar.parseLine rule z.1.text)) =
      both Diagnostic.anywhere id (located file z.2 (Grammar.parseLine rule z.2.text)) := by
  have hparsed := Grammar.parseLine_of_solids_eq hrule h.solids
  cases hfirst : Grammar.parseLine rule z.1.text with
  | ok a =>
    cases hsecond : Grammar.parseLine rule z.2.text with
    | ok a' =>
      rw [hfirst, hsecond] at hparsed
      exact congrArg Except.ok (Except.ok.inj hparsed)
    | error e' => rw [hfirst, hsecond] at hparsed; cases hparsed
  | error e =>
    cases hsecond : Grammar.parseLine rule z.2.text with
    | ok a' => rw [hfirst, hsecond] at hparsed; cases hparsed
    | error e' =>
      rw [hfirst, hsecond] at hparsed
      have hfault : e.2 = e'.2 := Except.error.inj hparsed
      show Except.error (Diagnostic.mk ⟨file, z.1.number, 0⟩ e.2) =
        .error ⟨⟨file, z.2.number, 0⟩, e'.2⟩
      rw [hfault, h.number]

theorem bodilessQuestion_map {pos pos' : Position} (hpos : pos.anywhere = pos'.anywhere)
    (label : Option String) (params : List Param) (condition : Option Condition) :
    (bodilessQuestion pos z.1 label params condition).map (·.anywhere) =
      (bodilessQuestion pos' z.2 label params condition).map (·.anywhere) := by
  have hparsed := Grammar.parseLine_of_solids_eq Grammar.blind_questionLine h.solids
  unfold bodilessQuestion
  split
  · cases hfirst : Grammar.parseLine Grammar.questionLine z.1.text with
    | ok a =>
      cases hsecond : Grammar.parseLine Grammar.questionLine z.2.text with
      | ok a' =>
        rw [hfirst, hsecond] at hparsed
        obtain rfl : a = a' := Except.ok.inj hparsed
        cases a with
        | question =>
          simp only [Option.map_some, SurveyLeaf.anywhere, hpos]
        | command | conditional | group => rfl
      | error e' => rw [hfirst, hsecond] at hparsed; cases hparsed
    | error e =>
      cases hsecond : Grammar.parseLine Grammar.questionLine z.2.text with
      | ok a' => rw [hfirst, hsecond] at hparsed; cases hparsed
      | error e' => rfl
  · rfl

theorem anywhere_start (file : String) :
    (z.1.start file).anywhere = (z.2.start file).anywhere := by
  rw [Line.start, Line.start, h.number]
  rfl

theorem surveyView_twins (file : String) :
    View.Twins (surveyView file) (surveyView file) z.1 z.2 := by
  have hpos := h.anywhere_start file
  rw [Line.start, Line.start] at hpos
  refine ⟨h.isComment, fun _ => ?_, ?_, fun fault _ => congrArg (Diagnostic.mk · fault) hpos⟩
  · simp only [surveyView, surveyReader, SurveyLeaf.anywhere, hpos, h.commentText]
  refine both_bind_congr (h.both_located file Grammar.blind_surveyLine) fun line line' hline => ?_
  obtain rfl : line = line' := hline
  cases line with
  | command name first others =>
    simp only [surveyView, pure, Except.pure, both_ok, Entry.map, SurveyLeaf.anywhere, hpos]
  | conditional condition =>
    simp only [surveyView, pure, Except.pure, both_ok, Entry.map, SurveyHeader.anywhere, hpos,
      Option.map_none]
  | group kind name label params condition =>
    simp only [surveyView, pure, Except.pure, both_ok, Entry.map, SurveyHeader.anywhere, hpos,
      h.bodilessQuestion_map hpos]
  | question name type label params =>
    simp only [surveyView, pure, Except.pure, both_ok, Entry.map, SurveyLeaf.anywhere, hpos]

theorem choicesView_twins (file : String) :
    View.Twins (choicesView file) (choicesView file) z.1 z.2 := by
  have hpos := h.anywhere_start file
  rw [Line.start, Line.start] at hpos
  refine ⟨h.isComment, fun _ => ?_, ?_, fun fault _ => congrArg (Diagnostic.mk · fault) hpos⟩
  · simp only [choicesView, choicesReader, ChoicesLeaf.anywhere, hpos, h.commentText]
  refine both_bind_congr (h.both_located file Grammar.blind_choicesLine) fun line line' hline => ?_
  obtain rfl : line = line' := hline
  cases line with
  | command name first others =>
    simp only [choicesView, pure, Except.pure, both_ok, Entry.map, ChoicesLeaf.anywhere, hpos]
  | list name params =>
    simp only [choicesView, pure, Except.pure, both_ok, Entry.map, ChoiceList.anywhere, hpos,
      Option.map_none]
  | choice value label params =>
    simp only [choicesView, pure, Except.pure, both_ok, Entry.map, ChoicesLeaf.anywhere, hpos]

end Source.SameText

/-- Lines with the same content behind their indentation; what is blank is the same throughout. -/
def SameContent (raw raw' : List Char) : Prop :=
  allBlank raw ∧ allBlank raw' ∨ contentOf raw = contentOf raw'

instance : DecidableRel SameContent := fun _ _ => inferInstanceAs (Decidable (_ ∨ _))

/-- Texts that differ in indentation alone, and whose statements are in the same order of
columns. -/
structure Reindented (src src' : String) : Prop where
  content : List.Forall₂ SameContent (lines src.toList) (lines src'.toList)
  order : ∀ z ∈ (lines src.toList).zip (lines src'.toList),
    ∀ w ∈ (lines src.toList).zip (lines src'.toList), isStatement z.1 → isStatement w.1 →
      compare (indentColumn 0 z.1) (indentColumn 0 w.1) =
        compare (indentColumn 0 z.2) (indentColumn 0 w.2)

private theorem trim_append_indent {indent : List Char} (h : ∀ c ∈ indent, isIndent c)
    (cs : List Char) : trim (indent ++ cs) = trim cs := by
  rw [trim, trim, trimStart, trimStart,
    List.dropWhile_append_of_pos fun c hc => isBlank_of_isIndent (h c hc)]

private theorem allBlank_contentOf (raw : List Char) : allBlank (contentOf raw) = allBlank raw := by
  conv_rhs => rw [← indentOf_append_contentOf raw]
  have hindent : (indentOf raw).all isBlank :=
    List.all_eq_true.mpr fun c hc => isBlank_of_isIndent (isIndent_of_mem_indentOf c hc)
  simp [allBlank, hindent]

/-- A line and its counterpart are both blank, or carry the same text behind their columns. -/
private theorem SameContent.ofText? {raw raw' : List Char} (h : SameContent raw raw') (n : Nat) :
    (Line.ofText? n raw = none ∧ Line.ofText? n raw' = none) ∨
      ∃ z : Line × Line, Line.ofText? n raw = some z.1 ∧ Line.ofText? n raw' = some z.2 ∧
        z.1.col = indentColumn 0 raw ∧ z.2.col = indentColumn 0 raw' ∧ SameText z := by
  have hblank : allBlank raw = allBlank raw' := by
    rcases h with ⟨hraw, hraw'⟩ | hcontent
    · rw [hraw, hraw']
    · rw [← allBlank_contentOf raw, ← allBlank_contentOf raw', hcontent]
  rw [ofText?_eq, ofText?_eq, ← hblank]
  split
  · exact .inl ⟨rfl, rfl⟩
  · next hvisible =>
    have hcontent : contentOf raw = contentOf raw' :=
      h.resolve_left fun hboth => hvisible hboth.1
    have hgaps (raw : List Char) : ∀ c ∈ indentOf raw, isGap c :=
      fun c hc => isGap_of_isIndent (isIndent_of_mem_indentOf c hc)
    refine .inr ⟨(⟨n, _, _⟩, ⟨n, _, _⟩), rfl, rfl, rfl, rfl, rfl, ?_, ?_⟩
    · rw [solids_append (hgaps raw), solids_append (hgaps raw'), hcontent]
    · rw [trim_append_indent isIndent_of_mem_indentOf,
        trim_append_indent isIndent_of_mem_indentOf, hcontent]

/-- The lines of two such texts, each with its counterpart. -/
private theorem exists_counterparts {raws raws' : List (List Char)}
    (h : List.Forall₂ SameContent raws raws') (n : Nat) :
    ∃ zs : List (Line × Line), zs.map Prod.fst = linesFrom n raws ∧
      zs.map Prod.snd = linesFrom n raws' ∧ ∀ z ∈ zs, SameText z ∧ ∃ p ∈ raws.zip raws',
        z.1.col = indentColumn 0 p.1 ∧ z.2.col = indentColumn 0 p.2 ∧
          isStatement p.1 = !z.1.isComment := by
  induction h generalizing n with
  | nil => exact ⟨[], rfl, rfl, by simp⟩
  | @cons raw raw' raws raws' hraw _ ih =>
    obtain ⟨zs, hfst, hsnd, hzs⟩ := ih (n + 1)
    have hzs : ∀ z ∈ zs, SameText z ∧ ∃ p ∈ (raw :: raws).zip (raw' :: raws'),
        z.1.col = indentColumn 0 p.1 ∧ z.2.col = indentColumn 0 p.2 ∧
          isStatement p.1 = !z.1.isComment := fun z hz => by
      obtain ⟨hz, p, hp, hcols⟩ := hzs z hz
      exact ⟨hz, p, List.mem_cons_of_mem _ hp, hcols⟩
    rw [linesFrom_cons, linesFrom_cons]
    rcases hraw.ofText? n with ⟨hnone, hnone'⟩ | ⟨z, hz, hz', hcol, hcol', hsame⟩
    · rw [hnone, hnone']
      exact ⟨zs, hfst, hsnd, hzs⟩
    · refine ⟨z :: zs, by simp [hz, hfst], by simp [hz', hsnd],
        List.forall_mem_cons.mpr ⟨⟨hsame, (raw, raw'), List.mem_cons_self, hcol, hcol', ?_⟩, hzs⟩⟩
      rw [← any_ofText? n raw, hz]
      rfl

/-- Such texts look alike, if each line looks like its counterpart. -/
private theorem Reindented.both_forest {src src' : String} (h : Reindented src src')
    {v : View α β δ γ η} (hcomments : View.SameComments v v)
    (htwins : ∀ z, SameText z → View.Twins v v z.1 z.2) :
    both v.fault (Forest.map v.leaf v.header) (v.reader.forest v.file src) =
      both v.fault (Forest.map v.leaf v.header) (v.reader.forest v.file src') := by
  obtain ⟨zs, hfst, hsnd, hzs⟩ := exists_counterparts h.content 1
  have horder : LineReader.SameOrder zs := by
    intro z hz w hw hzc hwc
    obtain ⟨_, p, hp, hcol, hcol', hstatement⟩ := hzs z hz
    obtain ⟨_, q, hq, hqcol, hqcol', hqstatement⟩ := hzs w hw
    rw [hcol, hcol', hqcol, hqcol']
    exact h.order p hp q hq (by simp [hstatement, hzc]) (by simp [hqstatement, hwc])
  have hfacing := View.Facing.of_firstColumn (fun z hz => htwins z (hzs z hz).1) horder
  rw [hfst, hsnd] at hfacing
  exact View.block_eq_of_aligned hcomments ⟨zs, hfst, hsnd, hfacing⟩

/-- Comments are seen as such, columns apart. -/
private theorem sameComments_of_anywhere {v : View α β δ α η}
    (hread : ∀ a, v.reader.isComment (v.leaf a) = v.reader.isComment a) :
    View.SameComments v v := fun a a' ha => by
  rw [← hread a, ← hread a', ha]

/-- Only the order of the columns matters: sources that differ in indentation alone, with their
statements in the same order of columns, are read to the same forest, columns apart, or refused
with the same fault at the same line. -/
theorem reindented_sources_read_alike {src src' : String} (h : Reindented src src')
    (file : String) :
    both Diagnostic.anywhere Survey.anywhere (Survey.ofText file src) =
      both Diagnostic.anywhere Survey.anywhere (Survey.ofText file src') ∧
    both Diagnostic.anywhere Choices.anywhere (Choices.ofText file src) =
      both Diagnostic.anywhere Choices.anywhere (Choices.ofText file src') :=
  ⟨h.both_forest (v := surveyView file) (sameComments_of_anywhere fun a => by cases a <;> rfl)
      fun _ hz => hz.surveyView_twins file,
    h.both_forest (v := choicesView file) (sameComments_of_anywhere fun a => by cases a <;> rfl)
      fun _ hz => hz.choicesView_twins file⟩

/-- Single spaces, and tabs mixed with spaces: the same group with a condition in it. -/
theorem tabbed_group_reads_alike :
    let src := "group g:\n q text:\n# note\n  \n if 1:\n  r text:\ns text:"
    let src' := "\tgroup g:\n\t q text:\n\t\t# note\n\n\t if 1:\n \t\tr text:\n        s text:"
    Reindented src src' ∧
      both Diagnostic.anywhere Survey.anywhere (Survey.ofText "f" src) =
        both Diagnostic.anywhere Survey.anywhere (Survey.ofText "f" src') ∧
      (Survey.ofText "f" src).toOption.isSome := by
  intro src src'
  have hsame : Reindented src src' := ⟨by decide +kernel, by decide +kernel⟩
  exact ⟨hsame, (reindented_sources_read_alike hsame "f").1, by decide +kernel⟩

end SurveyForms
