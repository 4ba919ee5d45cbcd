import SurveyForms.Proofs.Matching
import SurveyForms.Proofs.Session
import SurveyForms.Proofs.StatementLines

/-! The tree of a source. Main statement: the statements of a forest that was read, in source
order, are the lines of the text that are neither blank nor comments, one for one and at their
places, and the blocks of the forest are those that the columns show. -/
namespace SurveyForms

open Source Text

open Grammar (ChoicesLine parseLine choicesLine)

def ChoicesLeaf.written? : ChoicesLeaf → Option Written
  | .comment _ _ => none
  | .command c => some ⟨c.pos, (ChoicesLine.command c.name c.first c.others).words⟩
  | .choice c => some ⟨c.pos, (ChoicesLine.choice c.value c.label c.params).words⟩

def ChoiceList.written (l : ChoiceList) : Written :=
  ⟨l.pos, (ChoicesLine.list l.name l.params).words⟩

theorem choicesReader_shows (file : String) :
    (choicesReader file).Shows ChoicesLeaf.written? ChoiceList.written (·.written? file) := by
  refine ⟨fun _ => rfl, fun a => by cases a <;> rfl, @fun l e h => ?_⟩
  simp only [choicesReader] at h
  cases hline : parseLine choicesLine l.text with
  | error d => rw [hline] at h; cases h
  | ok line =>
    have hwords := Grammar.words?_of_parseLine Grammar.fills_choicesLine
      ChoicesLine.values_slots (congrArg _ hline)
    have hwritten : l.written? file = some ⟨⟨file, l.number, l.col⟩, line.words⟩ := by
      rw [Source.Line.written?, hwords]
      rfl
    rw [hline] at h
    cases line with
    | command name first others => cases h; exact ⟨by rw [hwritten]; rfl, hwritten.symm⟩
    | list name params => cases h; exact ⟨hwritten, by simp⟩
    | choice value label params => cases h; exact ⟨by rw [hwritten]; rfl, hwritten.symm⟩

namespace Forest

/-- The statements of a block stand at one column, comments apart. Each block has a statement in
its body, and its body is deeper than its header. -/
def Indented (leaf : α → Option Written) (header : β → Written) : Nat → Forest α β → Prop
  | _, .nil => True
  | col, .leaf a rest => (∀ s ∈ leaf a, s.pos.col = col) ∧ rest.Indented leaf header col
  | col, .block h body rest =>
    (header h).pos.col = col ∧ body.inOrder leaf header ≠ [] ∧
      (∃ inner, col < inner ∧ body.Indented leaf header inner) ∧ rest.Indented leaf header col

theorem mem_inOrder_of_mem_leaves {leaf : α → Option γ} {header : β → γ} {f : Forest α β} {a : α}
    {x : γ} (ha : a ∈ f.leaves) (hx : x ∈ leaf a) : x ∈ f.inOrder leaf header := by
  induction f with
  | nil => cases ha
  | leaf b rest ih =>
    rw [inOrder, List.mem_append]
    rcases List.mem_cons.mp ha with rfl | ha
    · exact .inl (Option.mem_toList.mpr hx)
    · exact .inr (ih ha)
  | block h body rest ihbody ihrest =>
    rw [inOrder, List.mem_cons, List.mem_append]
    rcases List.mem_append.mp ha with ha | ha
    · exact .inr (.inl (ihbody ha))
    · exact .inr (.inr (ihrest ha))

end Forest

namespace LineReader

/-- Where a body has a statement, the first one is deeper than the header. -/
private theorem lt_firstColumn {col : Nat} {ls : List Line}
    (h : (ls.takeWhile (inBody col)).filter (!·.isComment) ≠ []) :
    col < firstColumn (ls.takeWhile (inBody col)) := by
  obtain ⟨l, rest, hfilter⟩ := List.exists_cons_of_ne_nil h
  have hfind : (ls.takeWhile (inBody col)).find? (!·.isComment) = some l := by
    rw [← List.head?_filter, hfilter]
    rfl
  have hbody : inBody col l := List.mem_takeWhile_imp (List.mem_of_find?_eq_some hfind)
  have hcomment : l.isComment = false := by simpa using List.find?_some hfind
  rw [firstColumn, hfind]
  simpa [inBody, hcomment] using hbody

/-- What is read as one block is indented as its columns show. -/
theorem Shows.indented_of_reads {reader : LineReader α β} {leaf : α → Option Written}
    {header : β → Written} {line : Line → Option Written} (h : reader.Shows leaf header line)
    (hline : ∀ l, ∀ s ∈ line l, s.pos.col = l.col) {col : Nat} {ls : List Line} {f : Forest α β}
    (hf : reader.Reads col ls f) : f.Indented leaf header col := by
  induction hf with
  | nil => trivial
  | comment hl _ ih => exact ⟨by simp [h.comment], ih⟩
  | leaf hl hentry _ ih =>
    refine ⟨fun s hs => ?_, ih⟩
    exact hline _ s ((h.of_entry hentry).2 ▸ hs)
  | @block l ls b bodiless name body rest hl hentry hbody hany _ ihbody ihrest =>
    have hne := (h.anyStatement_iff body).mp hany
    have hdeeper : l.col < firstColumn (ls.takeWhile (inBody l.col)) := by
      refine lt_firstColumn fun hnil => hne ?_
      have hshown := h.inOrder_of_reads hbody
      rwa [hnil, List.map_nil, List.map_eq_nil_iff] at hshown
    exact ⟨hline l _ (h.of_entry hentry).1, hne, ⟨_, hdeeper, ihbody⟩, ihrest⟩
  | bodiless hl hentry _ _ _ _ ihrest =>
    refine ⟨fun s hs => ?_, ihrest⟩
    exact hline _ s ((h.of_entry hentry).2 _ rfl ▸ hs)

end LineReader

/-- The lines of a text that are neither blank nor comments, with their numbers. -/
def statementLines (src : String) : List (List Char × Nat) :=
  ((lines src.toList).zipIdx 1).filter (isStatement ·.1)

/-- Whether a statement is what a numbered line of a file says. -/
def Written.IsLine (file : String) (s : Written) (l : List Char × Nat) : Prop :=
  s.pos = ⟨file, l.2, indentColumn 0 l.1⟩ ∧ words? (withoutReturn l.1) = some s.words

/-- A forest with the statements of a text and the blocks that its columns show. -/
structure Forest.Mirrors (leaf : α → Option Written) (header : β → Written) (file src : String)
    (f : Forest α β) : Prop where
  lines : List.Forall₂ (Written.IsLine file) (f.inOrder leaf header) (statementLines src)
  indented : ∃ col, f.Indented leaf header col

theorem LineReader.Shows.mirrors {reader : LineReader α β} {leaf : α → Option Written}
    {header : β → Written} {file src : String} {f : Forest α β}
    (h : reader.Shows leaf header (·.written? file))
    (hf : reader.forest file src = .ok f) : f.Mirrors leaf header file src := by
  have hblock := (LineReader.reads_iff file).mpr hf
  have hcol (l : Line) : ∀ s ∈ l.written? file, s.pos.col = l.col := by
    rintro s hs
    obtain ⟨words, _, rfl⟩ := Option.map_eq_some_iff.mp hs
    rfl
  refine ⟨?_, _, h.indented_of_reads hcol hblock⟩
  have hshown := h.inOrder_of_reads hblock
  rw [show Line.ofSource src = linesFrom 1 (Text.lines src.toList) from rfl, filter_linesFrom,
    List.map_map, ← List.forall₂_eq_eq_eq, List.forall₂_map_left_iff,
    List.forall₂_map_right_iff] at hshown
  refine hshown.imp fun s l hs => ?_
  obtain ⟨words, hwords, hpos⟩ := Option.map_eq_some_iff.mp hs.symm
  rw [← hpos]
  exact ⟨rfl, hwords⟩

/-- A command has an argument, and a line at its place says what it says. -/
def Command.OnLine (file src : String) (c : Command) : Prop :=
  c.args ≠ [] ∧ ∃ l ∈ statementLines src, Written.IsLine file ⟨c.pos, "@" :: c.name :: c.args⟩ l

private theorem Forest.Mirrors.onLine {leaf : α → Option Written} {header : β → Written}
    {file src : String} {f : Forest α β} (h : f.Mirrors leaf header file src) {a : α} {c : Command}
    (ha : a ∈ f.leaves) (hc : leaf a = some ⟨c.pos, "@" :: c.name :: c.args⟩) :
    c.OnLine file src :=
  ⟨List.cons_ne_nil _ _, Grammar.exists_mem_of_forall₂ h.lines (mem_inOrder_of_mem_leaves ha hc)⟩

/-- A forest that was read has the statements of its text in their order, one for each line that is
neither blank nor a comment, and the blocks that the columns of these lines show. Every command has
an argument on its line. -/
theorem read_forests_mirror_lines (file src : String) :
    (∀ f : Survey, Survey.ofText file src = .ok f →
      f.Mirrors SurveyLeaf.written? SurveyHeader.written file src ∧
        ∀ c ∈ f.commands, c.OnLine file src) ∧
    ∀ f : Choices, Choices.ofText file src = .ok f →
      f.Mirrors ChoicesLeaf.written? ChoiceList.written file src ∧
        ∀ c ∈ f.commands, c.OnLine file src := by
  constructor
  · intro f hf
    have hmirrors := (surveyReader_shows file).mirrors hf
    refine ⟨hmirrors, fun c hc => ?_⟩
    obtain ⟨a, ha, hac⟩ := List.mem_filterMap.mp hc
    cases a with
    | comment => cases hac
    | question q => cases hac
    | command c => cases hac; exact hmirrors.onLine ha rfl
  · intro f hf
    have hmirrors := (choicesReader_shows file).mirrors hf
    refine ⟨hmirrors, fun c hc => ?_⟩
    obtain ⟨a, ha, hac⟩ := List.mem_filterMap.mp hc
    cases a with
    | comment => cases hac
    | choice choice => cases hac
    | command c => cases hac; exact hmirrors.onLine ha rfl

/-- A survey with tabs, blank lines and comments at any column. The `repeat` without a body is a
question of this name. -/
private def tabbedText : String :=
  "# form\n\n\tgroup g: # here\n\t# inside\n\n\t  repeat integer:\n  # outside\n \n" ++
  "\t  if . > 1:\n\t\tq text: \"L\"\r\n\t@form f 1"

private def tabbedSurvey : Survey :=
  let pos (line col : Nat) : Position := ⟨"f", line, col⟩
  .leaf (.comment (pos 1 1) "form")
    (.block (.group ⟨pos 3 9, .group, "g", none, [], none⟩)
      (.leaf (.comment (pos 4 9) "inside")
        (.leaf (.question ⟨pos 6 11, "repeat", ["integer"], none, []⟩)
          (.block (.conditional (pos 9 11) (.comparison "." ">" "1"))
            (.leaf (.question ⟨pos 10 17, "q", ["text"], some "L", []⟩) .nil) .nil)))
      (.leaf (.command ⟨pos 11 9, "form", "f", ["1"]⟩) .nil))

private def tabbedChoices : Choices :=
  let pos (line col : Nat) : Position := ⟨"c", line, col⟩
  .block ⟨pos 1 1, "colors", []⟩
    (.leaf (.comment (pos 2 3) "warm") (.leaf (.choice ⟨pos 3 9, "1", "Red", []⟩) .nil))
    (.leaf (.command ⟨pos 5 1, "include", "x", []⟩) .nil)

theorem tabbed_forests_mirror_lines :
    Survey.ofText "f" tabbedText = .ok tabbedSurvey ∧
      tabbedSurvey.Mirrors SurveyLeaf.written? SurveyHeader.written "f" tabbedText ∧
      (statementLines tabbedText).map (·.2) = [3, 6, 9, 10, 11] ∧
      tabbedChoices.Mirrors ChoicesLeaf.written? ChoiceList.written "c"
        "list colors:\n  # warm\n\t1 \"Red\"\n\n@include x" := by
  have hsurvey : Survey.ofText "f" tabbedText = .ok tabbedSurvey := by decide +kernel
  have hchoices : Choices.ofText "c" "list colors:\n  # warm\n\t1 \"Red\"\n\n@include x" =
      .ok tabbedChoices := by decide +kernel
  exact ⟨hsurvey, ((read_forests_mirror_lines _ _).1 _ hsurvey).1, by decide +kernel,
    ((read_forests_mirror_lines _ _).2 _ hchoices).1⟩

end SurveyForms
