import SurveyForms.Proofs.Writing

/-! Forests written as text: a statement a line, bodies deeper than their headers. Main statement:
every survey that can be written is read back from its text, with each statement at the place
where it was written. -/
namespace SurveyForms

open Source Text

namespace Forest

variable {α β : Type}

def size : Forest α β → Nat
  | .nil => 0
  | .leaf _ rest => rest.size + 1
  | .block _ body rest => body.size + rest.size + 1

def texts (leaf : α → List Char) (header : β → List Char) : Forest α β → List (List Char)
  | .nil => []
  | .leaf a rest => leaf a :: rest.texts leaf header
  | .block h body rest => header h :: (body.texts leaf header ++ rest.texts leaf header)

/-- Changes each statement by its number, counted in source order from `n` on. -/
def number (leaf : Nat → α → α) (header : Nat → β → β) : Nat → Forest α β → Forest α β
  | _, .nil => .nil
  | n, .leaf a rest => .leaf (leaf n a) (rest.number leaf header (n + 1))
  | n, .block h body rest =>
    .block (header n h) (body.number leaf header (n + 1))
      (rest.number leaf header (n + 1 + body.size))

/-- All statements pass their test, and no block is empty. -/
def All (p : α → Prop) (q : β → Prop) : Forest α β → Prop
  | .nil => True
  | .leaf a rest => p a ∧ rest.All p q
  | .block h body rest => q h ∧ body ≠ .nil ∧ body.All p q ∧ rest.All p q

/-- Whether indentations show the blocks of a forest that starts on line `n` at depth `depth`: the
statements of a block share one depth, and a body is deeper than its header. -/
def Fits (indent : Nat → Nat) : Nat → Nat → Forest α β → Prop
  | _, _, .nil => True
  | n, depth, .leaf _ rest => indent n = depth ∧ rest.Fits indent (n + 1) depth
  | n, depth, .block _ body rest =>
    indent n = depth ∧ depth < indent (n + 1) ∧ body.Fits indent (n + 1) (indent (n + 1)) ∧
      rest.Fits indent (n + 1 + body.size) depth

theorem length_texts (leaf : α → List Char) (header : β → List Char) (f : Forest α β) :
    (f.texts leaf header).length = f.size := by
  induction f with
  | nil => rfl
  | leaf a rest ih => simp [texts, size, ih]
  | block h body rest ihbody ihrest => simp [texts, size, ihbody, ihrest]

theorem of_mem_texts {p : α → Prop} {q : β → Prop} {leaf : α → List Char} {header : β → List Char}
    {P : List Char → Prop} {f : Forest α β} (hf : f.All p q) (hleaf : ∀ {a}, p a → P (leaf a))
    (hheader : ∀ {h}, q h → P (header h)) : ∀ text ∈ f.texts leaf header, P text := by
  induction f with
  | nil => intro text htext; cases htext
  | leaf a rest ih => exact List.forall_mem_cons.mpr ⟨hleaf hf.1, ih hf.2⟩
  | block h body rest ihbody ihrest =>
    obtain ⟨hh, _, hbody, hrest⟩ := hf
    rw [texts, List.forall_mem_cons, List.forall_mem_append]
    exact ⟨hheader hh, ihbody hbody, ihrest hrest⟩

end Forest

/-- How the statements of a source language are written, and how they are moved. -/
structure LineWriter (α β : Type) where
  leaf : α → List Char
  header : β → List Char
  leafAt : Position → α → α
  headerAt : Position → β → β

namespace LineWriter

variable {α β : Type} (w : LineWriter α β) (indent : Nat → Nat)

def lines (n : Nat) (f : Forest α β) : List (List Char) :=
  ((f.texts w.leaf w.header).zipIdx n).map fun (text, n) => List.replicate (indent n) ' ' ++ text

/-- A forest with its statements at the places where they are written. -/
def placed (file : String) (n : Nat) (f : Forest α β) : Forest α β :=
  f.number (fun n => w.leafAt ⟨file, n, indent n + 1⟩) (fun n => w.headerAt ⟨file, n, indent n + 1⟩)
    n

/-- A forest as text, with any number of line breaks at its end. -/
def text (f : Forest α β) (breaks : Nat) : String :=
  String.ofList (unlines (w.lines indent 1 f ++ List.replicate breaks []))

theorem lines_leaf (n : Nat) (a : α) (rest : Forest α β) : w.lines indent n (.leaf a rest) =
    (List.replicate (indent n) ' ' ++ w.leaf a) :: w.lines indent (n + 1) rest := rfl

theorem lines_block (n : Nat) (h : β) (body rest : Forest α β) :
    w.lines indent n (.block h body rest) =
      (List.replicate (indent n) ' ' ++ w.header h) :: (w.lines indent (n + 1) body ++
        w.lines indent (n + 1 + body.size) rest) := by
  simp only [lines, Forest.texts, List.zipIdx_cons, List.map_cons, List.zipIdx_append,
    List.map_append, Forest.length_texts]

theorem length_lines (n : Nat) (f : Forest α β) : (w.lines indent n f).length = f.size := by
  rw [lines, List.length_map, List.length_zipIdx, Forest.length_texts]

theorem exists_of_mem_lines {n : Nat} {f : Forest α β} {l : List Char}
    (h : l ∈ w.lines indent n f) : ∃ text ∈ f.texts w.leaf w.header, ∃ depth,
      l = List.replicate depth ' ' ++ text := by
  obtain ⟨⟨text, k⟩, hmem, rfl⟩ := List.mem_map.mp h
  exact ⟨text, List.fst_mem_of_mem_zipIdx hmem, indent k, rfl⟩

end LineWriter

/-- Lines that are put together and cut again carry the same statements. -/
theorem linesFrom_lines_unlines {ls : List (List Char)} (h : ∀ l ∈ ls, '\n' ∉ l) (n : Nat) :
    linesFrom n (lines (unlines ls)) = linesFrom n ls := by
  by_cases hnil : ls = []
  · subst hnil
    rfl
  · rw [lines, unlines, cut_glue hnil h]

theorem linesFrom_blank (n breaks : Nat) : linesFrom n (List.replicate breaks []) = [] := by
  induction breaks generalizing n with
  | zero => rfl
  | succ breaks ih =>
    rw [List.replicate_succ, linesFrom_cons, ih]
    rfl

/-- The text of a statement: one line that is neither blank nor a comment, with nothing to cut off
at its ends. -/
structure Tidy (text : List Char) : Prop where
  nonempty : text ≠ []
  first : ∀ c ∈ text.head?, ¬ isBlank c ∧ c ≠ '#'
  last : ∀ c ∈ text.getLast?, ¬ isBlank c
  unbroken : '\n' ∉ text

theorem Tidy.begins {text : List Char} (h : Tidy text) (depth : Nat) :
    Begins (List.replicate depth ' ' ++ text) := by
  obtain ⟨c, rest, rfl⟩ := List.exists_cons_of_ne_nil h.nonempty
  refine ⟨_, c, rest, rfl, fun b hb => ?_, h.first c rfl⟩
  rw [List.eq_of_mem_replicate hb]
  rfl

theorem Tidy.contentOf {text : List Char} (h : Tidy text) (depth : Nat) :
    contentOf (List.replicate depth ' ' ++ text) = text := by
  obtain ⟨c, rest, rfl⟩ := List.exists_cons_of_ne_nil h.nonempty
  have hindent : ∀ b ∈ List.replicate depth ' ', isIndent b := by
    intro b hb
    rw [List.eq_of_mem_replicate hb]
    rfl
  have hc : ¬ isIndent c := fun hc => (h.first c rfl).1 (isBlank_of_isIndent hc)
  rw [Source.contentOf, List.dropWhile_append_of_pos hindent, List.dropWhile_cons_of_neg hc]

theorem tidy_spaced {ls : List Lexeme} (h : ∀ l ∈ ls, l.Plain) (hne : ls ≠ []) :
    Tidy (spaced ls) := by
  refine ⟨?_, first_spaced h, last_spaced h, break_not_mem_spaced h⟩
  obtain ⟨l, ls, rfl⟩ := List.exists_cons_of_ne_nil hne
  rw [spaced_cons]
  exact List.append_ne_nil_of_left_ne_nil (raw_ne_nil_of_lexeme? (h l (by simp)).self) _

private theorem indentColumn_replicate {c : Char} (hc : ¬ isBlank c) (rest : List Char)
    (depth width : Nat) :
    indentColumn width (List.replicate depth ' ' ++ c :: rest) = width + depth + 1 := by
  induction depth generalizing width with
  | zero =>
    rw [List.replicate_zero, List.nil_append, indentColumn]
    · rintro cs ⟨⟩
      exact hc rfl
    · rintro cs ⟨⟩
      exact hc rfl
  | succ depth ih =>
    rw [List.replicate_succ, List.cons_append, indentColumn, ih]
    omega

/-- The line of a tidy text. -/
theorem Tidy.ofText? {text : List Char} (h : Tidy text) (n depth : Nat) :
    Line.ofText? n (List.replicate depth ' ' ++ text) =
      some ⟨n, depth + 1, List.replicate depth ' ' ++ text⟩ := by
  have hlast : ∀ c ∈ (List.replicate depth ' ' ++ text).getLast?, c ≠ '\r' := by
    rw [List.getLast?_append_of_ne_nil _ h.nonempty]
    rintro c hc rfl
    exact h.last _ hc rfl
  have hline := ofText?_append (h.begins depth) [] (.inr hlast) n
  obtain ⟨c, rest, rfl⟩ := List.exists_cons_of_ne_nil h.nonempty
  rw [indentColumn_replicate (h.first c rfl).1, List.append_nil] at hline
  simpa [withoutReturn] using hline

/-- A reader that gets back what a writer wrote, for the statements that pass the tests. -/
structure LineReader.Inverts (reader : LineReader α β) (w : LineWriter α β) (file : String)
    (p : α → Prop) (q : β → Prop) : Prop where
  leaf : ∀ {a}, p a → ∀ n depth, (reader.entry ⟨n, depth + 1, List.replicate depth ' ' ++
    w.leaf a⟩).toOption = some (.leaf (w.leafAt ⟨file, n, depth + 1⟩ a))
  header : ∀ {h}, q h → ∀ n depth, ∃ bodiless name, (reader.entry ⟨n, depth + 1,
    List.replicate depth ' ' ++ w.header h⟩).toOption =
      some (.header (w.headerAt ⟨file, n, depth + 1⟩ h) bodiless name)
  isComment : ∀ {a}, p a → ∀ pos, reader.isComment (w.leafAt pos a) = false
  tidyLeaf : ∀ {a}, p a → Tidy (w.leaf a)
  tidyHeader : ∀ {h}, q h → Tidy (w.header h)

namespace LineReader

variable {α β : Type} {reader : LineReader α β} {w : LineWriter α β} {file : String}
  {p : α → Prop} {q : β → Prop}

private theorem span_of_head {p : Line → Bool} {ls : List Line} (h : ∀ l ∈ ls.head?, ¬ p l) :
    ls.takeWhile p = [] ∧ ls.dropWhile p = ls := by
  cases ls with
  | nil => exact ⟨rfl, rfl⟩
  | cons l ls => simp [h l rfl]

section Lines

variable (inv : reader.Inverts w file p q) (indent : Nat → Nat)

include inv

private theorem linesFrom_leaf {a : α} (ha : p a) (n : Nat) (rest : Forest α β) :
    linesFrom n (w.lines indent n (.leaf a rest)) =
      ⟨n, indent n + 1, List.replicate (indent n) ' ' ++ w.leaf a⟩ ::
        linesFrom (n + 1) (w.lines indent (n + 1) rest) := by
  rw [w.lines_leaf, linesFrom_cons, (inv.tidyLeaf ha).ofText?]
  rfl

private theorem linesFrom_block {h : β} (hh : q h) (n : Nat) (body rest : Forest α β) :
    linesFrom n (w.lines indent n (.block h body rest)) =
      ⟨n, indent n + 1, List.replicate (indent n) ' ' ++ w.header h⟩ ::
        (linesFrom (n + 1) (w.lines indent (n + 1) body) ++
          linesFrom (n + 1 + body.size) (w.lines indent (n + 1 + body.size) rest)) := by
  rw [w.lines_block, linesFrom_cons, (inv.tidyHeader hh).ofText?, linesFrom_append, w.length_lines]
  rfl

/-- The first line of a forest is a statement at its depth. -/
private theorem head_linesFrom {f : Forest α β} (hf : f.All p q) {n depth : Nat}
    (hfits : f.Fits indent n depth) : ∀ l ∈ (linesFrom n (w.lines indent n f)).head?,
      l.isComment = false ∧ l.col = depth + 1 := by
  cases f with
  | nil => intro l hl; cases hl
  | leaf a rest =>
    rw [linesFrom_leaf inv indent hf.1]
    rintro l ⟨⟩
    exact ⟨isComment_of_begins ((inv.tidyLeaf hf.1).begins _) _ _, by rw [hfits.1]⟩
  | block h body rest =>
    rw [linesFrom_block inv indent hf.1]
    rintro l ⟨⟩
    exact ⟨isComment_of_begins ((inv.tidyHeader hf.1).begins _) _ _, by rw [hfits.1]⟩

/-- No line of a forest is less deep than its first. -/
private theorem depth_lt_of_mem {f : Forest α β} (hf : f.All p q) {n depth : Nat}
    (hfits : f.Fits indent n depth) :
    ∀ l ∈ linesFrom n (w.lines indent n f), depth < l.col := by
  induction f generalizing n depth with
  | nil => intro l hl; cases hl
  | leaf a rest ih =>
    rw [linesFrom_leaf inv indent hf.1, List.forall_mem_cons]
    refine ⟨?_, ih hf.2 hfits.2⟩
    show depth < indent n + 1
    rw [hfits.1]
    omega
  | block h body rest ihbody ihrest =>
    obtain ⟨hh, _, hbody, hrest⟩ := hf
    obtain ⟨hdepth, hdeeper, hfbody, hfrest⟩ := hfits
    rw [linesFrom_block inv indent hh, List.forall_mem_cons, List.forall_mem_append]
    refine ⟨?_, fun l hl => ?_, ihrest hrest hfrest⟩
    · show depth < indent n + 1
      rw [hdepth]
      omega
    · exact hdeeper.trans (ihbody hbody hfbody l hl)

private theorem firstColumn_linesFrom {f : Forest α β} (hf : f.All p q) (hne : f ≠ .nil)
    {n depth : Nat} (hfits : f.Fits indent n depth) :
    firstColumn (linesFrom n (w.lines indent n f)) = depth + 1 := by
  have hhead := head_linesFrom inv indent hf hfits
  cases hlines : linesFrom n (w.lines indent n f) with
  | nil =>
    cases f with
    | nil => exact absurd rfl hne
    | leaf a rest => rw [linesFrom_leaf inv indent hf.1] at hlines; cases hlines
    | block h body rest => rw [linesFrom_block inv indent hf.1] at hlines; cases hlines
  | cons l ls =>
    rw [hlines] at hhead
    obtain ⟨hcomment, hcol⟩ := hhead l rfl
    simp [firstColumn, hcomment, hcol]

private theorem anyStatement_placed {f : Forest α β} (hf : f.All p q) (hne : f ≠ .nil) (n : Nat) :
    (w.placed indent file n f).anyStatement (!reader.isComment ·) := by
  cases f with
  | nil => exact absurd rfl hne
  | leaf a rest =>
    simp [LineWriter.placed, Forest.number, Forest.anyStatement, inv.isComment hf.1]
  | block h body rest => rfl

/-- The lines of a forest are read as that forest. -/
theorem reads_lines {f : Forest α β} (hf : f.All p q) {n depth : Nat}
    (hfits : f.Fits indent n depth) :
    reader.Reads (depth + 1) (linesFrom n (w.lines indent n f)) (w.placed indent file n f) := by
  induction f generalizing n depth with
  | nil => exact .nil
  | leaf a rest ih =>
    obtain ⟨ha, hrest⟩ := hf
    obtain ⟨rfl, hfrest⟩ := hfits
    have hcomment := isComment_of_begins ((inv.tidyLeaf ha).begins (indent n)) n (indent n + 1)
    rw [linesFrom_leaf inv indent ha]
    exact .leaf hcomment (eq_ok_of_toOption (inv.leaf ha n (indent n))) (ih hrest hfrest)
  | block h body rest ihbody ihrest =>
    obtain ⟨hh, hne, hbody, hrest⟩ := hf
    obtain ⟨rfl, hdeeper, hfbody, hfrest⟩ := hfits
    have hcomment := isComment_of_begins ((inv.tidyHeader hh).begins (indent n)) n (indent n + 1)
    obtain ⟨bodiless, name, hentry⟩ := inv.header hh n (indent n)
    -- the body is what is deeper than the header, up to the next statement at its depth
    have hinside : ∀ l ∈ linesFrom (n + 1) (w.lines indent (n + 1) body),
        inBody (indent n + 1) l := by
      intro l hl
      have := depth_lt_of_mem inv indent hbody hfbody l hl
      simp only [inBody, Bool.or_eq_true, decide_eq_true_eq]
      omega
    have houtside : ∀ l ∈ (linesFrom (n + 1 + body.size) (w.lines indent (n + 1 + body.size)
        rest)).head?, ¬ inBody (indent n + 1) l := by
      intro l hl
      obtain ⟨hl, hcol⟩ := head_linesFrom inv indent hrest hfrest l hl
      simp [inBody, hl, hcol]
    rw [linesFrom_block inv indent hh]
    refine .block hcomment (eq_ok_of_toOption hentry) ?_
      (anyStatement_placed inv indent hbody hne (n + 1)) ?_
    · simp only [List.takeWhile_append_of_pos hinside, (span_of_head houtside).1, List.append_nil,
        firstColumn_linesFrom inv indent hbody hne hfbody]
      exact ihbody hbody hfbody
    · simp only [List.dropWhile_append_of_pos hinside, (span_of_head houtside).2]
      exact ihrest hrest hfrest

private theorem break_not_mem_text {f : Forest α β} (hf : f.All p q) (breaks : Nat) :
    ∀ l ∈ w.lines indent 1 f ++ List.replicate breaks [], '\n' ∉ l := by
  rw [List.forall_mem_append]
  refine ⟨fun l hl hmem => ?_, fun l hl => by simp [List.eq_of_mem_replicate hl]⟩
  obtain ⟨text, htext, depth, rfl⟩ := w.exists_of_mem_lines indent hl
  have htidy := Forest.of_mem_texts hf inv.tidyLeaf inv.tidyHeader text htext
  rcases List.mem_append.mp hmem with hmem | hmem
  · exact absurd (List.eq_of_mem_replicate hmem) (by decide)
  · exact htidy.unbroken hmem

/-- The lines of a text, apart from empty ones, are those that were written. -/
theorem exists_of_mem_text {f : Forest α β} (hf : f.All p q) {breaks : Nat} {l : List Char}
    (hl : l ∈ Text.lines (w.text indent f breaks).toList) :
    l = [] ∨ ∃ text ∈ f.texts w.leaf w.header, Tidy text ∧ contentOf l = text := by
  have hbreak := break_not_mem_text inv indent hf breaks
  rw [LineWriter.text, String.toList_ofList] at hl
  by_cases hnil : w.lines indent 1 f ++ List.replicate breaks [] = []
  · rw [hnil] at hl
    exact .inl (List.mem_singleton.mp hl)
  rw [Text.lines, unlines, cut_glue hnil hbreak, List.mem_append] at hl
  rcases hl with hl | hl
  · obtain ⟨text, htext, depth, rfl⟩ := w.exists_of_mem_lines indent hl
    have htidy := Forest.of_mem_texts hf inv.tidyLeaf inv.tidyHeader text htext
    exact .inr ⟨text, htext, htidy, htidy.contentOf depth⟩
  · exact .inl (List.eq_of_mem_replicate hl)

/-- A forest is read back from its text. -/
theorem forest?_text {f : Forest α β} (hf : f.All p q) (hfits : f.Fits indent 1 (indent 1))
    (breaks : Nat) :
    reader.forest? file (linesFrom 1 (Text.lines (w.text indent f breaks).toList)) =
      some (w.placed indent file 1 f) := by
  have hbreak := break_not_mem_text inv indent hf breaks
  rw [LineWriter.text, String.toList_ofList, linesFrom_lines_unlines hbreak, linesFrom_append,
    linesFrom_blank, List.append_nil, forest?]
  by_cases hnil : f = .nil
  · subst hnil
    show (reader.block file _ []).toOption = _
    rw [block_nil]
    rfl
  · rw [firstColumn_linesFrom inv indent hf hnil hfits]
    exact (reads_iff_toOption file).mp (reads_lines inv indent hf hfits)

end Lines
end LineReader

open Grammar (SurveyLine parseLine surveyLine)
open LineReader (forest?_text exists_of_mem_text)

def SurveyLeaf.line? : SurveyLeaf → Option SurveyLine
  | .comment _ _ => none
  | .command c => some (.command c.name c.first c.others)
  | .question q => some (.question q.name q.type q.label q.params)

def SurveyHeader.line : SurveyHeader → SurveyLine
  | .conditional _ c => .conditional c
  | .group g => .group g.kind g.name g.label g.params g.condition

def surveyWriter : LineWriter SurveyLeaf SurveyHeader where
  leaf a := (a.line?.map (·.text)).getD []
  header h := h.line.text
  leafAt pos
    | .comment _ text => .comment pos text
    | .command c => .command { c with pos }
    | .question q => .question { q with pos }
  headerAt pos
    | .conditional _ c => .conditional pos c
    | .group g => .group { g with pos }

/-- A survey that can be written: without comments and without empty blocks, and every line of it
can be written. -/
def Survey.Expressible (f : Survey) : Prop :=
  f.All (fun a => ∃ line ∈ a.line?, line.Expressible) fun h => h.line.Expressible

private theorem tidy_text {line : SurveyLine} (h : line.Expressible) : Tidy line.text :=
  tidy_spaced (Grammar.SurveyLine.plain_lexemes h) (by cases line <;> exact List.cons_ne_nil _ _)

private theorem leaf_of_line {a : SurveyLeaf} {line : SurveyLine} (h : line ∈ a.line?) :
    surveyWriter.leaf a = line.text := by
  show (a.line?.map (·.text)).getD [] = line.text
  rw [h]
  rfl

/-- What is written as a survey line is read as it was. -/
theorem surveyReader_inverts (file : String) : (surveyReader file).Inverts surveyWriter file
    (fun a => ∃ line ∈ a.line?, line.Expressible) fun h => h.line.Expressible := by
  have hparse {line : SurveyLine} (h : line.Expressible) (depth : Nat) :
      parseLine surveyLine (List.replicate depth ' ' ++ line.text) = .ok line := by
    refine eq_ok_of_toOption (Grammar.SurveyLine.parseLine_text h fun b hb => ?_)
    rw [List.eq_of_mem_replicate hb]
    rfl
  constructor
  case leaf =>
    rintro a ⟨line, hline, h⟩ n depth
    rw [leaf_of_line hline]
    cases a with
    | comment => cases hline
    | command c => cases hline; simp only [surveyReader, hparse h]; rfl
    | question q => cases hline; simp only [surveyReader, hparse h]; rfl
  case header =>
    intro header h n depth
    cases header with
    | conditional pos c =>
      exact ⟨none, "if", by simp only [surveyReader, surveyWriter, hparse h]; rfl⟩
    | group g =>
      exact ⟨_, _, by simp only [surveyReader, surveyWriter, hparse h]; rfl⟩
  case isComment =>
    rintro a ⟨line, hline, _⟩ pos
    cases a with
    | comment => cases hline
    | command c => rfl
    | question q => rfl
  case tidyLeaf =>
    rintro a ⟨line, hline, h⟩
    rw [leaf_of_line hline]
    exact tidy_text h
  case tidyHeader => exact tidy_text

/-- Joining keeps a written survey: its headers start with a block word and a space, and other
lines have no deeper lines below them. -/
private theorem foldContinuations_text {f : Survey} (hf : f.Expressible) {indent : Nat → Nat}
    (hfits : f.Fits indent 1 (indent 1)) (breaks : Nat) :
    foldContinuations (surveyWriter.text indent f breaks) = surveyWriter.text indent f breaks := by
  have hread := forest?_text (surveyReader_inverts "") indent hf hfits breaks
  rw [foldContinuations_eq_self_iff, isChain_joins_iff_swallows hread,
    List.isChain_iff_forall_rel_of_append_cons_cons]
  rintro line next pre rest hlines ⟨htight, _⟩
  have hmem : line ∈ lines (surveyWriter.text indent f breaks).toList := by simp [hlines]
  obtain rfl | ⟨text, htext, _, hcontent⟩ :=
    exists_of_mem_text (surveyReader_inverts "") indent hf hmem
  · cases htight
  · have hloose : ∀ text ∈ f.texts surveyWriter.leaf surveyWriter.header, ¬ isTight text := by
      refine Forest.of_mem_texts hf ?_ Grammar.SurveyLine.not_isTight_text
      rintro a ⟨line, hline, h⟩
      rw [leaf_of_line hline]
      exact Grammar.SurveyLine.not_isTight_text h
    exact hloose text htext (hcontent ▸ htight)

/-- Every survey that can be written is read back from its text, at any indentation that shows its
blocks, with the line and the column of every statement. -/
theorem Survey.ofSource_text {f : Survey} (hf : f.Expressible) {indent : Nat → Nat}
    (hfits : f.Fits indent 1 (indent 1)) (breaks : Nat) (file : String) :
    Survey.ofSource file (surveyWriter.text indent f breaks) =
      .ok (surveyWriter.placed indent file 1 f) := by
  rw [Survey.ofSource, foldContinuations_text hf hfits]
  exact eq_ok_of_toOption (forest?_text (surveyReader_inverts file) indent hf hfits breaks)

/-- A survey whose strings look like marks and words of the grammar, with a question that is
called `if`. -/
def markedSurvey (pos : Nat → Nat → Position) : Survey :=
  .block (.group ⟨pos 1 1, .group, "g", some ":", [⟨"if", "if"⟩],
      some (.comparison "." "!=" "a\n\"")⟩)
    (.leaf (.question ⟨pos 2 5, "if", ["integer"], some "@", []⟩)
      (.block (.conditional (pos 3 5) (.comparison (reference "x") ">=" ""))
        (.leaf (.question ⟨pos 4 6, "q", ["note"], none, [⟨"group", "#"⟩]⟩) .nil) .nil))
    (.block (.conditional (pos 5 1) (.literal "."))
      (.leaf (.command ⟨pos 6 2, "form", "", ["list"]⟩) .nil) .nil)

def markedText : String :=
  "group g \":\" if \"if\" if . != \"a\\n\\\"\" :\n    if integer : \"@\"\n" ++
  "    if $\x7bx\x7d >= \"\" :\n     q note : group \"#\"\n" ++
  "if \".\" :\n @ form \"\" \"list\"\n"

theorem markedSurvey_read_back : Survey.ofSource "/form.comb" markedText =
    .ok (markedSurvey fun line col => ⟨"/form.comb", line, col⟩) := by
  let f := markedSurvey fun _ _ => default
  let indent (line : Nat) : Nat := [0, 4, 4, 5, 0, 1].getD (line - 1) 0
  have hgroup : ∀ c ∈ some (Condition.comparison "." "!=" "a\n\""),
      c.Expressible ∧ c.isComparison := by
    rintro c ⟨⟩
    exact ⟨⟨.inl rfl, by decide⟩, rfl⟩
  have hx : (Condition.comparison (reference "x") ">=" "").Expressible :=
    ⟨.inr ⟨"x", by decide, rfl⟩, by decide⟩
  have hf : f.Expressible := by
    refine ⟨⟨by decide, by decide, hgroup⟩, by decide, ⟨⟨_, rfl, ?_⟩, ⟨hx, by decide,
      ⟨⟨_, rfl, ?_⟩, trivial⟩, trivial⟩⟩, trivial, by decide, ⟨⟨_, rfl, ?_⟩, trivial⟩, trivial⟩
    · exact ⟨by decide, by decide, by decide, by decide, by decide, by decide⟩
    · exact ⟨by decide, by decide, by decide, by decide, by decide, by decide⟩
    · exact (by decide : isIdentifier "form")
  have hfits : f.Fits indent 1 (indent 1) := by
    simp [f, markedSurvey, indent, Forest.Fits, Forest.size]
  have htext : surveyWriter.text indent f 1 = markedText := by decide +kernel
  rw [← htext]
  exact Survey.ofSource_text hf hfits 1 "/form.comb"

end SurveyForms
