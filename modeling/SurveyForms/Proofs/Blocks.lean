import Mathlib.Data.List.Forall2
import SurveyForms.Proofs.BlockViews
import SurveyForms.Proofs.Spelling

/-! What the forest of a source depends on. Two sources whose lines agree in column and entry have
the same forest or are both refused, and a forest spells, in order, every line that is not a
comment. -/
namespace SurveyForms

open Source (Line tokens? words?)

/-- Related lists are cut at the same place by a test that related elements share. -/
theorem forall₂_span {R : α → α → Prop} {p : α → Bool} (hp : ∀ a b, R a b → p a = p b)
    {l l' : List α} (h : List.Forall₂ R l l') :
    List.Forall₂ R (l.takeWhile p) (l'.takeWhile p) ∧
      List.Forall₂ R (l.dropWhile p) (l'.dropWhile p) := by
  induction h with
  | nil => exact ⟨.nil, .nil⟩
  | @cons a b l l' hab htail ih =>
    have heq := hp a b hab
    cases hb : p b with
    | true => simpa [heq, hb, hab] using ih
    | false => simpa [heq, hb, hab] using htail

namespace LineReader

/-- Lines that a reader cannot tell apart where it accepts them. -/
structure Alike (reader : LineReader α β) (l l' : Line) : Prop where
  col : l.col = l'.col
  isComment : l.isComment = l'.isComment
  comment : l.isComment → reader.comment l = reader.comment l'
  entry : (reader.entry l).toOption = (reader.entry l').toOption

theorem Alike.refl (reader : LineReader α β) (l : Line) : reader.Alike l l :=
  ⟨rfl, rfl, fun _ => rfl, rfl⟩

private theorem firstColumn_alike {reader : LineReader α β} {ls ls' : List Line}
    (h : List.Forall₂ reader.Alike ls ls') : firstColumn ls = firstColumn ls' := by
  induction h with
  | nil => rfl
  | @cons l l' ls ls' hl _ ih =>
    simp only [firstColumn, List.find?_cons, hl.isComment]
    cases l'.isComment with
    | true => exact ih
    | false => simp [hl.col]

theorem toOption_block_congr (reader : LineReader α β) (file : String) (col : Nat)
    {ls ls' : List Line} (h : List.Forall₂ reader.Alike ls ls') :
    (reader.block file col ls).toOption = (reader.block file col ls').toOption := by
  -- a view that tells refusals from each other no more
  let v : View α β Unit α β := ⟨reader, file, fun _ => (), id, id⟩
  have hentry {x x' : Except Diagnostic (Entry α β)} (hx : x.toOption = x'.toOption) :
      both v.fault (Entry.map id id) x = both v.fault (Entry.map id id) x' := by
    cases x <;> cases x' <;> first | rfl | cases hx
    rfl
  have htwins (l l' : Line) (hl : reader.Alike l l') : l.col = l'.col ∧ View.Twins v v l l' :=
    ⟨hl.col, hl.isComment, hl.comment, hentry hl.entry, fun _ _ => rfl⟩
  have hsame : View.SameComments v v := fun a a' ha => congrArg reader.isComment ha
  have halike := congrArg Except.toOption
    (View.block_eq_of_aligned hsame (View.aligned_of_forall₂ h htwins col))
  simpa only [View.block, both_toOption, v, funext Forest.map_id, Option.map_id'] using halike

/-- The forest of lines that are not inside a block, with refusals forgotten. -/
def forest? (reader : LineReader α β) (file : String) (ls : List Line) : Option (Forest α β) :=
  (reader.block file (firstColumn ls) ls).toOption

/-- A line by itself is a leaf, or a header without a body. -/
theorem forest?_singleton (reader : LineReader α β) (file : String) {l : Line}
    (hcomment : l.isComment = false) : reader.forest? file [l] =
      (reader.entry l).toOption.bind fun
        | .leaf a => some (.leaf a .nil)
        | .header _ bodiless _ => bodiless.map (.leaf · .nil) := by
  have hcol : firstColumn [l] = l.col := by simp [firstColumn, hcomment]
  rw [forest?, hcol]
  cases hentry : reader.entry l with
  | error d => rw [(Refuses.entry hcomment hentry).block_eq]; rfl
  | ok e =>
    cases e with
    | leaf a => rw [(Reads.leaf hcomment hentry .nil).block_eq]; rfl
    | header b bodiless name =>
      cases bodiless with
      | none => rw [(Refuses.missing hcomment hentry .nil rfl rfl).block_eq]; rfl
      | some a => rw [(Reads.bodiless hcomment hentry .nil rfl .nil).block_eq]; rfl

theorem forest?_congr (reader : LineReader α β) (file : String) {ls ls' : List Line}
    (h : List.Forall₂ reader.Alike ls ls') : reader.forest? file ls = reader.forest? file ls' := by
  rw [forest?, forest?, firstColumn_alike h]
  exact reader.toOption_block_congr file _ h

end LineReader

/-- What the statements of a forest show, in source order. Some leaves show nothing. -/
def Forest.inOrder (leaf : α → Option γ) (header : β → γ) : Forest α β → List γ
  | .nil => []
  | .leaf a rest => (leaf a).toList ++ rest.inOrder leaf header
  | .block h body rest => header h :: (body.inOrder leaf header ++ rest.inOrder leaf header)

/-- An entry that shows what its line shows, with a body and without. -/
def Entry.Shows (leaf : α → Option γ) (header : β → γ) (x : Option γ) : Entry α β → Prop
  | .leaf a => x.isSome ∧ leaf a = x
  | .header h bodiless _ => x = some (header h) ∧ ∀ a ∈ bodiless, leaf a = x

/-- Whatever is read from a line shows what the line shows; only comments show nothing. -/
structure LineReader.Shows (reader : LineReader α β) (leaf : α → Option γ) (header : β → γ)
    (line : Line → Option γ) : Prop where
  comment : ∀ l, leaf (reader.comment l) = none
  isComment : ∀ a, reader.isComment a = (leaf a).isNone
  entry : ∀ {l e}, (reader.entry l).toOption = some e → e.Shows leaf header (line l)

namespace LineReader.Shows

variable {reader : LineReader α β} {leaf : α → Option γ} {header : β → γ} {line : Line → Option γ}

theorem anyStatement_iff (h : reader.Shows leaf header line) (f : Forest α β) :
    f.anyStatement (!reader.isComment ·) = true ↔ f.inOrder leaf header ≠ [] := by
  induction f with
  | nil => simp [Forest.anyStatement, Forest.inOrder]
  | leaf a rest ih =>
    rw [Forest.anyStatement, Bool.or_eq_true, ih, h.isComment, Forest.inOrder]
    cases leaf a <;> simp
  | block header body rest => simp [Forest.anyStatement, Forest.inOrder]

theorem of_entry (h : reader.Shows leaf header line) {l : Line} {e : Entry α β}
    (he : reader.entry l = .ok e) : e.Shows leaf header (line l) :=
  h.entry (congrArg Except.toOption he)

/-- The statements of a block show what its lines show, comments left out. -/
theorem inOrder_of_reads (h : reader.Shows leaf header line) {col : Nat} {ls : List Line}
    {f : Forest α β} (hf : reader.Reads col ls f) :
    (f.inOrder leaf header).map some = (ls.filter (!·.isComment)).map line := by
  have hsplit (p : Line → Bool) (ls : List Line) : ls.filter (!·.isComment) =
      (ls.takeWhile p).filter (!·.isComment) ++ (ls.dropWhile p).filter (!·.isComment) := by
    rw [← List.filter_append, List.takeWhile_append_dropWhile]
  induction hf with
  | nil => rfl
  | comment hl _ ih =>
    rw [List.filter_cons_of_neg (by simp [hl]), ← ih, Forest.inOrder, h.comment]
    rfl
  | leaf hl hentry _ ih =>
    obtain ⟨hsome, hleaf⟩ := h.of_entry hentry
    obtain ⟨x, hx⟩ := Option.isSome_iff_exists.mp hsome
    rw [List.filter_cons_of_pos (by simp [hl]), List.map_cons, ← ih, Forest.inOrder, hleaf, hx]
    rfl
  | @block l ls _ _ _ _ _ hl hentry _ _ _ ihbody ihrest =>
    rw [List.filter_cons_of_pos (by simp [hl]), List.map_cons, hsplit (LineReader.inBody l.col) ls,
      List.map_append, ← ihbody, ← ihrest, Forest.inOrder, (h.of_entry hentry).1, List.map_cons,
      List.map_append]
  | @bodiless l ls _ a _ body _ hl hentry _ hnone _ ihbody ihrest =>
    obtain ⟨hline, hbodiless⟩ := h.of_entry hentry
    -- nothing but comments stood below the header
    have hempty : body.inOrder leaf header = [] :=
      not_not.mp ((h.anyStatement_iff body).not.mp (by simp [hnone]))
    rw [List.filter_cons_of_pos (by simp [hl]), List.map_cons, hsplit (LineReader.inBody l.col) ls,
      List.map_append, ← ihbody, ← ihrest, Forest.inOrder, hbodiless a rfl, hline, hempty]
    rfl

end LineReader.Shows

open Grammar (SurveyLine parseLine surveyLine questionLine)

private theorem bodilessQuestion_congr {l l' : Line} (htokens : tokens? l.text = tokens? l'.text)
    (pos : Position) (label : Option String) (params : List Param) (condition : Option Condition) :
    bodilessQuestion pos l label params condition =
      bodilessQuestion pos l' label params condition := by
  have hline : (parseLine questionLine l.text).toOption =
      (parseLine questionLine l'.text).toOption := by
    rw [Grammar.toOption_parseLine, Grammar.toOption_parseLine, htokens]
  unfold bodilessQuestion
  cases h : parseLine questionLine l.text with
  | error d =>
    cases h' : parseLine questionLine l'.text with
    | error d' => rfl
    | ok line' => rw [h, h'] at hline; cases hline
  | ok line =>
    cases h' : parseLine questionLine l'.text with
    | error d' => rw [h, h'] at hline; cases hline
    | ok line' => rw [h, h'] at hline; cases hline; rfl

/-- What a line contributes depends on its place and its tokens alone. -/
theorem toOption_entry_congr (file : String) {l l' : Line} (hnumber : l.number = l'.number)
    (hcol : l.col = l'.col) (htokens : tokens? l.text = tokens? l'.text) :
    ((surveyReader file).entry l).toOption = ((surveyReader file).entry l').toOption := by
  have hline : (parseLine surveyLine l.text).toOption =
      (parseLine surveyLine l'.text).toOption := by
    rw [Grammar.toOption_parseLine, Grammar.toOption_parseLine, htokens]
  simp only [surveyReader, hnumber, hcol, bodilessQuestion_congr htokens]
  cases h : parseLine surveyLine l.text with
  | error d =>
    cases h' : parseLine surveyLine l'.text with
    | error d' => rfl
    | ok line' => rw [h, h'] at hline; cases hline
  | ok line =>
    cases h' : parseLine surveyLine l'.text with
    | error d' => rw [h, h'] at hline; cases hline
    | ok line' => rw [h, h'] at hline; cases hline; rfl

def SurveyLeaf.words : SurveyLeaf → List String
  | .comment _ _ => []
  | .command c => (SurveyLine.command c.name c.first c.others).words
  | .question q => (SurveyLine.question q.name q.type q.label q.params).words

def SurveyHeader.words : SurveyHeader → List String
  | .conditional _ c => (SurveyLine.conditional c).words
  | .group g => (SurveyLine.group g.kind g.name g.label g.params g.condition).words

/-- Where a statement stands and the words it is made of. -/
structure Written where
  pos : Position
  words : List String
  deriving DecidableEq, Repr

def Source.Line.written? (file : String) (l : Line) : Option Written :=
  (words? l.text).map (⟨⟨file, l.number, l.col⟩, ·⟩)

def SurveyLeaf.written? : SurveyLeaf → Option Written
  | .comment _ _ => none
  | .command c => some ⟨c.pos, (SurveyLeaf.command c).words⟩
  | .question q => some ⟨q.pos, (SurveyLeaf.question q).words⟩

def SurveyHeader.written : SurveyHeader → Written
  | .conditional pos c => ⟨pos, (SurveyHeader.conditional pos c).words⟩
  | .group g => ⟨g.pos, (SurveyHeader.group g).words⟩

theorem surveyReader_shows (file : String) :
    (surveyReader file).Shows SurveyLeaf.written? SurveyHeader.written (·.written? file) := by
  refine ⟨fun _ => rfl, fun a => by cases a <;> rfl, @fun l e h => ?_⟩
  simp only [surveyReader] at h
  cases hline : parseLine surveyLine l.text with
  | error d => rw [hline] at h; cases h
  | ok line =>
    have hwords := Grammar.words?_of_parseLine Grammar.fills_surveyLine
      Grammar.SurveyLine.values_slots (congrArg _ hline)
    have hwritten : l.written? file = some ⟨⟨file, l.number, l.col⟩, line.words⟩ := by
      rw [Source.Line.written?, hwords]
      rfl
    rw [hline] at h
    cases line with
    | command name first others => cases h; exact ⟨by rw [hwritten]; rfl, hwritten.symm⟩
    | conditional condition => cases h; exact ⟨hwritten, by simp⟩
    | question name type label params => cases h; exact ⟨by rw [hwritten]; rfl, hwritten.symm⟩
    | group kind name label params condition =>
      cases h
      refine ⟨hwritten, fun a ha => ?_⟩
      unfold bodilessQuestion at ha
      split at ha
      · split at ha
        · next hquestion =>
          cases ha
          have hquestion := Grammar.words?_of_parseLine Grammar.fills_questionLine
            Grammar.SurveyLine.values_slots (congrArg _ hquestion)
          rw [Source.Line.written?, hquestion]
          rfl
        · cases ha
      · cases ha

/-- The words of the statements of a forest, in source order, comments left out. -/
def Survey.spelled : Survey → List (List String)
  | .nil => []
  | .leaf a rest => if a.isComment then spelled rest else a.words :: spelled rest
  | .block h body rest => h.words :: (spelled body ++ spelled rest)

private theorem spelled_eq (f : Survey) : f.spelled =
    (f.inOrder SurveyLeaf.written? SurveyHeader.written).map (·.words) := by
  induction f with
  | nil => rfl
  | leaf a rest ih => cases a <;> simp [Survey.spelled, Forest.inOrder, ih, SurveyLeaf.written?,
      SurveyLeaf.isComment]
  | block h body rest ihbody ihrest =>
    cases h <;> simp [Survey.spelled, Forest.inOrder, ihbody, ihrest, SurveyHeader.written]

/-- A forest spells the lines of its block that are not comments. -/
theorem spelled_of_block {file : String} {col : Nat} {ls : List Line} {f : Survey}
    (h : ((surveyReader file).block file col ls).toOption = some f) :
    f.spelled.map some = (ls.filter (!·.isComment)).map (words? ·.text) := by
  have hwords (l : Line) : (l.written? file).map (·.words) = words? l.text := by
    simp [Source.Line.written?, Function.comp_def]
  have hshown := congrArg (List.map (Option.map (·.words)))
    ((surveyReader_shows file).inOrder_of_reads ((LineReader.reads_iff_toOption file).mpr h))
  simpa only [spelled_eq, List.map_map, Function.comp_def, Option.map_some, hwords] using hshown

end SurveyForms
