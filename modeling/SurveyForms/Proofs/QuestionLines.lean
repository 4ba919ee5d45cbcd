import SurveyForms.Proofs.DocumentedLines
import SurveyForms.Proofs.WrappedQuestions

/-! Questions on one line. The header of a group is tried before a question and is not revisited
once it has matched up to a colon, so a question with the name of a group word is read only where
the words of its type leave one over. Main result: which documented questions are read. -/
namespace SurveyForms

open Source Text

namespace Grammar

open Rule Tail

/-- An even number of words is a row of parameters. -/
theorem exists_params (ws : List String) (h : ws.length % 2 = 0) :
    ∃ params : List Param, params.flatMap (·.words) = ws := by
  induction ws using List.twoStepInduction with
  | nil => exact ⟨[], rfl⟩
  | singleton w => cases h
  | cons_cons key value ws ih _ =>
    obtain ⟨params, rfl⟩ := ih (by rw [List.length_cons, List.length_cons] at h; omega)
    exact ⟨⟨key, value⟩ :: params, rfl⟩

def wordSigns (ws : List String) : List Sign := ws.map fun s => (.ident, s)

private theorem isWord_words (params : List Param) : ∀ p ∈ pairsOf .ident params, p.2.IsWord :=
  isWord_pairsOf (.inl rfl) params

private theorem signs_words (params : List Param) :
    ((pairsOf .ident params).flatMap fun p => [(.ident, p.1), p.2]) =
      wordSigns (params.flatMap (·.words)) := by
  rw [signs_pairsOf, wordSigns, List.map_flatMap]
  rfl

/-- A group word, a name and parameters up to a colon are a group line, whatever follows. -/
theorem reads_groupLine_words (kind : GroupKind) (name : String) (params : List Param)
    (more : List Sign) :
    groupLine.Reads ((.ident, kind.word) :: (.ident, name) ::
      (wordSigns (params.flatMap (·.words)) ++ [(.punct, ":")]))
      (.group kind name none params none) more := by
  have hnone : ∀ c ∈ (none : Option Condition), c.isComparison := by simp
  have hreads := reads_groupLine kind name none (isWord_words params) hnone more
  rwa [signs_words, params_pairsOf] at hreads

/-- With one word left over in front of the colon they are no group line. -/
theorem refuses_groupLine_words (kind : GroupKind) (name : String) (params : List Param)
    {w : String} (hw : isIdentifier w) (more : List Sign) :
    groupLine.Refuses ((.ident, kind.word) :: (.ident, name) ::
      (wordSigns (params.flatMap (·.words)) ++ (.ident, w) :: (.punct, ":") :: more)) := by
  have hcondition : (Rule.optional inlineCondition).Reads [] none
      ((.ident, w) :: (.punct, ":") :: more) := by
    refine Refuses.optional (Refuses.map ?_ _)
    by_cases hif : w = "if"
    · subst hif
      exact refuses_seq_of_stops (reads_literal .ident "if" _) (stops_last
        (refuses_condition (by simp) (by simp) (by simp) (by simp) more))
    · exact refuses_seq (refuses_literal (by simpa using hif)) _
  have hparams : (Rule.many param).Reads (wordSigns (params.flatMap (·.words))) params
      ((.ident, w) :: (.punct, ":") :: more) := by
    have hreads := reads_pairs (isWord_words params)
      (refuses_param_of_operand (by simp) (by simp) (by simp) :
        param.Refuses ((.ident, w) :: (.punct, ":") :: more))
    rwa [signs_words, params_pairsOf] at hreads
  have hlabel : (Rule.optional text).Reads [] none
      (wordSigns (params.flatMap (·.words)) ++ (.ident, w) :: (.punct, ":") :: more) := by
    refine Refuses.optional (refuses_token _ ?_)
    cases params <;> simp [wordSigns, Param.words]
  have hcolon : (last (literal ":")).Stops ((.ident, w) :: (.punct, ":") :: more) :=
    stops_last (refuses_literal (by simpa using ne_of_isIdentifier hw (by decide)))
  exact Refuses.named (Refuses.map (refuses_seq_of_stops (reads_groupWord kind _)
    (stops_next_of_stops (reads_token .ident "<ident>" name _) (stops_next_of_stops hlabel
      (stops_next_of_stops hparams (stops_next_of_stops hcondition hcolon))))) _) "GroupLine"

structure QuestionSigns where
  name : String
  type : List String
  label : Option Sign
  pairs : List (String × Sign)
  name_isIdentifier : isIdentifier name
  type_ne_nil : type ≠ []
  type_isIdentifier : ∀ w ∈ type, isIdentifier w
  label_isLiteral : ∀ x ∈ label, x.1 = .text ∨ x.1 = .number
  pairs_isWord : ∀ p ∈ pairs, p.2.IsWord

namespace QuestionSigns

def behind (q : QuestionSigns) : List Sign :=
  q.label.toList ++ q.pairs.flatMap fun p => [(.ident, p.1), p.2]

def signs (q : QuestionSigns) : List Sign :=
  (.ident, q.name) :: (wordSigns q.type ++ (.punct, ":") :: q.behind)

def params (q : QuestionSigns) : List Param := q.pairs.map fun p => ⟨p.1, p.2.2⟩

def line (q : QuestionSigns) : SurveyLine :=
  .question q.name q.type (q.label.map (·.2)) q.params

/-- The header of a group takes the question up to its colon: its name is a group word, and the
words of its type are a name and parameters. -/
def Captured (q : QuestionSigns) : Prop := q.name ∈ ["group", "repeat"] ∧ q.type.length % 2 = 1

private theorem exists_kind {name : String} (h : name ∈ ["group", "repeat"]) :
    ∃ kind : GroupKind, name = kind.word := by
  simp only [List.mem_cons, List.not_mem_nil, or_false] at h
  rcases h with rfl | rfl
  · exact ⟨.group, rfl⟩
  · exact ⟨.repetition, rfl⟩

variable {q : QuestionSigns} {ts : List Token}

theorem Captured.exists_header (h : q.Captured) : ∃ kind first params,
    q.signs = (.ident, GroupKind.word kind) :: (.ident, first) ::
      (wordSigns (params.flatMap Param.words) ++ [(.punct, ":")]) ++ q.behind ∧
    (q.type.length = 1 ↔ params = []) := by
  obtain ⟨kind, hkind⟩ := exists_kind h.1
  obtain ⟨first, words, htype⟩ := List.exists_cons_of_ne_nil q.type_ne_nil
  obtain ⟨params, rfl⟩ := exists_params words (by have := h.2; simp [htype] at this; omega)
  refine ⟨kind, first, params, by simp [signs, hkind, htype, wordSigns], ?_⟩
  cases params <;> simp [htype, Param.words]

/-- A word of the type is left over. -/
private theorem refuses_groupLine_of_not_captured (h : ¬ q.Captured)
    (hname : q.name ∈ ["group", "repeat"]) : groupLine.Refuses q.signs := by
  obtain ⟨kind, hkind⟩ := exists_kind hname
  have heven : q.type.length % 2 = 0 := by
    have := not_and.mp h hname
    omega
  obtain ⟨first, words, htype⟩ := List.exists_cons_of_ne_nil q.type_ne_nil
  have hwords : words ≠ [] := by
    rintro rfl
    simp [htype] at heven
  obtain ⟨init, w, rfl⟩ := List.eq_nil_or_concat words |>.resolve_left hwords
  obtain ⟨params, rfl⟩ := exists_params init (by simp [htype] at heven; omega)
  have hw : isIdentifier w := q.type_isIdentifier w (by simp [htype])
  have hrefuses := refuses_groupLine_words kind first params hw q.behind
  simpa [signs, hkind, htype, wordSigns] using hrefuses

theorem parse_of_not_captured (h : ¬ q.Captured) (hts : ts.map sign = q.signs) :
    surveyLine.parse ts = .ok q.line := by
  refine Reads.parse ?_
  rw [hts]
  by_cases hname : q.name ∈ ["group", "repeat"]
  · exact reads_question_of_refuses q.name_isIdentifier q.type_ne_nil q.type_isIdentifier
      q.label_isLiteral q.pairs_isWord (refuses_groupLine_of_not_captured h hname)
  · simp only [List.mem_cons, List.not_mem_nil, or_false, not_or] at hname
    exact reads_question q.name_isIdentifier hname.1 hname.2 q.type_ne_nil q.type_isIdentifier
      q.label_isLiteral q.pairs_isWord

/-- The header takes its signs and leaves what stands behind its colon. -/
private theorem reads_header (kind : GroupKind) (first : String) (params : List Param)
    (more : List Sign) : surveyLine.Reads ((.ident, kind.word) :: (.ident, first) ::
      (wordSigns (params.flatMap (·.words)) ++ [(.punct, ":")]))
      (.group kind first none params none) more := by
  refine Reads.named (reads_choice [_, _] [_] (fun r hr => ?_)
    (reads_groupLine_words kind first params more)) "SurveyLine"
  simp only [List.mem_cons, List.not_mem_nil, or_false] at hr
  rcases hr with rfl | rfl
  · exact (refuses_command (by cases kind <;> decide) _).map _
  · exact (refuses_conditional (by cases kind <;> decide) _).map _

/-- What is left behind the colon of a header is a fault. -/
theorem parse_of_captured (h : q.Captured) (hbehind : q.behind ≠ []) (hts : ts.map sign = q.signs) :
    (surveyLine.parse ts).toOption = none := by
  obtain ⟨kind, first, params, hsigns, _⟩ := h.exists_header
  exact (reads_header kind first params q.behind).toOption_parse (hts.trans hsigns) hbehind

/-- With nothing behind the colon the line is a header. -/
theorem parse_of_captured_nil (h : q.Captured) (hbehind : q.behind = [])
    (hts : ts.map sign = q.signs) : ∃ kind first params,
    surveyLine.parse ts = .ok (.group kind first none params none) ∧
      (q.type.length = 1 ↔ params = []) := by
  obtain ⟨kind, first, params, hsigns, hlength⟩ := h.exists_header
  refine ⟨kind, first, params, Reads.parse ?_, hlength⟩
  rw [hts, hsigns, hbehind, List.append_nil]
  exact reads_header kind first params []

/-- The rule for questions by itself reads every question. -/
theorem parse_questionLine (hts : ts.map sign = q.signs) : questionLine.parse ts = .ok q.line := by
  refine Reads.parse ?_
  rw [hts]
  exact reads_questionLine q.name q.type_ne_nil q.label_isLiteral q.pairs_isWord

end QuestionSigns

/-- A line is read by a rule that reads its tokens. -/
private theorem parseLine_of_parse {rule : Rule α} {line : List Char} {ts : List Token}
    (hline : tokens? line = some ts) {a : α} (h : rule.parse ts = .ok a) :
    parseLine rule line = .ok a := by
  refine eq_ok_of_toOption ?_
  rw [toOption_parseLine, hline, Option.bind_some, h]
  rfl

end Grammar

open Grammar (QuestionSigns SurveyLine Slot surveyLine questionLine parseLine parseLine_of_parse
  toOption_parseLine sign wordSigns)

/-- A line with tokens begins a statement. -/
theorem begins_of_lexes {cs rest : List Char} {ls : List Lexeme} (h : Lexes cs ls rest)
    (hbreak : '\n' ∉ cs) (hloud : ∃ l ∈ ls, ¬ l.Silent) : Begins cs := by
  induction h with
  | stuck => simp at hloud
  | @next l cs rest ls hself hends htail ih =>
    obtain ⟨c, body, hraw⟩ := List.exists_cons_of_ne_nil (raw_ne_nil_of_lexeme? hself)
    by_cases hsilent : l.Silent
    · obtain ⟨l', hl', hloud'⟩ := hloud
      have hl' : l' ∈ ls := by
        rcases List.mem_cons.mp hl' with rfl | hl'
        · exact absurd hsilent hloud'
        · exact hl'
      rcases hsilent with hblank | hcomment
      · obtain ⟨gap, c, more, hcs, hgap, hc⟩ := ih (by simp_all) ⟨l', hl', hloud'⟩
        refine ⟨l.raw ++ gap, c, more, by rw [hcs, List.append_assoc], fun b hb => ?_, hc⟩
        rcases List.mem_append.mp hb with hb | hb
        · exact isBlank_of_isGap ((shape_of_lexeme? hself).isGap_of_blank hblank b hb)
        · exact hgap b hb
      · have hall : Lexes (l.raw ++ cs) ([] ++ l :: ls) rest := .next hself hends htail
        obtain ⟨rfl, _⟩ := comment_ends_line hall hcomment hbreak
        cases hl'
    · have hfirst := (shape_of_lexeme? hself).first_of_not_silent hsilent c (by rw [hraw]; rfl)
      exact ⟨[], c, body ++ cs, by rw [hraw]; rfl, by simp, hfirst⟩

theorem begins_of_tokens {cs : List Char} (hbreak : '\n' ∉ cs) {ts : List Token}
    (h : tokens? cs = some ts) (hne : ts ≠ []) : Begins cs := by
  obtain ⟨ls, hls, rfl⟩ := tokens?_eq_some_iff.mp h
  refine begins_of_lexes hls hbreak ?_
  by_contra hsilent
  push Not at hsilent
  exact hne (tokensFrom_of_silent hsilent)

/-- The forest of a text of one line. -/
theorem toOption_ofText_line {raw : List Char} (hbreak : '\n' ∉ raw)
    (hbegins : Begins (withoutReturn raw)) (file : String) :
    (Survey.ofText file (String.ofList raw)).toOption = (surveyReader file).forest? file
      [⟨1, indentColumn 0 raw, withoutReturn raw⟩] := by
  have hblank : ¬ allBlank (withoutReturn raw) := by
    obtain ⟨gap, c, rest, hraw, _, hc, _⟩ := hbegins
    simp [hraw, allBlank, hc]
  rw [toOption_ofText, String.toList_ofList, lines, cut_of_not_mem hbreak, linesFrom_cons,
    ofText?_withoutReturn, if_neg hblank, indentColumn_withoutReturn hblank]
  rfl

namespace Grammar.QuestionSigns

variable {q : QuestionSigns} {ts : List Token}

def statement (q : QuestionSigns) (pos : Position) : SurveyLeaf :=
  .question ⟨pos, q.name, q.type, q.label.map (·.2), q.params⟩

/-- Text behind the colon of a header refuses the line. -/
private theorem forest?_of_captured {l : Line} (hcomment : l.isComment = false)
    (hline : tokens? l.text = some ts) (hts : ts.map sign = q.signs) (h : q.Captured)
    (hbehind : q.behind ≠ []) (file : String) : (surveyReader file).forest? file [l] = none := by
  have hnone : (parseLine surveyLine l.text).toOption = none := by
    rw [toOption_parseLine, hline, Option.bind_some, parse_of_captured h hbehind hts]
  rw [LineReader.forest?_singleton _ _ hcomment]
  simp only [surveyReader]
  cases hparse : parseLine surveyLine l.text with
  | error e => rfl
  | ok line =>
    rw [hparse] at hnone
    cases hnone

/-- A header without a body is a question if it is a group word and a name. -/
private theorem forest?_of_captured_nil {l : Line} (hcomment : l.isComment = false)
    (hline : tokens? l.text = some ts) (hts : ts.map sign = q.signs) (h : q.Captured)
    (hbehind : q.behind = []) (file : String) : (surveyReader file).forest? file [l] =
      if q.type.length = 1 then some (.leaf (q.statement ⟨file, l.number, l.col⟩) .nil)
      else none := by
  obtain ⟨kind, first, params, hparse, hone⟩ := parse_of_captured_nil h hbehind hts
  have hgroup := parseLine_of_parse hline hparse
  have hquestion := parseLine_of_parse hline (parse_questionLine hts)
  have hentry : (surveyReader file).entry l =
      .ok (.header (.group ⟨⟨file, l.number, l.col⟩, kind, first, none, params, none⟩)
        (bodilessQuestion ⟨file, l.number, l.col⟩ l none params none)
        (kind.word ++ " " ++ first)) := by
    simp only [surveyReader, hgroup]
    rfl
  have hbodiless : bodilessQuestion ⟨file, l.number, l.col⟩ l none params none =
      if q.type.length = 1 then some (q.statement ⟨file, l.number, l.col⟩) else none := by
    rw [bodilessQuestion, hquestion]
    by_cases hnil : params = []
    · rw [if_pos (hone.mpr hnil), hnil]
      rfl
    · rw [if_neg (mt hone.mp hnil), if_neg (by simpa using hnil)]
  rw [LineReader.forest?_singleton _ _ hcomment, hentry, hbodiless]
  split <;> rfl

/-- A question on one line is read, unless the header of a group takes it up to its colon. One
that is a header and nothing more is read if its type is one word. -/
theorem ofText_iff {raw : List Char} (hbreak : '\n' ∉ raw)
    (htokens : tokens? (withoutReturn raw) = some ts) (hts : ts.map sign = q.signs)
    (file : String) : Survey.ofText file (String.ofList raw) =
      .ok (.leaf (q.statement ⟨file, 1, indentColumn 0 raw⟩) .nil) ↔
        (q.Captured → q.behind = [] ∧ q.type.length = 1) := by
  have hne : ts ≠ [] := by
    rintro rfl
    cases hts
  have hbegins := begins_of_tokens (fun hmem => hbreak (mem_of_mem_withoutReturn hmem)) htokens hne
  have hcomment := isComment_of_begins hbegins 1 (indentColumn 0 raw)
  have hforest := toOption_ofText_line hbreak hbegins file
  constructor
  · intro hread hcaptured
    rw [hread] at hforest
    by_cases hbehind : q.behind = []
    · refine ⟨hbehind, ?_⟩
      by_contra hone
      rw [forest?_of_captured_nil hcomment htokens hts hcaptured hbehind, if_neg hone] at hforest
      cases hforest
    · rw [forest?_of_captured hcomment htokens hts hcaptured hbehind] at hforest
      cases hforest
  · intro h
    refine eq_ok_of_toOption (hforest.trans ?_)
    by_cases hcaptured : q.Captured
    · obtain ⟨hbehind, hone⟩ := h hcaptured
      rw [forest?_of_captured_nil hcomment htokens hts hcaptured hbehind, if_pos hone]
    · exact forest?_question hcomment
        (parseLine_of_parse htokens (parse_of_not_captured hcaptured hts))

end Grammar.QuestionSigns

namespace Grammar

variable {ts : List Token}

/-- A token with this sign belongs there. -/
def Slot.Suits (slot : Slot) (x : Sign) : Prop := x.1 ∈ slot.classes ∧ x.2 = slot.value

private theorem admits_iff_suits {slots : List Slot} : List.Forall₂ Slot.Admits slots ts ↔
    List.Forall₂ Slot.Suits slots (ts.map sign) := by
  rw [List.forall₂_map_right_iff]
  rfl

private theorem exists_of_forall₂_append {R : Slot → Token → Prop} {a b : List Slot}
    (h : List.Forall₂ R (a ++ b) ts) :
    ∃ us vs, ts = us ++ vs ∧ List.Forall₂ R a us ∧ List.Forall₂ R b vs := by
  induction a generalizing ts with
  | nil => exact ⟨[], ts, rfl, .nil, h⟩
  | cons slot a ih =>
    obtain ⟨t, rest, ht, hrest, rfl⟩ := List.forall₂_cons_left_iff.mp h
    obtain ⟨us, vs, rfl, hus, hvs⟩ := ih hrest
    exact ⟨t :: us, vs, rfl, .cons ht hus, hvs⟩

private theorem signs_of_words {words : List String}
    (h : List.Forall₂ Slot.Admits (words.map .ident) ts) : ts.map sign = wordSigns words := by
  induction words generalizing ts with
  | nil => cases h; rfl
  | cons w words ih =>
    obtain ⟨t, rest, ht, hrest, rfl⟩ := List.forall₂_cons_left_iff.mp h
    have hsign : sign t = (.ident, w) := Prod.ext (List.mem_singleton.mp ht.1) ht.2
    rw [List.map_cons, hsign, ih hrest]
    rfl

private theorem exists_label {label : Option String}
    (h : List.Forall₂ Slot.Admits (label.elim [] ([.literal ·])) ts) :
    ∃ x : Option Sign, ts.map sign = x.toList ∧ x.map (·.2) = label ∧
      ∀ y ∈ x, y.1 = .text ∨ y.1 = .number := by
  cases label with
  | none => cases h; exact ⟨none, rfl, rfl, by simp⟩
  | some s =>
    obtain ⟨t, rest, ht, hrest, rfl⟩ := List.forall₂_cons_left_iff.mp h
    cases hrest
    refine ⟨some (sign t), rfl, congrArg some ht.2, ?_⟩
    rintro y ⟨⟩
    simpa [Slot.literal, or_comm, sign] using ht.1

private theorem exists_pairs {params : List Param}
    (h : List.Forall₂ Slot.Admits (params.flatMap (·.slots)) ts) :
    ∃ pairs : List (String × Sign), ts.map sign = (pairs.flatMap fun p => [(.ident, p.1), p.2]) ∧
      (pairs.map fun p => (⟨p.1, p.2.2⟩ : Param)) = params ∧ ∀ p ∈ pairs, p.2.IsWord := by
  induction params generalizing ts with
  | nil => cases h; exact ⟨[], rfl, rfl, by simp⟩
  | cons p params ih =>
    obtain ⟨key, _, hkey, htail, rfl⟩ := List.forall₂_cons_left_iff.mp h
    obtain ⟨value, rest, hvalue, hrest, rfl⟩ := List.forall₂_cons_left_iff.mp htail
    obtain ⟨pairs, hsigns, rfl, hpairs⟩ := ih hrest
    have hsign : sign key = (.ident, p.key) := Prod.ext (List.mem_singleton.mp hkey.1) hkey.2
    refine ⟨(p.key, sign value) :: pairs, ?_, ?_, List.forall_mem_cons.mpr ⟨?_, hpairs⟩⟩
    · rw [List.map_cons, List.map_cons, hsign, hsigns]
      rfl
    · exact congrArg (fun v => (⟨p.key, v⟩ : Param) :: _) hvalue.2
    · simpa [Slot.argument, Sign.IsWord, sign] using hvalue.1

private theorem isIdentifier_of_mem {cs : List Char} (htokens : tokens? cs = some ts) {w : String}
    (hw : (.ident, w) ∈ ts.map sign) : isIdentifier w := by
  obtain ⟨t, ht, hsign⟩ := List.mem_map.mp hw
  obtain ⟨hcls, rfl⟩ := Prod.mk.inj hsign
  obtain ⟨l, hself, _, hlcls, hvalue⟩ := exists_lexeme_of_mem_tokens htokens ht
  rw [← hvalue]
  exact isIdentifier_value hself (hlcls.trans hcls)

/-- The tokens of a documented question, as the rules see them. -/
private theorem exists_questionSigns {cs : List Char} (htokens : tokens? cs = some ts)
    {name : String} {type : List String} {label : Option String} {params : List Param}
    (h : (SurveyLine.question name type label params).Documented ts) :
    ∃ q : QuestionSigns, ts.map sign = q.signs ∧ q.line = .question name type label params := by
  obtain ⟨front, last, rfl, hfront, hlast⟩ := exists_of_forall₂_append h.admitted
  obtain ⟨head, tail, rfl, hhead, htail⟩ := exists_of_forall₂_append hfront
  obtain ⟨colon, middle, hcolon, hmiddle, rfl⟩ := List.forall₂_cons_left_iff.mp htail
  have hwords : head.map sign = wordSigns (name :: type) := signs_of_words hhead
  have hmark : sign colon = (.punct, ":") := Prod.ext (List.mem_singleton.mp hcolon.1) hcolon.2
  obtain ⟨x, hx, hlabel, hliteral⟩ := exists_label hmiddle
  obtain ⟨pairs, hpairs, hparams, hisWord⟩ := exists_pairs hlast
  have hsigns : (head ++ colon :: middle ++ last).map sign = (.ident, name) ::
      (wordSigns type ++ (.punct, ":") :: (x.toList ++ pairs.flatMap fun p =>
        [(.ident, p.1), p.2])) := by
    simp [hwords, hmark, hx, hpairs, wordSigns]
  have hidentifier : ∀ w ∈ name :: type, isIdentifier w := by
    refine fun w hw => isIdentifier_of_mem htokens ?_
    rw [List.map_append, List.map_append, hwords]
    simp only [wordSigns, List.mem_append, List.mem_map]
    exact .inl (.inl ⟨w, hw, rfl⟩)
  obtain ⟨hname, htype⟩ := List.forall_mem_cons.mp hidentifier
  refine ⟨⟨name, type, x, pairs, hname, h.typed, htype, hliteral, hisWord⟩, hsigns, ?_⟩
  rw [QuestionSigns.line, hlabel, QuestionSigns.params, hparams]

/-- The tokens are the header of a group, up to its colon. -/
def GroupHeader (ts : List Token) : Prop :=
  ∃ kind name label params condition,
    (SurveyLine.group kind name label params condition).Documented ts

/-- A header ends in its colon. -/
theorem GroupHeader.getLast? (h : GroupHeader ts) : ∃ t, ts.getLast? = some t ∧ t.value = ":" := by
  obtain ⟨kind, name, label, params, condition, _, hslots⟩ := h
  obtain ⟨us, vs, rfl, _, hcolon⟩ := exists_of_forall₂_append hslots
  obtain ⟨t, rest, ht, hrest, rfl⟩ := List.forall₂_cons_left_iff.mp hcolon
  cases hrest
  exact ⟨t, List.getLast?_concat, ht.2⟩

private theorem suits_words (params : List Param) : List.Forall₂ Slot.Suits
    (params.flatMap (·.slots)) (wordSigns (params.flatMap (·.words))) := by
  induction params with
  | nil => exact .nil
  | cons p params ih =>
    exact .cons ⟨by simp [Slot.ident], rfl⟩ (.cons ⟨by simp [Slot.argument], rfl⟩ ih)

/-- A question that ends in its colon and leaves no word over is a header as well. -/
theorem QuestionSigns.Captured.groupHeader {q : QuestionSigns} (h : q.Captured)
    (hbehind : q.behind = []) (hts : ts.map sign = q.signs) : GroupHeader ts := by
  obtain ⟨kind, first, params, hsigns, _⟩ := h.exists_header
  refine ⟨kind, first, none, params, none, trivial, admits_iff_suits.mpr ?_⟩
  have hcolon : Slot.Suits (.mark ":") (.punct, ":") := ⟨by simp [Slot.mark], rfl⟩
  have hwords := List.rel_append (suits_words params) (.cons hcolon .nil)
  rw [hts, hsigns, hbehind, List.append_nil]
  have hkind : Slot.Suits (.keyword kind.word) (.ident, kind.word) := ⟨by simp [Slot.keyword], rfl⟩
  have hfirst : Slot.Suits (.ident first) (.ident, first) := ⟨by simp [Slot.ident], rfl⟩
  simpa [SurveyLine.slots] using List.Forall₂.cons hkind (.cons hfirst hwords)

end Grammar

open Grammar (GroupHeader)

/-- A documented question that is no header of a group is read from its line, as it is documented,
unless its name is a group word and the number of words of its type is odd: then the header of a
group is taken for its beginning. -/
theorem documented_question_read_iff {raw : List Char} (hbreak : '\n' ∉ raw) {ts : List Token}
    (htokens : tokens? (withoutReturn raw) = some ts) {name : String} {type : List String}
    {label : Option String} {params : List Param}
    (hquestion : (SurveyLine.question name type label params).Documented ts)
    (hheader : ¬ GroupHeader ts) (file : String) :
    Survey.ofText file (String.ofList raw) = .ok (.leaf
      (.question ⟨⟨file, 1, indentColumn 0 raw⟩, name, type, label, params⟩) .nil) ↔
        ¬ (name ∈ ["group", "repeat"] ∧ type.length % 2 = 1) := by
  obtain ⟨q, hts, hline⟩ := Grammar.exists_questionSigns htokens hquestion
  obtain ⟨rfl, rfl, rfl, rfl⟩ := SurveyLine.question.inj hline
  have hread := q.ofText_iff hbreak htokens hts file
  refine hread.trans ⟨fun h hcaptured => ?_, fun h hcaptured => absurd hcaptured h⟩
  exact hheader (Grammar.QuestionSigns.Captured.groupHeader hcaptured (h hcaptured).1 hts)

private def repeatTokens : List Token :=
  [⟨.ident, "repeat", 1⟩, ⟨.ident, "select_one", 8⟩, ⟨.ident, "days", 19⟩, ⟨.punct, ":", 23⟩,
    ⟨.text, "L", 25⟩, ⟨.ident, "hint", 29⟩, ⟨.number, "5", 34⟩]

/-- A question may be called as a group word if its type has two words. -/
theorem repeat_question_read :
    Survey.ofText "f" "repeat select_one days: \"L\" hint 5\r" = .ok (.leaf (.question
      ⟨⟨"f", 1, 1⟩, "repeat", ["select_one", "days"], some "L", [⟨"hint", "5"⟩]⟩) .nil) := by
  have hdocumented : (SurveyLine.question "repeat" ["select_one", "days"] (some "L")
      [⟨"hint", "5"⟩]).Documented repeatTokens := by
    refine ⟨by simp [SurveyLine.Typed], ?_⟩
    simp [SurveyLine.slots, Param.slots, Slot.Admits, Slot.ident, Slot.mark, Slot.literal,
      Slot.argument, repeatTokens]
  have hheader : ¬ GroupHeader repeatTokens := by
    intro h
    obtain ⟨t, ht, hcolon⟩ := h.getLast?
    cases ht
    exact absurd hcolon (by decide)
  exact (documented_question_read_iff (by decide) (by decide +kernel) hdocumented hheader "f").mpr
    (by decide)

/-- With a type of one word the same is refused, though it is no header of a group. -/
theorem labelled_group_question_refused : ∃ ts, tokens? "group text: \"L\"".toList = some ts ∧
    (SurveyLine.question "group" ["text"] (some "L") []).Documented ts ∧ ¬ GroupHeader ts ∧
    Survey.ofText "f" "group text: \"L\"" = .error ⟨⟨"f", 1, 13⟩, .unexpected (some "L") none⟩ := by
  refine ⟨[⟨.ident, "group", 1⟩, ⟨.ident, "text", 7⟩, ⟨.punct, ":", 11⟩, ⟨.text, "L", 13⟩],
    by decide +kernel, ⟨by simp [SurveyLine.Typed], ?_⟩, fun h => ?_, by decide +kernel⟩
  · simp [SurveyLine.slots, Slot.Admits, Slot.ident, Slot.mark, Slot.literal]
  · obtain ⟨t, ht, hcolon⟩ := h.getLast?
    cases ht
    exact absurd hcolon (by decide)

end SurveyForms
