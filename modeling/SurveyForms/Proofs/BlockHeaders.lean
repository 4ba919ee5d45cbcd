import Mathlib.Data.List.Chain
import SurveyForms.Proofs.Matching
import SurveyForms.Proofs.Resolution
import SurveyForms.Proofs.StatementLines

/-! Two ways to tell the header of a block. Joining of wrapped lines goes by the first characters
of a line, reading by its tokens, for which blanks are optional. Main statement: exactly which
texts that can be read as they stand are changed by joining. -/
namespace SurveyForms

open Source Text

namespace Source

/-- Joining puts the second of two lines behind the first. -/
def Joins (line next : List Char) : Prop :=
  (head? (contentOf line)).isSome ∧ continues (indentOf line) next

theorem Joins.begins {line next : List Char} (h : Joins line next) : Begins line := by
  obtain ⟨header, hheader⟩ := Option.isSome_iff_exists.mp h.1
  obtain ⟨_, _, spaces, _, hcontent, _⟩ := head?_eq_some hheader
  have hbegins := begins_of_head? hheader spaces
  rwa [List.append_assoc, ← hcontent, indentOf_append_contentOf] at hbegins

/-- A line stays as it is, or takes the lines that continue it and leaves none of their
statements behind. -/
private theorem foldLines_step (line : List Char) (rest : List (List Char)) :
    (∀ next ∈ rest.head?, ¬ Joins line next) ∧ foldLines (line :: rest) = line :: foldLines rest ∨
      ∃ next run more, rest = next :: run ++ more ∧ Joins line next ∧
        (foldLines (line :: rest)).countP isStatement = 1 + (foldLines more).countP isStatement ∧
        (line :: rest).countP isStatement = 2 + run.length + more.countP isStatement := by
  cases hheader : head? (contentOf line) with
  | none =>
    refine .inl ⟨fun next _ hjoins => ?_, foldLines_cons_of_none hheader rest⟩
    simp [Joins, hheader] at hjoins
  | some header =>
    obtain ⟨run, more, rfl, -, hrun, hmore⟩ := exists_run line rest
    rw [foldLines_run hheader hrun hmore]
    cases run with
    | nil => exact .inl ⟨fun next hnext hjoins => hmore next hnext hjoins.2, rfl⟩
    | cons next run =>
      have hjoins : Joins line next := ⟨by rw [hheader]; rfl, hrun next (by simp)⟩
      have hline := isStatement_of_begins hjoins.begins
      have hwrapped := isStatement_of_begins (begins_wrapped hheader hjoins.begins (next :: run))
      have hblank : ((next :: run).map fun _ => ([] : List Char)).countP isStatement = 0 := by
        refine List.countP_eq_zero.mpr fun l hl => ?_
        obtain ⟨_, _, rfl⟩ := List.mem_map.mp hl
        simp [isStatement_nil]
      have hall : (next :: run).countP isStatement = (next :: run).length := by
        refine List.countP_eq_length.mpr fun l hl => ?_
        exact isStatement_of_begins (begins_of_continues (hrun l hl))
      refine .inr ⟨next, run, more, rfl, hjoins, ?_, ?_⟩
      · rw [List.cons_append, List.countP_cons_of_pos hwrapped, List.countP_append, hblank]
        omega
      · rw [List.countP_cons_of_pos hline, List.countP_append, hall, List.length_cons]
        omega

/-- Joining changes nothing, or leaves fewer statements. -/
theorem foldLines_cases (ls : List (List Char)) :
    (ls.IsChain fun line next => ¬ Joins line next) ∧ foldLines ls = ls ∨
      (¬ ls.IsChain fun line next => ¬ Joins line next) ∧
        (foldLines ls).countP isStatement < ls.countP isStatement := by
  induction hn : ls.length using Nat.strong_induction_on generalizing ls with
  | _ n ih =>
    cases ls with
    | nil => exact .inl ⟨.nil, by rw [foldLines]⟩
    | cons line rest =>
      rw [List.length_cons] at hn
      rcases foldLines_step line rest with
        ⟨hnone, hfold⟩ | ⟨next, run, more, rfl, hjoins, hfold, hall⟩
      · rw [hfold, List.isChain_cons]
        rcases ih rest.length (by omega) rest rfl with ⟨hchain, heq⟩ | ⟨hchain, hlt⟩
        · exact .inl ⟨⟨hnone, hchain⟩, by rw [heq]⟩
        · refine .inr ⟨fun h => hchain h.2, ?_⟩
          rw [List.countP_cons, List.countP_cons]
          omega
      · rw [hfold, hall]
        refine .inr ⟨fun hchain => ?_, ?_⟩
        · exact (List.isChain_cons_cons.mp hchain).1 hjoins
        · simp only [List.cons_append, List.length_cons, List.length_append] at hn
          rcases ih more.length (by omega) more rfl with ⟨_, heq⟩ | ⟨_, hlt⟩
          · rw [heq]
            omega
          · omega

end Source

namespace LineReader

/-- What may stand above a deeper line: a header, or a line that is no statement. -/
def Deepens (reader : LineReader α β) (l next : Line) : Prop :=
  l.isComment = false → next.isComment = false → l.col < next.col →
    ∃ h bodiless name, (reader.entry l).toOption = some (.header h bodiless name)

private theorem isChain_span {reader : LineReader α β} {col : Nat} {ls : List Line}
    (hinner : (ls.takeWhile (inBody col)).IsChain reader.Deepens)
    (hafter : (ls.dropWhile (inBody col)).IsChain reader.Deepens) : ls.IsChain reader.Deepens := by
  rw [← List.takeWhile_append_dropWhile (p := inBody col) (l := ls), List.isChain_append]
  refine ⟨hinner, hafter, fun x hx y hy hxc hyc hdeeper => ?_⟩
  have hx : inBody col x := List.mem_takeWhile_imp (List.mem_of_getLast? hx)
  have hy : ¬ inBody col y := by
    have := List.head?_dropWhile_not (inBody col) ls
    rw [hy] at this
    simpa using this
  simp only [inBody, hxc, hyc, Bool.false_or, decide_eq_true_eq] at hx hy
  omega

/-- Deeper lines stand only below headers. -/
theorem isChain_deepens {reader : LineReader α β} {col : Nat} {ls : List Line} {f : Forest α β}
    (h : reader.Reads col ls f) : ls.IsChain reader.Deepens := by
  induction h with
  | nil => exact .nil
  | comment hl _ ih =>
    rw [List.isChain_cons]
    exact ⟨fun next _ hnot => by simp [hl] at hnot, ih⟩
  | leaf hl hentry hrest ih =>
    rw [List.isChain_cons]
    refine ⟨fun next hnext _ hnot hdeeper => ?_, ih⟩
    -- the line behind a statement without a body belongs to the same block
    obtain ⟨ls, rfl⟩ := List.head?_eq_some_iff.mp hnext
    have := hrest.col_eq hnot
    omega
  | block hl hentry _ _ _ ihbody ihrest =>
    rw [List.isChain_cons]
    exact ⟨fun _ _ _ _ _ => ⟨_, _, _, congrArg Except.toOption hentry⟩,
      isChain_span ihbody ihrest⟩
  | bodiless hl hentry _ _ _ ihbody ihrest =>
    rw [List.isChain_cons]
    exact ⟨fun _ _ _ _ _ => ⟨_, _, _, congrArg Except.toOption hentry⟩,
      isChain_span ihbody ihrest⟩

end LineReader

open Grammar (SurveyLine parseLine surveyLine)

/-- The column of a line is that of its indentation. -/
theorem indentColumn_indent {c : Char} (hc : ¬ isIndent c) (rest : List Char) (width : Nat)
    (indent : List Char) :
    indentColumn width (indent ++ c :: rest) = indentColumn width indent := by
  fun_induction indentColumn width indent with
  | case1 width indent ih => exact ih
  | case2 width indent ih => exact ih
  | case3 indent width hspace htab =>
    cases indent with
    | nil =>
      rw [List.nil_append]
      unfold indentColumn
      split <;> simp_all [isIndent]
    | cons d indent =>
      rw [List.cons_append]
      unfold indentColumn
      split <;> simp_all

/-- A longer indentation reaches further to the right. -/
theorem indentColumn_lt {indent : List Char} (hindent : ∀ b ∈ indent, isIndent b) {b : Char}
    (hb : isIndent b) (more : List Char) (width : Nat) :
    indentColumn width indent < indentColumn width (indent ++ b :: more) := by
  have hlt (cs : List Char) (width : Nat) : width < indentColumn width cs := by
    fun_induction indentColumn width cs with
    | case1 width cs ih => omega
    | case2 width cs ih =>
      simp only [tabWidth] at ih ⊢
      omega
    | case3 width cs => omega
  induction indent generalizing width with
  | nil =>
    have hstop : indentColumn width [] = width + 1 := rfl
    rw [List.nil_append, hstop]
    simp only [isIndent, Bool.or_eq_true, beq_iff_eq] at hb
    rcases hb with rfl | rfl
    · exact hlt more (width + 1)
    · have := hlt more ((width / tabWidth + 1) * tabWidth)
      simp only [indentColumn, tabWidth] at this ⊢
      omega
  | cons d indent ih =>
    obtain ⟨hd, hdeeper⟩ := List.forall_mem_cons.mp hindent
    simp only [isIndent, Bool.or_eq_true, beq_iff_eq] at hd
    rcases hd with rfl | rfl
    · exact ih hdeeper _
    · exact ih hdeeper _

/-- Lexing passes over indentation. -/
theorem lexes_indent {indent cs rest : List Char} {ls : List Lexeme}
    (hindent : ∀ b ∈ indent, isIndent b) (hcs : ∀ c ∈ cs.head?, ¬ isGap c) (h : Lexes cs ls rest) :
    ∃ blanks, (∀ l ∈ blanks, l.Silent) ∧ Lexes (indent ++ cs) (blanks ++ ls) rest := by
  have hgaps : ∀ b ∈ indent, isGap b := by
    intro b hb
    have hb := hindent b hb
    simp only [isIndent, Bool.or_eq_true, beq_iff_eq] at hb
    simp [isGap, hb]
  cases indent with
  | nil => exact ⟨[], by simp, h⟩
  | cons b indent =>
    refine ⟨[⟨.blank, b :: indent⟩], by simp [Lexeme.Silent], ?_⟩
    exact @Lexes.next ⟨.blank, b :: indent⟩ cs rest ls (lexeme?_gaps hgaps) hcs h

/-- A conditional whose condition follows the word without a blank. -/
def isTight : List Char → Bool
  | 'i' :: 'f' :: c :: _ => c == '"' || c == '\'' || c == '.' || c == '$'
  | _ => false

/-- The first line is a conditional without a blank behind its word, and takes the second for its
own continuation. -/
def Swallows (line next : List Char) : Prop :=
  isTight (contentOf line) ∧ (dropSpaces (contentOf line)).getLast? = some ':' ∧
    continues (indentOf line) next

instance : DecidableRel Swallows := fun _ _ => inferInstanceAs (Decidable (_ ∧ _))

theorem Swallows.joins {line next : List Char} (h : Swallows line next) : Joins line next := by
  obtain ⟨htight, hcolon, hcontinues⟩ := h
  refine ⟨?_, hcontinues⟩
  unfold isTight at htight
  split at htight
  · next c rest heq =>
    rw [heq] at hcolon ⊢
    have hblock : startsBlock ('i' :: 'f' :: c :: rest) = false := by
      simp only [Bool.or_eq_true, beq_iff_eq] at htight
      rcases htight with ((rfl | rfl) | rfl) | rfl <;> rfl
    have hword : isWord 'i' := by decide
    simp [head?, hword, hblock, hcolon]
  · cases htight

/-- A block word is written as it is, unless it is quoted. -/
private theorem eq_ident_of_value {l : Lexeme} (hself : lexeme? l.raw = some l) {c : Char}
    (hfirst : l.raw.head? = some c) (hc : c = '@' ∨ isWord c) {w : List Char} (hw : w ∈ blockWords)
    (hvalue : l.value = String.ofList w) : l = ⟨.ident, w⟩ := by
  have hraw : l.raw = w := by
    cases shape_of_lexeme? hself with
    | varRef =>
      cases hfirst
      exact absurd hc (by decide)
    | text hquote =>
      cases hfirst
      rcases hquote with rfl | rfl <;> exact absurd hc (by decide)
    | _ => exact String.ofList_inj.mp hvalue
  have hident : lexeme? w = some ⟨.ident, w⟩ := by
    simp only [blockWords, List.mem_cons, List.not_mem_nil, or_false] at hw
    rcases hw with rfl | rfl | rfl <;> decide
  rw [hraw, hident] at hself
  exact (Option.some.inj hself).symm

/-- A condition that begins directly behind a word begins with a quote, a dot or a dollar sign. -/
private theorem first_of_beginsCondition {l : Lexeme} (hshape : l.Shape) (hloud : ¬ l.Silent)
    {d : Char} {raw : List Char} (hraw : l.raw = d :: raw) (hd : ¬ isIdentRest d) {col : Nat}
    (h : Grammar.beginsCondition ⟨l.cls, l.value, col⟩) :
    d = '"' ∨ d = '\'' ∨ d = '.' ∨ d = '$' := by
  have hdot (hplain : l.value = String.ofList l.raw) (hcls : l.cls = .punct ∨ l.cls = .operator) :
      d = '.' := by
    have hvalue : l.value = "." := by
      rcases hcls with hcls | hcls <;> simpa [Grammar.beginsCondition, hcls] using h
    have : d :: raw = ['.'] := by
      rw [← hraw, ← String.toList_ofList (l := l.raw), ← hplain, hvalue]
      rfl
    exact (List.cons_eq_cons.mp this).1
  cases hshape with
  | comment => exact absurd (.inr rfl) hloud
  | blank => exact absurd (.inl rfl) hloud
  | varRef => cases hraw; exact .inr (.inr (.inr rfl))
  | text hquote => cases hraw; exact hquote.elim .inl fun h => .inr (.inl h)
  | number hall =>
    cases hraw
    exact absurd (by simp [isIdentRest, Char.isAlphanum, hall d (by simp)]) hd
  | ident _ hall => cases hraw; exact absurd (hall d (by simp)) hd
  | punct => exact .inr (.inr (.inl (hdot rfl (.inl rfl))))
  | pair | sign => exact .inr (.inr (.inl (hdot rfl (.inr rfl))))

/-- What a header shows directly behind its word, if that is not blank. -/
private theorem isTight_of_headerTokens {w more : List Char} {ls : List Lexeme} {line : SurveyLine}
    {first : Token} {col : Nat} (hvalue : first.value = String.ofList w)
    (hends : Lexeme.Ends ⟨.ident, w⟩ more.head?) (hlexes : Lexes more ls [])
    (hblank : ∀ c ∈ more.head?, ¬ isBlank c) (hbreak : '\n' ∉ more)
    (hheader : line.HeaderTokens (first :: tokensFrom col ls)) : isTight (w ++ more) := by
  have hsecond : tokensFrom col ls ≠ [] := by
    intro hnil
    rw [hnil] at hheader
    cases hheader
  cases hlexes with
  | stuck => exact absurd rfl hsecond
  | @next l tail _ ls hself hmore htail =>
    obtain ⟨d, raw, hraw⟩ := List.exists_cons_of_ne_nil (raw_ne_nil_of_lexeme? hself)
    have hd : ¬ isIdentRest d := hends d (by simp [hraw])
    have hgap : ¬ isBlank d := hblank d (by simp [hraw])
    have hshape := shape_of_lexeme? hself
    have hloud : ¬ l.Silent := by
      rintro (hcls | hcls)
      · exact hgap (isBlank_of_isGap (hshape.isGap_of_blank hcls d (by simp [hraw])))
      · have hline : Lexes (l.raw ++ tail) ([] ++ l :: ls) [] := .next hself hmore htail
        obtain ⟨rfl, _⟩ := comment_ends_line hline hcls hbreak
        exact hsecond (tokensFrom_of_silent (by simp [Lexeme.Silent, hcls]))
    have hloud' : ¬ (l.cls = .blank ∨ l.cls = .comment) := hloud
    rw [tokensFrom, if_neg hloud'] at hheader
    cases hheader with
    | conditional hif hbegins =>
      obtain rfl : "if".toList = w := by
        rw [hvalue] at hif
        rw [← hif, String.toList_ofList]
      rw [hraw]
      rcases first_of_beginsCondition hshape hloud hraw hd hbegins with
        rfl | rfl | rfl | rfl <;> rfl
    | group _ hident =>
      cases hshape with
      | ident _ hall => cases hraw; exact absurd (hall d (by simp)) hd
      | _ => cases hident

private theorem isTight_append {cs : List Char} (h : isTight cs) (more : List Char) :
    isTight (cs ++ more) := by
  unfold isTight at h
  split at h
  · exact h
  · cases h

private theorem exists_word_of_headerTokens {line : SurveyLine} {first : Token} {rest : List Token}
    (h : line.HeaderTokens (first :: rest)) : ∃ w ∈ blockWords, first.value = String.ofList w := by
  cases h with
  | conditional hword => exact ⟨"if".toList, by decide, hword⟩
  | @group kind _ _ _ _ _ _ _ hword =>
    cases kind
    · exact ⟨"group".toList, by decide, hword⟩
    · exact ⟨"repeat".toList, by decide, hword⟩

private theorem not_isBlank_of_startsBlock {w more : List Char} (hw : w ∈ blockWords)
    (h : startsBlock (w ++ more) = false) : ∀ c ∈ more.head?, ¬ isBlank c := by
  intro c hc hblank
  have hany : startsBlock (w ++ more) = true := by
    refine List.any_eq_true.mpr ⟨w, hw, ?_⟩
    rw [List.drop_left, hc]
    simpa using hblank
  rw [h] at hany
  cases hany

/-- A header that joins is read as one only if it is tight. -/
private theorem isTight_of_parseLine {indent body kept : List Char} {c : Char}
    {line : SurveyLine} (hindent : ∀ b ∈ indent, isIndent b) (hc : c = '@' ∨ isWord c)
    (hblock : startsBlock (c :: body) = false) (hbreak : '\n' ∉ body) (hkept : kept <+: body)
    (hparse : (parseLine surveyLine (indent ++ c :: kept)).toOption = some line)
    (hheader : line.isHeader) : isTight (c :: body) := by
  obtain ⟨ts, hts, hline⟩ := Option.bind_eq_some_iff.mp (Grammar.toOption_parseLine _ _ ▸ hparse)
  have htokens := Grammar.headerTokens_of_parse hline hheader
  obtain ⟨ls, hls, rfl⟩ := tokens?_eq_some_iff.mp hts
  have hblank : ¬ isBlank c ∧ c ≠ '#' := by
    rcases hc with rfl | hc
    · decide
    · exact ⟨(first_of_joined (.inr hc)).1, (first_of_joined (.inr hc)).2.1⟩
  -- the first lexeme behind the indentation is the word of the header
  have hgap : ∀ d ∈ (c :: kept).head?, ¬ isGap d := by
    rintro d ⟨⟩ hgap
    exact hblank.1 (isBlank_of_isGap hgap)
  obtain ⟨blanks, hsilent, hall⟩ := lexes_indent hindent hgap (lexes_scan (c :: kept))
  obtain ⟨rfl, hrest⟩ := hls.unique hall
  have hscan := lexes_scan (c :: kept)
  rw [← hrest] at hscan
  rw [tokensFrom_append, tokensFrom_of_silent hsilent, List.nil_append] at htokens
  obtain ⟨l, tail, ls', hcs, hls', hself, hends, htail⟩ := hscan.exists_cons (by simp)
  have hfirst : l.raw.head? = some c := by
    rw [← List.head?_append_of_ne_nil _ (raw_ne_nil_of_lexeme? hself), ← hcs]
    rfl
  have hloud : ¬ (l.cls = .blank ∨ l.cls = .comment) := by
    obtain ⟨raw, hraw⟩ := List.head?_eq_some_iff.mp hfirst
    rintro (hcls | hcls)
    · refine hblank.1 (isBlank_of_isGap ?_)
      exact (shape_of_lexeme? hself).isGap_of_blank hcls c (by simp [hraw])
    · obtain ⟨_, hmark, _⟩ := (shape_of_lexeme? hself).comment_raw hcls
      exact hblank.2 (List.cons_eq_cons.mp (hraw.symm.trans hmark)).1
  rw [hls', tokensFrom, if_neg hloud] at htokens
  obtain ⟨w, hw, hvalue⟩ := exists_word_of_headerTokens htokens
  obtain rfl := eq_ident_of_value hself hfirst hc hw hvalue
  obtain ⟨removed, rfl⟩ := hkept
  have hcontent : c :: (kept ++ removed) = w ++ tail ++ removed := by
    rw [← List.cons_append, hcs]
  have htail_break : '\n' ∉ tail := by
    intro hmem
    have : '\n' ∈ c :: (kept ++ removed) := by rw [hcontent]; simp [hmem]
    rcases List.mem_cons.mp this with rfl | hmem
    · exact hblank.1 rfl
    · exact hbreak hmem
  rw [hcontent] at hblock ⊢
  refine isTight_append (isTight_of_headerTokens hvalue hends htail ?_ htail_break htokens) removed
  intro d hd
  rw [List.append_assoc] at hblock
  exact not_isBlank_of_startsBlock hw hblock d (by rw [List.head?_append, hd]; rfl)

/-- The line of a text whose indentation and first character are known. -/
private theorem ofText?_indent {indent : List Char} (hindent : ∀ b ∈ indent, isIndent b) {c : Char}
    (hc : ¬ isBlank c ∧ c ≠ '#') (rest : List Char) (n : Nat) :
    ∃ l, Line.ofText? n (indent ++ c :: rest) = some l ∧ l.isComment = false ∧
      l.col = indentColumn 0 (indent ++ [c]) ∧ l.text = indent ++ c :: withoutReturn rest := by
  have hbegins : Begins (indent ++ [c]) :=
    ⟨indent, c, [], rfl, fun b hb => isBlank_of_isIndent (hindent b hb), hc⟩
  have hreturn : ∀ d ∈ (indent ++ [c]).getLast?, d ≠ '\r' := by
    rw [List.getLast?_concat]
    rintro d ⟨⟩ rfl
    exact hc.1 rfl
  have hline := ofText?_append hbegins rest (.inr hreturn) n
  rw [List.append_assoc, List.singleton_append] at hline
  exact ⟨_, hline, isComment_of_begins (hbegins.append _) _ _, rfl, by simp⟩

private theorem isHeader_of_entry {file : String} {l : Line} {h : SurveyHeader}
    {bodiless : Option SurveyLeaf} {name : String}
    (hentry : ((surveyReader file).entry l).toOption = some (.header h bodiless name)) :
    ∃ line, (parseLine surveyLine l.text).toOption = some line ∧ line.isHeader := by
  simp only [surveyReader] at hentry
  cases hline : parseLine surveyLine l.text with
  | error e => rw [hline] at hentry; cases hentry
  | ok line =>
    rw [hline] at hentry
    refine ⟨line, rfl, ?_⟩
    cases line with
    | command | question => cases hentry
    | conditional | group => rfl

/-- What a header is, apart from a command. -/
theorem head?_cases {c : Char} {body header : List Char}
    (h : head? (c :: body) = some header) : c = '@' ∨
      startsBlock (c :: body) = false ∧ (dropSpaces (c :: body)).getLast? = some ':' := by
  simp only [head?] at h
  split at h
  · next hc => exact .inl (by simpa using hc)
  split at h
  · next hc =>
    simp only [Bool.and_eq_true, Bool.not_eq_true', beq_iff_eq] at hc
    exact .inr ⟨hc.1.2, hc.2⟩
  · cases h

/-- In a text that can be read, what joins is a tight conditional. -/
private theorem swallows_of_joins {file : String} {pre rest : List (List Char)}
    {line next : List Char} {f : Survey} (hbreak : '\n' ∉ line) (hjoins : Joins line next)
    (h : (surveyReader file).forest? file (linesFrom 1 (pre ++ line :: next :: rest)) = some f) :
    Swallows line next := by
  obtain ⟨hhead, hcontinues⟩ := hjoins
  obtain ⟨header, hheader⟩ := Option.isSome_iff_exists.mp hhead
  obtain ⟨c, more, spaces, rfl, hcontent, _, hc⟩ := head?_eq_some hheader
  obtain ⟨b, deeper, d, behind, hnext, hdeeper, hd⟩ := continues_iff.mp hcontinues
  have hindent : ∀ b ∈ indentOf line, isIndent b := isIndent_of_mem_indentOf
  have hdeep : ∀ e ∈ indentOf line ++ b :: deeper, isIndent e :=
    List.forall_mem_append.mpr ⟨hindent, hdeeper⟩
  have hline : line = indentOf line ++ c :: (more ++ spaces) := by
    rw [← List.cons_append, ← hcontent, indentOf_append_contentOf]
  have hfirst : ¬ isBlank c ∧ c ≠ '#' := by
    rcases hc with rfl | hc
    · decide
    · exact ⟨(first_of_joined (.inr hc)).1, (first_of_joined (.inr hc)).2.1⟩
  have hfirst' : ¬ isBlank d ∧ d ≠ '#' := ⟨(first_of_joined hd).1, (first_of_joined hd).2.1⟩
  obtain ⟨l, hl, hlc, hlcol, hltext⟩ :=
    ofText?_indent hindent hfirst (more ++ spaces) (1 + pre.length)
  obtain ⟨l', hl', hlc', hlcol', _⟩ := ofText?_indent hdeep hfirst' behind (1 + pre.length + 1)
  rw [← hline] at hl
  rw [← hnext] at hl'
  -- the second line is deeper, so the first one was read as a header
  have hchain := LineReader.isChain_deepens ((LineReader.reads_iff_toOption file).mpr h)
  rw [linesFrom_append, linesFrom_cons, linesFrom_cons, hl, hl'] at hchain
  have hlt : l.col < l'.col := by
    rw [hlcol, hlcol', List.append_assoc]
    have hindent' : ¬ isIndent c := fun hi => hfirst.1 (isBlank_of_isIndent hi)
    rw [indentColumn_indent hindent']
    exact indentColumn_lt hindent (hdeeper b (by simp)) _ 0
  obtain ⟨header, bodiless, name, hentry⟩ :=
    (List.isChain_append_cons_cons.mp hchain).2.1 hlc hlc' hlt
  obtain ⟨parsed, hparsed, hisHeader⟩ := isHeader_of_entry hentry
  rw [hltext] at hparsed
  rw [hcontent, List.cons_append] at hheader
  have hcases := head?_cases hheader
  have hblock : startsBlock (c :: (more ++ spaces)) = false := by
    rcases hcases with rfl | hcases
    · rfl
    · exact hcases.1
  have hbody : '\n' ∉ more ++ spaces := fun hmem => hbreak (by
    rw [hline]
    exact List.mem_append_right _ (List.mem_cons_of_mem _ hmem))
  have htight := isTight_of_parseLine hindent hc hblock hbody (withoutReturn_isPrefix _) hparsed
    hisHeader
  refine ⟨by rwa [hcontent], ?_, hcontinues⟩
  rw [hcontent, List.cons_append]
  rcases hcases with rfl | hcases
  · cases htight
  · exact hcases.2

/-- Joining keeps a text exactly if no line of it joins the next. -/
theorem foldContinuations_eq_self_iff (src : String) : foldContinuations src = src ↔
    (lines src.toList).IsChain fun line next => ¬ Joins line next := by
  have hlines : foldContinuations src = src ↔ foldLines (lines src.toList) = lines src.toList := by
    rw [← lines_foldContinuations]
    refine ⟨fun heq => by rw [heq], fun heq => ?_⟩
    rw [← String.toList_inj, ← glue_cut '\n' src.toList,
      ← glue_cut '\n' (foldContinuations src).toList]
    exact congrArg unlines heq
  rw [hlines]
  rcases foldLines_cases (lines src.toList) with ⟨hchain, hfold⟩ | ⟨hchain, hlt⟩
  · exact iff_of_true hfold hchain
  · refine iff_of_false (fun heq => ?_) hchain
    rw [heq] at hlt
    exact lt_irrefl _ hlt

/-- In a text that can be read, only tight conditionals join. -/
theorem isChain_joins_iff_swallows {file src : String} {f : Survey}
    (h : (Survey.ofText file src).toOption = some f) :
    ((lines src.toList).IsChain fun line next => ¬ Joins line next) ↔
      (lines src.toList).IsChain fun line next => ¬ Swallows line next := by
  constructor
  · intro hchain
    exact hchain.imp fun line next hjoins hswallows => hjoins (Swallows.joins hswallows)
  · intro hchain
    rw [List.isChain_iff_forall_rel_of_append_cons_cons] at hchain ⊢
    intro line next pre rest hlines hjoins
    have hbreak := break_not_mem_lines src.toList line (by rw [hlines]; simp)
    rw [toOption_ofText, hlines] at h
    exact hchain hlines (swallows_of_joins hbreak hjoins h)

/-- A text that can be read as it stands is kept by joining, and its forest with it, exactly if no
conditional swallows the line below it. -/
theorem Survey.joining_keeps_readable_text_iff {file src : String} {f : Survey}
    (h : Survey.ofText file src = .ok f) :
    (foldContinuations src = src ↔
      (lines src.toList).IsChain fun line next => ¬ Swallows line next) ∧
    (Survey.ofSource file src = .ok f ↔ foldContinuations src = src) := by
  have hforest : (Survey.ofText file src).toOption = some f := congrArg Except.toOption h
  refine ⟨(foldContinuations_eq_self_iff src).trans (isChain_joins_iff_swallows hforest), ?_⟩
  constructor
  · intro hsource
    rcases foldLines_cases (lines src.toList) with ⟨hchain, _⟩ | ⟨_, hlt⟩
    · exact (foldContinuations_eq_self_iff src).mpr hchain
    · -- a joined line costs a statement, so the forest cannot be the same
      have hsource : (Survey.ofSource file src).toOption = some f :=
        congrArg Except.toOption hsource
      rw [toOption_ofSource] at hsource
      rw [toOption_ofText] at hforest
      exact absurd ((countP_of_forest? hsource).symm.trans (countP_of_forest? hforest)) hlt.ne
  · intro hsame
    rw [Survey.ofSource, hsame, h]

/-- Below a conditional without a blank a comment keeps the body apart; other headers need
nothing. -/
theorem commented_body_kept :
    let src := "if\"1\":\n  # body\n  group g:\n    q text:\n    r text:"
    (Survey.ofText "/form.comb" src).toOption ≠ none ∧ foldContinuations src = src ∧
      (Survey.ofSource "/form.comb" src).toOption = (Survey.ofText "/form.comb" src).toOption := by
  intro src
  have hsome : (Survey.ofText "/form.comb" src).toOption.isSome := by decide +kernel
  obtain ⟨f, hf⟩ := Option.isSome_iff_exists.mp hsome
  obtain ⟨hkept, hforest⟩ := Survey.joining_keeps_readable_text_iff (eq_ok_of_toOption hf)
  have hsame := hkept.mpr (by decide +kernel)
  exact ⟨by simp [hf], hsame, by rw [hforest.mpr hsame, eq_ok_of_toOption hf]⟩

/-- A conditional without a blank behind its word can be read, but its body is joined onto it and
then refused. -/
theorem tight_conditional_loses_body :
    let src := "if\"1\":\n  q text:"
    let pos (line col : Nat) : Position := ⟨"/form.comb", line, col⟩
    (Survey.ofText "/form.comb" src).toOption = some (.block (.conditional (pos 1 1) (.literal "1"))
      (.leaf (.question ⟨pos 2 3, "q", ["text"], none, []⟩) .nil) .nil) ∧
    foldContinuations src = "if\"1\": q text:\n" ∧
    (Survey.ofSource "/form.comb" src).toOption = none := by
  decide +kernel

end SurveyForms
