import SurveyForms.Proofs.DeeperLines
import SurveyForms.Proofs.Layout
import SurveyForms.Proofs.Spacing

/-! Questions wrapped by hand. Main statement: exactly when the text behind the colon of a question
may be broken into lines without a change to what is read. -/
namespace SurveyForms

open Source Text

/-- A text in which every run of spaces, tabs and line breaks is a single space. -/
def SingleSpaced (cs : List Char) : Prop :=
  '\t' ∉ cs ∧ '\n' ∉ cs ∧ cs.IsChain fun a b => ¬ (a = ' ' ∧ b = ' ')

instance : DecidablePred SingleSpaced := fun _ => inferInstanceAs (Decidable (_ ∧ _))

theorem collapse_eq_self_of_not_squeezed {cs : List Char} (h : ∀ c ∈ cs, ¬ isSqueezed c) :
    collapse cs = cs := by
  induction cs with
  | nil => rfl
  | cons c cs ih =>
    obtain ⟨hc, hcs⟩ := List.forall_mem_cons.mp h
    rw [collapse_cons, if_neg hc, ih hcs]

/-- Squeezing changes nothing where there is nothing to squeeze. -/
theorem SingleSpaced.collapse_eq {cs : List Char} (h : SingleSpaced cs) : collapse cs = cs := by
  induction cs with
  | nil => rfl
  | cons c cs ih =>
    obtain ⟨htab, hbreak, hchain⟩ := h
    have ih := ih ⟨fun hmem => htab (by simp [hmem]), fun hmem => hbreak (by simp [hmem]),
      hchain.tail⟩
    by_cases hc : isSqueezed c
    · obtain rfl : c = ' ' := by
        simp only [isSqueezed, isIndent, Bool.or_eq_true, beq_iff_eq] at hc
        rcases hc with (rfl | rfl) | rfl
        · rfl
        · simp at htab
        · simp at hbreak
      have hnext : (collapse cs).head? ≠ some ' ' := by
        rw [ih]
        intro hspace
        exact (List.isChain_cons.mp hchain).1 ' ' hspace ⟨rfl, rfl⟩
      have happend : collapse ([' '] ++ cs) = collapse [' '] ++ collapse cs :=
        collapse_append (.inr hnext)
      rw [← List.singleton_append, happend, ih]
      rfl
    · rw [collapse_cons, if_neg hc, ih]

/-- A question as its lexemes: the label and the values of its parameters in any spelling. -/
structure QuestionLexemes where
  name : Lexeme
  types : List Lexeme
  label : Option Lexeme
  params : List (Lexeme × Lexeme)
  name_cls : name.cls = .ident
  types_ne_nil : types ≠ []
  types_cls : ∀ l ∈ types, l.cls = .ident
  label_cls : ∀ l ∈ label, l.cls = .text ∨ l.cls = .number
  params_cls : ∀ p ∈ params, p.1.cls = .ident ∧
    (p.2.cls = .ident ∨ p.2.cls = .number ∨ p.2.cls = .text)

namespace QuestionLexemes

variable (q : QuestionLexemes)

def head : List Lexeme := q.name :: (q.types ++ [.mark ':'])

def tail : List Lexeme := q.label.toList ++ q.params.flatMap fun p => [p.1, p.2]

def question (pos : Position) : Question :=
  ⟨pos, q.name.value, q.types.map (·.value), q.label.map (·.value),
    q.params.map fun p => ⟨p.1.value, p.2.value⟩⟩

variable {q}

theorem cls_of_mem_tail {l : Lexeme} (h : l ∈ q.tail) :
    l.cls = .ident ∨ l.cls = .number ∨ l.cls = .text := by
  rcases List.mem_append.mp h with h | h
  · rcases q.label_cls l (Option.mem_toList.mp h) with hcls | hcls
    · exact .inr (.inr hcls)
    · exact .inr (.inl hcls)
  · obtain ⟨p, hp, hl⟩ := List.mem_flatMap.mp h
    obtain ⟨hkey, hvalue⟩ := q.params_cls p hp
    simp only [List.mem_cons, List.not_mem_nil, or_false] at hl
    rcases hl with rfl | rfl
    · exact .inl hkey
    · exact hvalue

theorem cls_of_mem_head {l : Lexeme} (h : l ∈ q.head) : l.cls = .ident ∨ l = .mark ':' := by
  simp only [head, List.mem_cons, List.mem_append, List.not_mem_nil, or_false] at h
  rcases h with rfl | h | rfl
  · exact .inl q.name_cls
  · exact .inl (q.types_cls l h)
  · exact .inr rfl

theorem mem_blockWords_iff :
    q.name.raw ∈ blockWords ↔ q.name.value ∈ ["if", "group", "repeat"] := by
  have hvalue : q.name.value = String.ofList q.name.raw := by
    rw [Lexeme.value, q.name_cls]
  have hwords : ["if", "group", "repeat"] = blockWords.map String.ofList := by
    simp [blockWords]
  rw [hvalue, hwords, List.mem_map]
  constructor
  · exact fun h => ⟨_, h, rfl⟩
  · rintro ⟨word, hword, heq⟩
    rwa [← String.ofList_inj.mp heq]

theorem not_comment_of_mem_head {l : Lexeme} (h : l ∈ q.head) : l.cls ≠ .comment := by
  rcases cls_of_mem_head h with hcls | rfl
  · simp [hcls]
  · simp [Lexeme.mark]

theorem not_comment_of_mem_tail {l : Lexeme} (h : l ∈ q.tail) : l.cls ≠ .comment := by
  rcases cls_of_mem_tail h with hcls | hcls | hcls <;> simp [hcls]

end QuestionLexemes

private theorem exists_of_ident {l : Lexeme} (hself : lexeme? l.raw = some l)
    (hcls : l.cls = .ident) :
    ∃ c body, l.raw = c :: body ∧ isIdentStart c ∧ ∀ b ∈ c :: body, isIdentRest b := by
  cases shape_of_lexeme? hself with
  | ident hstart hall => exact ⟨_, _, rfl, hstart, hall⟩
  | _ => cases hcls

theorem isIdentifier_value {l : Lexeme} (hself : lexeme? l.raw = some l) (hcls : l.cls = .ident) :
    isIdentifier l.value := by
  obtain ⟨c, body, hraw, hstart, hall⟩ := exists_of_ident hself hcls
  refine isIdentifier_iff.mpr ⟨c, body, ?_, hstart, fun d hd => hall d (List.mem_cons_of_mem _ hd)⟩
  rw [Lexeme.value, hcls, String.toList_ofList, hraw]

/-- Between two words there is a blank. -/
private theorem exists_gap {l : Lexeme} {ls : List Lexeme} {rest : List Char}
    (hcls : l.cls = .ident) (hends : ∀ b ∈ rest.head?, ¬ isIdentRest b)
    (hrest : solids rest = (l :: ls, [])) : ∃ d more, rest = d :: more ∧ isGap d := by
  by_contra hnone
  -- the second word would stand directly behind the first
  have hfirst : ∀ b ∈ rest.head?, ¬ isGap b := by
    intro b hb hgap
    obtain ⟨more, rfl⟩ := List.head?_eq_some_iff.mp hb
    exact hnone ⟨b, more, rfl, hgap⟩
  have hne : rest ≠ [] := by
    rintro rfl
    rw [solids_nil] at hrest
    cases hrest
  obtain ⟨_, _, more, hcons, rfl, hself, _, _⟩ := exists_lexeme_of_solids hrest hne hfirst
  obtain ⟨rfl, rfl⟩ := List.cons_eq_cons.mp hcons
  obtain ⟨c, body, hraw, _, hall⟩ := exists_of_ident hself hcls
  exact hends c (by rw [hraw]; rfl) (hall c List.mem_cons_self)

open Grammar (surveyLine parseLine parseLine_of_solids)

namespace QuestionLexemes

variable {q : QuestionLexemes}

private theorem sign_of_cls {l : Lexeme} {cls : TokenClass} (h : l.cls = cls) :
    l.sign = (cls, l.value) := by rw [Lexeme.sign, h]

/-- The lexemes of a question are read as it, unless its name is a group word. -/
theorem reads (hself : ∀ l ∈ q.head, lexeme? l.raw = some l)
    (hname : q.name.value ∉ ["group", "repeat"]) :
    surveyLine.Reads ((q.head ++ q.tail).map Lexeme.sign)
      (.question q.name.value (q.types.map (·.value)) (q.label.map (·.value))
        (q.params.map fun p => ⟨p.1.value, p.2.value⟩)) [] := by
  simp only [List.mem_cons, List.not_mem_nil, or_false, not_or] at hname
  have hident : isIdentifier q.name.value :=
    isIdentifier_value (hself _ (by simp [head])) q.name_cls
  have htypes : ∀ w ∈ q.types.map (·.value), isIdentifier w := by
    intro w hw
    obtain ⟨l, hl, rfl⟩ := List.mem_map.mp hw
    exact isIdentifier_value (hself l (by simp [head, hl])) (q.types_cls l hl)
  have hlabel : ∀ x ∈ q.label.map Lexeme.sign, x.1 = .text ∨ x.1 = .number := by
    intro x hx
    obtain ⟨l, hl, rfl⟩ := Option.map_eq_some_iff.mp hx
    exact q.label_cls l hl
  have hpairs : ∀ p ∈ q.params.map fun p => (p.1.value, p.2.sign), Grammar.Sign.IsWord p.2 := by
    intro p hp
    obtain ⟨x, hx, rfl⟩ := List.mem_map.mp hp
    exact (q.params_cls x hx).2
  have hreads := Grammar.reads_question hident hname.1 hname.2
    (by simpa using q.types_ne_nil) htypes hlabel hpairs
  have htypes_signs : q.types.map Lexeme.sign =
      q.types.map fun l => (TokenClass.ident, l.value) :=
    List.map_congr_left fun l hl => sign_of_cls (q.types_cls l hl)
  have hparam_signs : (q.params.flatMap fun p => [p.1, p.2]).map Lexeme.sign =
      q.params.flatMap fun p => [(TokenClass.ident, p.1.value), p.2.sign] := by
    rw [List.map_flatMap]
    refine List.flatMap_congr fun p hp => ?_
    rw [List.map_cons, List.map_singleton, sign_of_cls (q.params_cls p hp).1]
  have hsigns : (q.head ++ q.tail).map Lexeme.sign = (.ident, q.name.value) ::
      ((q.types.map fun l => (.ident, l.value)) ++ (.punct, ":") ::
        ((q.label.map Lexeme.sign).toList ++
          q.params.flatMap fun p => [(.ident, p.1.value), p.2.sign])) := by
    simp [head, tail, sign_of_cls q.name_cls, htypes_signs, hparam_signs, Grammar.sign_mark,
      Option.toList_map]
  rw [hsigns]
  simpa [List.flatMap_map, Function.comp_def, Lexeme.sign] using hreads

end QuestionLexemes

/-- The forest of a single line that is a question. -/
theorem forest?_question {file : String} {l : Line} {name : String} {type : List String}
    {label : Option String} {params : List Param} (hcomment : l.isComment = false)
    (h : parseLine surveyLine l.text = .ok (.question name type label params)) :
    (surveyReader file).forest? file [l] =
      some (.leaf (.question ⟨⟨file, l.number, l.col⟩, name, type, label, params⟩) .nil) := by
  have hentry : (surveyReader file).entry l =
      .ok (.leaf (.question ⟨⟨file, l.number, l.col⟩, name, type, label, params⟩)) := by
    simp only [surveyReader, h]
    rfl
  rw [LineReader.forest?_singleton _ _ hcomment, hentry]
  rfl

private theorem laid_withoutReturn {ls : List Lexeme} {cs : List Char} (h : Laid ls cs) :
    Laid ls (withoutReturn cs) := by
  unfold withoutReturn
  split
  · next hlast =>
    have hcs := List.dropLast_append_getLast? '\r' (by simpa using hlast)
    have hblank : ∀ c ∈ ['\r'], isBlank c := List.all_eq_true.mp (by decide)
    exact Laid.of_append_blank hblank (by rwa [hcs])
  · exact h

/-- A question on one line, and the same question with the text behind its colon broken into lines
at borders of lexemes. Every line below is indented like the header and deeper. -/
structure Wrapping (q : QuestionLexemes) where
  indent : List Char
  /-- The header up to its colon. -/
  head : List Char
  /-- What stands behind the colon on the one line. -/
  after : List Char
  /-- White space that is left behind the colon of the header. -/
  behind : List Char
  /-- The lines below, each with what it is indented more than the header. -/
  below : List (List Char × List Char)
  indented : ∀ c ∈ indent, isIndent c
  head_starts : ∀ c ∈ head.head?, ¬ isGap c
  head_ends : head.getLast? = some ':'
  head_solids : solids head = (q.head, [])
  after_solids : solids after = (q.tail, [])
  behind_gaps : ∀ c ∈ behind, isGap c
  below_ne_nil : below ≠ []
  deeper : ∀ p ∈ below, p.1 ≠ [] ∧ ∀ c ∈ p.1, isIndent c
  starts : ∀ p ∈ below, p.2 ≠ [] ∧ ∀ c ∈ p.2.head?, ¬ isGap c
  readable : ∀ p ∈ below, (solids p.2).2 = []
  pieces : below.flatMap (fun p => (solids p.2).1) = q.tail
  unbroken : '\n' ∉ head ∧ '\n' ∉ after ∧ ∀ p ∈ below, '\n' ∉ p.2
  /-- White space inside quotes is single spaces. -/
  spaced : ∀ l ∈ q.tail, l.cls = .text → SingleSpaced l.raw

namespace Wrapping

variable {q : QuestionLexemes} (w : Wrapping q)

def single : String := String.ofList (w.indent ++ w.head ++ w.after)

def header : List Char := w.indent ++ w.head ++ w.behind

def linesBelow : List (List Char) := w.below.map fun p => w.indent ++ p.1 ++ p.2

def broken : String := String.ofList (unlines (w.header :: w.linesBelow))

/-! The header. -/

theorem laid_head : Laid q.head w.head :=
  Laid.of_solids w.head_solids fun _ => QuestionLexemes.not_comment_of_mem_head

theorem self_of_mem_head (w : Wrapping q) : ∀ l ∈ q.head, lexeme? l.raw = some l :=
  fun l hl => (w.laid_head.self_of_mem l hl).1

/-- The header begins with its name and a blank. -/
theorem exists_head : ∃ c name d rest, q.name.raw = c :: name ∧ isIdentStart c ∧
    (∀ b ∈ c :: name, isIdentRest b) ∧ w.head = c :: name ++ d :: rest ∧ isGap d := by
  have hne : w.head ≠ [] := by
    intro hnil
    have hends := w.head_ends
    rw [hnil] at hends
    cases hends
  obtain ⟨_, _, rest, hcons, hhead, hself, hends, hrest⟩ :=
    exists_lexeme_of_solids w.head_solids hne w.head_starts
  obtain ⟨rfl, rfl⟩ := List.cons_eq_cons.mp hcons
  obtain ⟨c, name, hraw, hstart, hall⟩ := exists_of_ident hself q.name_cls
  have hends : ∀ b ∈ rest.head?, ¬ isIdentRest b := by
    simpa [Lexeme.Ends, q.name_cls] using hends
  obtain ⟨l, types, htypes⟩ := List.exists_cons_of_ne_nil q.types_ne_nil
  rw [htypes, List.cons_append] at hrest
  have hcls : l.cls = .ident := q.types_cls l (by simp [htypes])
  obtain ⟨d, more, rfl, hd⟩ := exists_gap hcls hends hrest
  exact ⟨c, name, d, more, hraw, hstart, hall, by rw [hhead, hraw], hd⟩

end Wrapping

theorem isWord_of_isIdentRest {c : Char} (h : isIdentRest c) : isWord c := by
  have hlow : c.toNat < 0x80 := by
    simp [isIdentRest, Char.isAlphanum, isAlpha_iff, Char.isDigit, UInt32.le_iff_toNat_le,
      Char.ext_iff, ← UInt32.toNat_inj] at h
    omega
  rw [isWord, if_pos hlow]
  exact h

/-- A name with a blank behind it opens a block exactly if it is a block word. -/
theorem startsBlock_append_iff {name : List Char} (hname : ∀ c ∈ name, isIdentRest c) {d : Char}
    (hd : isBlank d) (rest : List Char) :
    startsBlock (name ++ d :: rest) ↔ name ∈ blockWords := by
  have htake {word : List Char} (hword : ∀ c ∈ word, isIdentRest c) {e : Char} (he : isBlank e)
      (more : List Char) : (word ++ e :: more).takeWhile isIdentRest = word := by
    have he : ¬ isIdentRest e := fun h => not_isBlank_of_isIdentRest h he
    rw [List.takeWhile_append_of_pos hword, List.takeWhile_cons_of_neg he, List.append_nil]
  have hwords : ∀ word ∈ blockWords, ∀ c ∈ word, isIdentRest c := by
    have hall : blockWords.all (·.all isIdentRest) := by decide
    simpa using hall
  simp only [startsBlock, List.any_eq_true, Bool.and_eq_true, List.isPrefixOf_iff_prefix]
  constructor
  · rintro ⟨word, hword, ⟨tail, htail⟩, hblank⟩
    rw [← htail, List.drop_left] at hblank
    cases tail with
    | nil => cases hblank
    | cons e more =>
      have hsame : word = name := by
        rw [← htake (hwords word hword) hblank more, htail, htake hname hd rest]
      rwa [← hsame]
  · intro hmem
    exact ⟨name, hmem, List.prefix_append _ _, by simpa using hd⟩

namespace Wrapping

variable {q : QuestionLexemes} (w : Wrapping q)

theorem startsBlock_iff : startsBlock (w.head ++ w.behind) ↔ q.name.raw ∈ blockWords := by
  obtain ⟨c, name, d, rest, hraw, _, hall, hhead, hd⟩ := w.exists_head
  rw [hhead, List.append_assoc, List.cons_append, hraw]
  exact startsBlock_append_iff hall (isBlank_of_isGap hd) _

theorem isHeader (hname : q.name.raw ∉ blockWords) (hbehind : ∀ c ∈ w.behind, c = ' ') :
    IsHeader w.indent w.head w.behind := by
  obtain ⟨c, name, d, rest, _, _, hall, hhead, _⟩ := w.exists_head
  refine ⟨w.indented, hbehind, w.unbroken.1, .inr ⟨⟨c, by rw [hhead]; rfl, ?_⟩, ?_, w.head_ends⟩⟩
  · exact isWord_of_isIdentRest (hall c (by simp))
  · exact Bool.eq_false_iff.mpr fun h => hname (w.startsBlock_iff.mp h)

/-- The first character of the header stands behind its indentation. -/
theorem exists_first : ∃ c rest, w.head = c :: rest ∧ isIdentStart c ∧ ¬ isBlank c ∧
    ¬ isIndent c := by
  obtain ⟨c, name, d, rest, _, hstart, hall, hhead, _⟩ := w.exists_head
  have hblank := not_isBlank_of_isIdentRest (hall c (by simp))
  exact ⟨c, _, hhead, hstart, hblank, fun hindent => hblank (isBlank_of_isIndent hindent)⟩

/-! The header with any text behind its colon. -/

theorem indentOf_line (text : List Char) : indentOf (w.indent ++ w.head ++ text) = w.indent := by
  obtain ⟨c, rest, hhead, _, _, hc⟩ := w.exists_first
  rw [hhead, List.append_assoc, List.cons_append]
  exact indentOf_append w.indented hc _

theorem contentOf_line (text : List Char) :
    contentOf (w.indent ++ w.head ++ text) = w.head ++ text := by
  obtain ⟨c, rest, hhead, _, _, hc⟩ := w.exists_first
  rw [hhead, contentOf, List.append_assoc, List.dropWhile_append_of_pos w.indented,
    List.cons_append, List.dropWhile_cons_of_neg hc]

theorem indentColumn_line (text : List Char) :
    indentColumn 0 (w.indent ++ w.head ++ text) = indentColumn 0 w.indent := by
  obtain ⟨c, rest, hhead, _, _, hc⟩ := w.exists_first
  rw [hhead, List.append_assoc, List.cons_append, indentColumn_indent hc]

theorem begins_line (text : List Char) : Begins (w.indent ++ w.head ++ text) := by
  obtain ⟨c, rest, hhead, hstart, hblank, _⟩ := w.exists_first
  refine ⟨w.indent, c, rest ++ text, by rw [hhead, List.append_assoc, List.cons_append],
    fun b hb => isBlank_of_isIndent (w.indented b hb), hblank, ?_⟩
  rintro rfl
  cases hstart

/-- Behind the colon of a header that joining applies to stand only spaces. -/
private theorem behind_of_getLast? (h : (dropSpaces (w.head ++ w.behind)).getLast? = some ':') :
    ∀ c ∈ w.behind, c = ' ' := by
  have hsplit := List.rdropWhile_append_rtakeWhile (p := (· == ' ')) (l := w.behind)
  have hspaces : ∀ c ∈ w.behind.rtakeWhile (· == ' '), c = ' ' := fun c hc => by
    simpa using List.mem_rtakeWhile_imp hc
  by_cases hkept : w.behind.rdropWhile (· == ' ') = []
  · rw [hkept, List.nil_append] at hsplit
    rwa [hsplit] at hspaces
  · have hlast := List.rdropWhile_last_not (· == ' ') w.behind hkept
    have hmem : (w.behind.rdropWhile (· == ' ')).getLast hkept ∈ w.behind :=
      (List.rdropWhile_prefix _ _).subset (List.getLast_mem hkept)
    have hgetLast : (w.head ++ w.behind.rdropWhile (· == ' ')).getLast? =
        some ((w.behind.rdropWhile (· == ' ')).getLast hkept) := by
      rw [List.getLast?_append_of_ne_nil _ hkept, List.getLast?_eq_some_getLast hkept]
    rw [← hsplit, ← List.append_assoc, dropSpaces_append hspaces, hgetLast] at h
    · have hgap := w.behind_gaps _ hmem
      rw [Option.some.inj h] at hgap
      cases hgap
    · rw [hgetLast]
      intro hspace
      exact hlast (by simpa using hspace)

/-- Joining applies to the header unless its name is a block word or something other than spaces
stands behind the colon. -/
theorem head?_isSome_iff : (head? (contentOf w.header)).isSome ↔
    q.name.raw ∉ blockWords ∧ ∀ c ∈ w.behind, c = ' ' := by
  constructor
  · intro hsome
    obtain ⟨kept, hkept⟩ := Option.isSome_iff_exists.mp hsome
    obtain ⟨c, rest, hhead, hstart, _⟩ := w.exists_first
    rw [header, contentOf_line, hhead, List.cons_append] at hkept
    rcases head?_cases hkept with rfl | ⟨hblock, hlast⟩
    · cases hstart
    · rw [← List.cons_append, ← hhead] at hblock hlast
      refine ⟨fun hname => ?_, w.behind_of_getLast? hlast⟩
      rw [w.startsBlock_iff.mpr hname] at hblock
      cases hblock
  · rintro ⟨hname, hbehind⟩
    rw [header, (w.isHeader hname hbehind).head?_contentOf]
    rfl

/-! The lines below. -/

theorem solids_eq {p : List Char × List Char} (hp : p ∈ w.below) :
    solids p.2 = ((solids p.2).1, []) := Prod.ext rfl (w.readable p hp)

theorem mem_tail {p : List Char × List Char} (hp : p ∈ w.below) :
    ∀ l ∈ (solids p.2).1, l ∈ q.tail := by
  intro l hl
  rw [← w.pieces]
  exact List.mem_flatMap.mpr ⟨p, hp, hl⟩

/-- A line below begins with a word character or a quote. -/
theorem exists_below {p : List Char × List Char} (hp : p ∈ w.below) :
    ∃ c rest, p.2 = c :: rest ∧ ¬ isBlank c ∧ c ≠ '#' ∧ ((c = '"' ∨ isWord c) ↔ c ≠ '\'') := by
  obtain ⟨l, ls, rest, hls, heq, hself, _, _⟩ :=
    exists_lexeme_of_solids (w.solids_eq hp) (w.starts p hp).1 (w.starts p hp).2
  have hcls := QuestionLexemes.cls_of_mem_tail (w.mem_tail hp l (by simp [hls]))
  have hshape := shape_of_lexeme? hself
  have hloud : ¬ l.Silent := by
    rintro (h | h) <;> simp [h] at hcls
  obtain ⟨c, raw, hraw⟩ := List.exists_cons_of_ne_nil (raw_ne_nil_of_lexeme? hself)
  obtain ⟨hblank, hmark⟩ := hshape.first_of_not_silent hloud c (by rw [hraw]; rfl)
  have hword (h : isIdentRest c) : (c = '"' ∨ isWord c) ↔ c ≠ '\'' := by
    refine iff_of_true (.inr (isWord_of_isIdentRest h)) ?_
    rintro rfl
    cases h
  refine ⟨c, raw ++ rest, by rw [heq, hraw, List.cons_append], hblank, hmark, ?_⟩
  cases hshape with
  | text hquote =>
    obtain ⟨rfl, _⟩ := List.cons_eq_cons.mp hraw
    rcases hquote with rfl | rfl
    · exact iff_of_true (.inl rfl) (by decide)
    · exact iff_of_false (by decide) (by simp)
  | number hall =>
    cases hraw
    exact hword (by simp [isIdentRest, Char.isAlphanum, hall c (by simp)])
  | ident _ hall =>
    cases hraw
    exact hword (hall c (by simp))
  | _ => simp at hcls

theorem begins_of_mem_linesBelow : ∀ l ∈ w.linesBelow, Begins l := by
  intro l hl
  obtain ⟨p, hp, rfl⟩ := List.mem_map.mp hl
  obtain ⟨c, rest, hp2, hblank, hmark, _⟩ := w.exists_below hp
  refine ⟨w.indent ++ p.1, c, rest, by rw [hp2], fun b hb => ?_, hblank, hmark⟩
  exact isBlank_of_isIndent
    (List.forall_mem_append.mpr ⟨w.indented, (w.deeper p hp).2⟩ b hb)

/-- A line that is deeper continues a header exactly if it begins with a double quote or a word
character. -/
private theorem continues_deeper_iff {indent deeper : List Char} (hne : deeper ≠ [])
    (hdeeper : ∀ c ∈ deeper, isIndent c) {c : Char} (hc : ¬ isIndent c) (rest : List Char) :
    continues indent (indent ++ deeper ++ c :: rest) ↔ c = '"' ∨ isWord c := by
  obtain ⟨b, more, rfl⟩ := List.exists_cons_of_ne_nil hne
  obtain ⟨hb, hmore⟩ := List.forall_mem_cons.mp hdeeper
  have hcontent : contentOf (more ++ c :: rest) = c :: rest := by
    rw [contentOf, List.dropWhile_append_of_pos hmore, List.dropWhile_cons_of_neg hc]
  simp [continues, hb, hcontent]

theorem continues_iff : (∀ l ∈ w.linesBelow, continues (indentOf w.header) l) ↔
    ∀ p ∈ w.below, p.2.head? ≠ some '\'' := by
  rw [linesBelow, List.forall_mem_map, header, indentOf_line]
  refine forall₂_congr fun p hp => ?_
  obtain ⟨c, rest, hp2, hblank, _, hquote⟩ := w.exists_below hp
  have hc : ¬ isIndent c := fun hindent => hblank (isBlank_of_isIndent hindent)
  rw [hp2, continues_deeper_iff (w.deeper p hp).1 (w.deeper p hp).2 hc rest, hquote]
  simp

/-! The text behind the colon, on one line and joined. -/

private theorem collapse_raw (w : Wrapping q) {l : Lexeme} (hself : lexeme? l.raw = some l)
    (hl : l ∈ q.tail) : collapse l.raw = l.raw := by
  have hident {cs : List Char} (h : ∀ c ∈ cs, isIdentRest c) : collapse cs = cs :=
    collapse_eq_self_of_not_squeezed fun c hc hsqueezed =>
      not_isBlank_of_isIdentRest (h c hc) (isBlank_of_isSqueezed hsqueezed)
  have hcls := QuestionLexemes.cls_of_mem_tail hl
  have hspaced := w.spaced l hl
  cases shape_of_lexeme? hself with
  | text => exact (hspaced rfl).collapse_eq
  | number hall => exact hident fun c hc => by simp [isIdentRest, Char.isAlphanum, hall c hc]
  | ident _ hall => exact hident hall
  | _ => simp at hcls

theorem laid_after : Laid q.tail w.after :=
  Laid.of_solids w.after_solids fun _ => QuestionLexemes.not_comment_of_mem_tail

private theorem laid_unlines {indent : List Char} (hindent : ∀ c ∈ indent, isIndent c)
    {below : List (List Char × List Char)}
    (h : ∀ p ∈ below, (∀ c ∈ p.1, isIndent c) ∧ Laid (solids p.2).1 p.2) :
    Laid (below.flatMap fun p => (solids p.2).1)
      (unlines (below.map fun p => indent ++ p.1 ++ p.2)) := by
  have hline {p : List Char × List Char} (hp : (∀ c ∈ p.1, isIndent c) ∧ Laid (solids p.2).1 p.2) :
      Laid (solids p.2).1 (indent ++ p.1 ++ p.2) := by
    refine hp.2.spaces fun c hc => ?_
    have hc := isGap_of_isIndent (List.forall_mem_append.mpr ⟨hindent, hp.1⟩ c hc)
    simp [isSpacing, hc]
  induction below with
  | nil => exact .nil
  | cons p below ih =>
    obtain ⟨hp, hbelow⟩ := List.forall_mem_cons.mp h
    cases below with
    | nil => simpa [unlines, glue] using hline hp
    | cons p' below => exact (hline hp).append_space rfl (ih hbelow)

/-- Joined, the lines below hold the lexemes of the one line. -/
theorem laid_joined : Laid q.tail (joined w.linesBelow) := by
  have hlines : Laid q.tail (unlines w.linesBelow) := by
    have hbelow : ∀ p ∈ w.below, (∀ c ∈ p.1, isIndent c) ∧ Laid (solids p.2).1 p.2 := fun p hp =>
      ⟨(w.deeper p hp).2, Laid.of_solids (w.solids_eq hp) fun l hl =>
        QuestionLexemes.not_comment_of_mem_tail (w.mem_tail hp l hl)⟩
    have hpieces := laid_unlines w.indented hbelow
    rwa [w.pieces] at hpieces
  refine (hlines.collapse fun l hl => ?_).trim
  exact w.collapse_raw (hlines.self_of_mem l hl).1 hl

/-- The header with the lexemes of the text behind its colon is read as the question. -/
theorem forest?_line {text : List Char} (hlaid : Laid q.tail text) (hbreak : '\n' ∉ text)
    (hname : q.name.value ∉ ["group", "repeat"]) (file : String) (breaks : Nat) :
    (surveyReader file).forest? file
        (linesFrom 1 ((w.indent ++ w.head ++ text) :: List.replicate breaks [])) =
      some (.leaf (.question (q.question ⟨file, 1, indentColumn 0 w.indent⟩)) .nil) := by
  have hends : ∀ l ∈ q.head.getLast?, l.Ends text.head? := by
    intro l hl c _
    rw [QuestionLexemes.head, ← List.cons_append, List.getLast?_concat] at hl
    cases hl
    trivial
  have hall : Laid (q.head ++ q.tail) (withoutReturn (w.head ++ text)) :=
    laid_withoutReturn (w.laid_head.append hlaid hends)
  have hunbroken : '\n' ∉ withoutReturn (w.head ++ text) := by
    intro hmem
    rcases List.mem_append.mp (mem_of_mem_withoutReturn hmem) with hmem | hmem
    · exact w.unbroken.1 hmem
    · exact hbreak hmem
  have hgaps : ∀ c ∈ w.indent, isGap c := fun c hc => isGap_of_isIndent (w.indented c hc)
  have hsolids := (solids_append hgaps _).trans (hall.solids_eq hunbroken)
  have hcomment : ∀ l ∈ q.head ++ q.tail, l.cls ≠ .comment := by
    rw [List.forall_mem_append]
    exact ⟨fun _ => QuestionLexemes.not_comment_of_mem_head,
      fun _ => QuestionLexemes.not_comment_of_mem_tail⟩
  have hparse := parseLine_of_solids hsolids hcomment
    (QuestionLexemes.reads w.self_of_mem_head hname)
  have hbegins := w.begins_line text
  have hvisible : ¬ allBlank (w.indent ++ w.head ++ text) := by
    obtain ⟨gap, c, rest, heq, _, hc, _⟩ := hbegins
    simp [heq, allBlank, hc]
  have hline := ofText?_eq 1 (w.indent ++ w.head ++ text)
  rw [if_neg hvisible, indentOf_line, contentOf_line, indentColumn_line] at hline
  have hstatement := isStatement_of_begins hbegins
  rw [← any_ofText? 1, hline, Option.any_some, Bool.not_eq_true'] at hstatement
  rw [linesFrom_cons, linesFrom_blank, List.append_nil, hline]
  exact forest?_question hstatement hparse

/-! Reading the question on one line, and broken into lines. -/

/-- The forest of a source with the question alone. -/
def forest (file : String) : Survey :=
  .leaf (.question (q.question ⟨file, 1, indentColumn 0 w.indent⟩)) .nil

theorem ofSource_single (hname : q.name.value ∉ ["group", "repeat"]) (file : String) :
    Survey.ofSource file w.single = .ok (w.forest file) := by
  have hbreak : '\n' ∉ w.indent ++ w.head ++ w.after := by
    simp only [List.mem_append, not_or]
    exact ⟨⟨break_not_mem_indent w.indented, w.unbroken.1⟩, w.unbroken.2.1⟩
  have hlines : lines w.single.toList = [w.indent ++ w.head ++ w.after] := by
    rw [single, String.toList_ofList, lines, cut_of_not_mem hbreak]
  have hfold : foldContinuations w.single = w.single := by
    rw [foldContinuations_eq_self_iff, hlines]
    exact .singleton _
  have hforest := w.forest?_line w.laid_after w.unbroken.2.1 hname file 0
  rw [Survey.ofSource, hfold]
  exact eq_ok_of_toOption (by rw [toOption_ofText, hlines]; exact hforest)

theorem lines_broken : lines w.broken.toList = w.header :: w.linesBelow := by
  rw [broken, String.toList_ofList, lines, unlines, cut_glue (by simp)]
  refine List.forall_mem_cons.mpr ⟨?_, fun l hl => ?_⟩
  · simp only [header, List.mem_append, not_or]
    exact ⟨⟨break_not_mem_indent w.indented, w.unbroken.1⟩,
      fun hmem => absurd (w.behind_gaps _ hmem) (by decide)⟩
  · obtain ⟨p, hp, rfl⟩ := List.mem_map.mp hl
    simp only [List.mem_append, not_or]
    exact ⟨⟨break_not_mem_indent w.indented, break_not_mem_indent (w.deeper p hp).2⟩,
      w.unbroken.2.2 p hp⟩

theorem linesBelow_ne_nil : w.linesBelow ≠ [] := by
  simpa [linesBelow] using w.below_ne_nil

/-- A question whose lines are joined is read. -/
theorem ofSource_broken_of_joins (hname : q.name.raw ∉ blockWords)
    (hbehind : ∀ c ∈ w.behind, c = ' ')
    (hbelow : ∀ l ∈ w.linesBelow, continues (indentOf w.header) l) (file : String) :
    Survey.ofSource file w.broken = .ok (w.forest file) := by
  have hvalue : q.name.value ∉ ["group", "repeat"] := fun hmem =>
    hname (QuestionLexemes.mem_blockWords_iff.mpr (List.mem_cons_of_mem _ hmem))
  have hhead : head? (contentOf w.header) = some w.head :=
    (w.isHeader hname hbehind).head?_contentOf
  have hfold : foldLines (w.header :: (w.linesBelow ++ [])) = _ :=
    foldLines_run hhead hbelow (by simp)
  have hindent : indentOf w.header = w.indent := w.indentOf_line w.behind
  rw [List.append_nil, wrapped_of_ne_nil w.linesBelow_ne_nil, hindent, List.map_const', foldLines,
    List.append_nil] at hfold
  have hlaid : Laid q.tail (' ' :: joined w.linesBelow) := .space rfl w.laid_joined
  have hbreak : '\n' ∉ ' ' :: joined w.linesBelow := by
    simpa using break_not_mem_joined w.linesBelow
  have hforest := w.forest?_line hlaid hbreak hvalue file w.linesBelow.length
  exact eq_ok_of_toOption (by rw [toOption_ofSource, lines_broken, hfold]; exact hforest)

/-- Lines that begin a statement leave one when they are folded. -/
private theorem countP_foldLines_pos {ls : List (List Char)} (hne : ls ≠ [])
    (h : ∀ l ∈ ls, Begins l) : 0 < (foldLines ls).countP isStatement := by
  obtain ⟨l, rest, rfl⟩ := List.exists_cons_of_ne_nil hne
  have hl : Begins l := h l (by simp)
  rw [List.countP_pos_iff]
  cases hheader : head? (contentOf l) with
  | none =>
    rw [foldLines_cons_of_none hheader]
    exact ⟨l, by simp, isStatement_of_begins hl⟩
  | some kept =>
    rw [foldLines_cons_of_some hheader]
    exact ⟨_, List.mem_cons_self, isStatement_of_begins (begins_wrapped hheader hl _)⟩

/-- If the header is no header for joining, or one of the lines below does not continue it, there
are at least two statements. -/
private theorem two_le_countP (h : ¬ ((head? (contentOf w.header)).isSome ∧
    ∀ l ∈ w.linesBelow, continues (indentOf w.header) l)) :
    2 ≤ (foldLines (w.header :: w.linesBelow)).countP isStatement := by
  have hheader : Begins w.header := w.begins_line w.behind
  cases hhead : head? (contentOf w.header) with
  | none =>
    have hpos := countP_foldLines_pos w.linesBelow_ne_nil w.begins_of_mem_linesBelow
    rw [foldLines_cons_of_none hhead, List.countP_cons_of_pos (isStatement_of_begins hheader)]
    omega
  | some kept =>
    obtain ⟨run, more, hbelow, -, hrun, hmore⟩ := exists_run w.header w.linesBelow
    have hne : more ≠ [] := by
      rintro rfl
      rw [List.append_nil] at hbelow
      exact h ⟨by rw [hhead]; rfl, hbelow ▸ hrun⟩
    have hbegins : ∀ l ∈ more, Begins l := fun l hl =>
      w.begins_of_mem_linesBelow l (by simp [hbelow, hl])
    have hpos := countP_foldLines_pos hne hbegins
    rw [hbelow, foldLines_run hhead hrun hmore, List.cons_append,
      List.countP_cons_of_pos (isStatement_of_begins (begins_wrapped hhead hheader run)),
      List.countP_append]
    omega

end Wrapping

/-- A question on one line is read as it, and broken into lines behind its colon it is read as the
same question at the same place exactly if its name is no block word, nothing but spaces stays
behind the colon, and no line below begins with a single quote. -/
theorem wrapped_question_read_iff {q : QuestionLexemes} (w : Wrapping q) (file : String) :
    (q.name.value ∉ ["group", "repeat"] →
      Survey.ofSource file w.single = .ok (w.forest file)) ∧
    (Survey.ofSource file w.broken = .ok (w.forest file) ↔
      q.name.value ∉ ["if", "group", "repeat"] ∧ (∀ c ∈ w.behind, c = ' ') ∧
        ∀ p ∈ w.below, p.2.head? ≠ some '\'') := by
  refine ⟨fun hname => w.ofSource_single hname file, ?_⟩
  rw [← QuestionLexemes.mem_blockWords_iff, ← and_assoc, ← w.head?_isSome_iff, ← w.continues_iff]
  constructor
  · intro hread
    by_contra hnot
    -- lines that are not joined are statements of their own
    have hforest := congrArg Except.toOption hread
    rw [toOption_ofSource, w.lines_broken] at hforest
    have hcount := countP_of_forest? hforest
    have htwo := w.two_le_countP hnot
    have hone : (w.forest file).spelled.length = 1 := rfl
    omega
  · rintro ⟨hsome, hbelow⟩
    obtain ⟨hname, hbehind⟩ := w.head?_isSome_iff.mp hsome
    exact w.ofSource_broken_of_joins hname hbehind hbelow file

private def hintedQuestion : QuestionLexemes where
  name := ⟨.ident, "q".toList⟩
  types := [⟨.ident, "text".toList⟩]
  label := some ⟨.text, "\"Your name\"".toList⟩
  params := [(⟨.ident, "hint".toList⟩, ⟨.text, "'in full'".toList⟩)]
  name_cls := rfl
  types_ne_nil := by simp
  types_cls := by simp
  label_cls := by simp
  params_cls := by simp

/-- The label on a line of its own, and the hint with its value on the next. -/
private theorem exists_wrapping : ∃ w : Wrapping hintedQuestion,
    w.single = "\tq text: \"Your name\" hint 'in full'" ∧
      w.broken = "\tq text: \n\t  \"Your name\"\n\t\thint  'in full' " ∧
      (∀ c ∈ w.behind, c = ' ') ∧ ∀ p ∈ w.below, p.2.head? ≠ some '\'' := by
  refine ⟨{
    indent := ['\t']
    head := "q text:".toList
    after := " \"Your name\" hint 'in full'".toList
    behind := " ".toList
    below := [("  ".toList, "\"Your name\"".toList), ("\t".toList, "hint  'in full' ".toList)]
    indented := by simp [isIndent]
    head_starts := by simp [isGap]
    head_ends := by decide
    head_solids := by decide +kernel
    after_solids := by decide +kernel
    behind_gaps := by simp [isGap]
    below_ne_nil := by simp
    deeper := by simp [isIndent]
    starts := by simp [isGap]
    readable := by decide +kernel
    pieces := by decide +kernel
    unbroken := by decide
    spaced := by decide }, ?_, ?_, ?_, ?_⟩
  · decide
  · decide
  · simp
  · decide

theorem labelled_question_wraps :
    hintedQuestion.name.value ∉ ["if", "group", "repeat"] ∧
      Survey.ofSource "f" "\tq text: \"Your name\" hint 'in full'" =
        Survey.ofSource "f" "\tq text: \n\t  \"Your name\"\n\t\thint  'in full' " := by
  have hname : hintedQuestion.name.value ∉ ["if", "group", "repeat"] := by decide +kernel
  have hgroup : hintedQuestion.name.value ∉ ["group", "repeat"] := by decide +kernel
  obtain ⟨w, hsingle, hbroken, hbehind, hstarts⟩ := exists_wrapping
  obtain ⟨hread, hiff⟩ := wrapped_question_read_iff w "f"
  refine ⟨hname, ?_⟩
  rw [← hsingle, ← hbroken, hread hgroup, hiff.mpr ⟨hname, hbehind, hstarts⟩]

/-- A label in single quotes on a line of its own is a statement, and a wrong one. -/
theorem single_quoted_line_not_joined :
    Survey.ofSource "f" "q text: 'L'" =
        .ok (.leaf (.question ⟨⟨"f", 1, 1⟩, "q", ["text"], some "L", []⟩) .nil) ∧
      Survey.ofSource "f" "q text:\n  'L'" =
        .error ⟨⟨"f", 2, 3⟩, .unexpectedIndent⟩ := by
  decide +kernel

end SurveyForms
