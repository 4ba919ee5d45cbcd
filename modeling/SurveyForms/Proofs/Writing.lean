import SurveyForms.Proofs.Acceptance
import SurveyForms.Proofs.BlockHeaders
import SurveyForms.Proofs.Spacing

/-! Statements written as lines: one space between tokens, every string in double quotes. Main
result: a statement that can be written at all is read back from its line, whatever its strings
hold, also where a string looks like a mark or a word of the grammar. -/
namespace SurveyForms

open Source Text

namespace Source

def escapeChar : Char → List Char
  | '\\' => ['\\', '\\']
  | '"' => ['\\', '"']
  | '\n' => ['\\', 'n']
  | '\t' => ['\\', 't']
  | '\r' => ['\\', 'r']
  | '\x0c' => ['\\', 'f']
  | c => [c]

/-- A text as it stands between double quotes. -/
def escape (cs : List Char) : List Char := cs.flatMap escapeChar

/-- A character is written as an escaped pair or stands for itself. -/
private theorem escapeChar_cases (c : Char) :
    (∃ d, d ≠ '\n' ∧ escapeChar c = ['\\', d] ∧ unescape ['\\', d] = [c]) ∨
      c ≠ '\\' ∧ c ≠ '"' ∧ c ≠ '\n' ∧ escapeChar c = [c] := by
  unfold escapeChar
  split
  · exact .inl ⟨'\\', by decide, rfl, rfl⟩
  · exact .inl ⟨'"', by decide, rfl, rfl⟩
  · exact .inl ⟨'n', by decide, rfl, rfl⟩
  · exact .inl ⟨'t', by decide, rfl, rfl⟩
  · exact .inl ⟨'r', by decide, rfl, rfl⟩
  · exact .inl ⟨'f', by decide, rfl, rfl⟩
  · next hescape hquote hbreak _ _ _ => exact .inr ⟨hescape, hquote, hbreak, rfl⟩

theorem quotable_escape (cs : List Char) : Quotable '"' (escape cs) := by
  induction cs with
  | nil => exact .nil
  | cons c cs ih =>
    rw [escape, List.flatMap_cons]
    obtain ⟨d, hd, hpair, _⟩ | ⟨hescape, hquote, _, hplain⟩ := escapeChar_cases c
    · rw [hpair]
      exact .escaped (by decide) hd ih
    · rw [hplain]
      exact .plain hquote hescape ih

theorem unescape_escape (cs : List Char) : unescape (escape cs) = cs := by
  induction cs with
  | nil => rfl
  | cons c cs ih =>
    have hhead : Quotable '"' (escapeChar c) := by
      have := quotable_escape [c]
      rwa [escape, List.flatMap_singleton] at this
    rw [escape, List.flatMap_cons, unescape_append hhead, ← escape, ih]
    obtain ⟨d, _, hpair, hvalue⟩ | ⟨hescape, _, _, hplain⟩ := escapeChar_cases c
    · rw [hpair, hvalue]
      rfl
    · rw [hplain, unescape_cons hescape]
      rfl

theorem break_not_mem_escape (cs : List Char) : '\n' ∉ escape cs := by
  intro hmem
  obtain ⟨c, _, hc⟩ := List.mem_flatMap.mp hmem
  obtain ⟨d, hd, hpair, _⟩ | ⟨_, _, hbreak, hplain⟩ := escapeChar_cases c
  · rw [hpair] at hc
    simp [hd.symm] at hc
  · rw [hplain] at hc
    exact hbreak (List.mem_singleton.mp hc).symm

def isIdentifier (s : String) : Bool :=
  match s.toList with
  | c :: cs => isIdentStart c && cs.all isIdentRest
  | [] => false

theorem isIdentifier_iff {s : String} : isIdentifier s ↔
    ∃ c cs, s.toList = c :: cs ∧ isIdentStart c ∧ ∀ d ∈ cs, isIdentRest d := by
  unfold isIdentifier
  split
  · next c cs hs => simp [hs]
  · next hs => simp [hs]

theorem isIdentRest_of_mem {s : String} (h : isIdentifier s) {d : Char} (hd : d ∈ s.toList) :
    isIdentRest d := by
  obtain ⟨c, cs, hs, hc, hcs⟩ := isIdentifier_iff.mp h
  rw [hs, List.mem_cons] at hd
  rcases hd with rfl | hd
  · simp [isIdentRest, Char.isAlphanum, show d.isAlpha from hc]
  · exact hcs d hd

def reference (name : String) : String := "$\x7b" ++ name ++ "\x7d"

def comparisonSigns : List String := ["=", "!=", ">", "<", ">=", "<="]

namespace Lexeme

def word (s : String) : Lexeme := ⟨.ident, s.toList⟩

def mark (c : Char) : Lexeme := ⟨.punct, [c]⟩

def quoted (s : String) : Lexeme := ⟨.text, '"' :: escape s.toList ++ ['"']⟩

def operand (s : String) : Lexeme := if s = "." then mark '.' else ⟨.varRef, s.toList⟩

def comparison (s : String) : Lexeme := ⟨.operator, s.toList⟩

/-- A lexeme that the grammar sees, on one line. -/
structure Plain (l : Lexeme) : Prop where
  self : lexeme? l.raw = some l
  loud : ¬ l.Silent
  unbroken : '\n' ∉ l.raw

/-- What the grammar sees begins with neither white space nor a comment mark. -/
theorem Plain.first {l : Lexeme} (h : l.Plain) : ∀ c ∈ l.raw.head?, ¬ isBlank c ∧ c ≠ '#' :=
  (shape_of_lexeme? h.self).first_of_not_silent h.loud

def sign (l : Lexeme) : Grammar.Sign := (l.cls, l.value)

theorem plain_word {s : String} (h : isIdentifier s) : (word s).Plain := by
  obtain ⟨c, cs, hs, hc, hcs⟩ := isIdentifier_iff.mp h
  refine ⟨?_, by simp [word, Silent], fun hmem => ?_⟩
  · have hother (d : Char) (hd : ¬ isIdentStart d) : c ≠ d := fun heq => hd (heq ▸ hc)
    have hdigit : ¬ c.isDigit := by
      simp [isIdentStart, isAlpha_iff, Char.isDigit, UInt32.le_iff_toNat_le] at hc ⊢
      omega
    have htake : cs.takeWhile isIdentRest = cs := List.takeWhile_eq_self_iff.mpr hcs
    simp only [word, hs, lexeme?, if_neg (hother '#' (by decide)), if_neg (hother '$' (by decide)),
      if_neg (not_or.mpr ⟨hother '"' (by decide), hother '\'' (by decide)⟩), if_neg hdigit,
      if_pos hc, htake]
  · exact absurd (isIdentRest_of_mem h hmem) (by decide)

theorem plain_mark {c : Char} (h : c = '@' ∨ c = ':' ∨ c = '.') : (mark c).Plain := by
  rcases h with rfl | rfl | rfl <;> exact ⟨by decide, by simp [mark, Silent], by decide⟩

theorem plain_quoted (s : String) : (quoted s).Plain := by
  refine ⟨?_, by simp [quoted, Silent], ?_⟩
  · have hclose : closeQuote? '"' (escape s.toList ++ ['"']) = some (escape s.toList, []) :=
      closeQuote?_eq_some_iff.mpr ⟨quotable_escape _, rfl⟩
    simp [quoted, lexeme?, hclose]
  · simp [quoted, break_not_mem_escape]

theorem plain_comparison {s : String} (h : s ∈ comparisonSigns) : (comparison s).Plain := by
  simp only [comparisonSigns, List.mem_cons, List.not_mem_nil, or_false] at h
  rcases h with rfl | rfl | rfl | rfl | rfl | rfl <;>
    exact ⟨by decide, by simp [comparison, Silent], by decide⟩

private theorem toList_reference (name : String) :
    (reference name).toList = '$' :: '\x7b' :: (name.toList ++ ['\x7d']) := by
  simp [reference]

private theorem reference_ne_dot (name : String) : reference name ≠ "." := by
  intro heq
  have := congrArg String.toList heq
  simp [toList_reference] at this

theorem plain_operand {s : String} (h : s = "." ∨ ∃ name, isIdentifier name ∧ s = reference name) :
    (operand s).Plain := by
  obtain rfl | ⟨name, hname, rfl⟩ := h
  · exact plain_mark (.inr (.inr rfl))
  · obtain ⟨c, cs, hs, hc, hcs⟩ := isIdentifier_iff.mp hname
    rw [operand, if_neg (reference_ne_dot name)]
    refine ⟨?_, by simp [Silent], ?_⟩
    · have hbraced : braced? ('\x7b' :: (name.toList ++ ['\x7d'])) =
          some ('\x7b' :: (name.toList ++ ['\x7d'])) := by
        refine braced?_eq_some_iff.mpr ⟨⟨[], c, cs, [], ?_, by simp, hc, hcs, by simp⟩, ?_⟩
        · simp [hs]
        · exact List.prefix_refl _
      simp [toList_reference, lexeme?, hbraced]
    · have := (plain_word hname).unbroken
      simpa [toList_reference, word] using this

end Lexeme

theorem value_word (s : String) : (Lexeme.word s).value = s := String.ofList_toList

theorem value_quoted (s : String) : (Lexeme.quoted s).value = s := by
  simp [Lexeme.value, Lexeme.quoted, unescape_escape]

theorem value_comparison (s : String) : (Lexeme.comparison s).value = s := String.ofList_toList

theorem value_operand {s : String} (h : s = "." ∨ ∃ name, isIdentifier name ∧ s = reference name) :
    (Lexeme.operand s).value = s := by
  obtain rfl | ⟨name, hname, rfl⟩ := h
  · rfl
  · obtain ⟨c, cs, hs, hc, hcs⟩ := isIdentifier_iff.mp hname
    rw [Lexeme.operand, if_neg (Lexeme.reference_ne_dot name), Lexeme.value]
    have hall : ∀ d ∈ (reference name).toList, !isBlank d := by
      simp only [Lexeme.toList_reference, List.mem_cons, List.mem_append, List.not_mem_nil,
        or_false, Bool.not_eq_true']
      rintro d (rfl | rfl | hd | rfl)
      · rfl
      · rfl
      · exact Bool.eq_false_iff.mpr (not_isBlank_of_isIdentRest (isIdentRest_of_mem hname hd))
      · rfl
    simp only [List.filter_eq_self.mpr hall, String.ofList_toList]

def spaced (ls : List Lexeme) : List Char := glue ' ' (ls.map (·.raw))

theorem spaced_cons (l : Lexeme) (ls : List Lexeme) :
    spaced (l :: ls) = l.raw ++ if ls = [] then [] else ' ' :: spaced ls := by
  cases ls with
  | nil => simp [spaced, glue]
  | cons l' ls => rfl

theorem first_spaced {ls : List Lexeme} (h : ∀ l ∈ ls, l.Plain) :
    ∀ c ∈ (spaced ls).head?, ¬ isBlank c ∧ c ≠ '#' := by
  cases ls with
  | nil => intro c hc; cases hc
  | cons l ls =>
    obtain ⟨hl, _⟩ := List.forall_mem_cons.mp h
    rw [spaced_cons, List.head?_append_of_ne_nil _ (raw_ne_nil_of_lexeme? hl.self)]
    exact hl.first

theorem last_spaced {ls : List Lexeme} (h : ∀ l ∈ ls, l.Plain) :
    ∀ c ∈ (spaced ls).getLast?, ¬ isBlank c := by
  induction ls with
  | nil => intro c hc; cases hc
  | cons l ls ih =>
    obtain ⟨hl, hls⟩ := List.forall_mem_cons.mp h
    rw [spaced_cons]
    split
    · rw [List.append_nil]
      exact fun c hc => ((shape_of_lexeme? hl.self).last_of_not_silent hl.loud c hc).1
    · next hne =>
      obtain ⟨l', ls', rfl⟩ := List.exists_cons_of_ne_nil hne
      have hnil : spaced (l' :: ls') ≠ [] := by
        rw [spaced_cons]
        exact List.append_ne_nil_of_left_ne_nil
          (raw_ne_nil_of_lexeme? (hls l' (by simp)).self) _
      rw [List.getLast?_append_of_ne_nil _ (by simp), List.getLast?_cons_of_ne_nil hnil]
      exact ih hls

theorem break_not_mem_spaced {ls : List Lexeme} (h : ∀ l ∈ ls, l.Plain) : '\n' ∉ spaced ls := by
  intro hmem
  obtain ⟨raw, hraw, hbreak⟩ := mem_of_mem_glue (by decide) hmem
  obtain ⟨l, hl, rfl⟩ := List.mem_map.mp hraw
  exact (h l hl).unbroken hbreak

theorem laid_spaced {ls : List Lexeme} (h : ∀ l ∈ ls, l.Plain) : Laid ls (spaced ls) := by
  induction ls with
  | nil => exact .nil
  | cons l ls ih =>
    obtain ⟨hl, hls⟩ := List.forall_mem_cons.mp h
    rw [spaced_cons]
    split
    · next hnil => exact hnil ▸ .lexeme hl.self hl.loud l.ends_none .nil
    · refine .lexeme hl.self hl.loud (ends_of_isSpacing hl.loud ?_) (.space rfl (ih hls))
      rintro c ⟨⟩
      rfl

end Source

def Param.lexemes (p : Param) : List Lexeme := [.word p.key, .quoted p.value]

def Condition.lexemes : Condition → List Lexeme
  | .comparison left operator value => [.operand left, .comparison operator, .quoted value]
  | .literal value => [.quoted value]

/-- A condition that can be written: a literal, or a comparison of a reference or a dot. -/
def Condition.Expressible : Condition → Prop
  | .comparison left operator _ =>
    (left = "." ∨ ∃ name, isIdentifier name ∧ left = reference name) ∧ operator ∈ comparisonSigns
  | .literal _ => True

def Condition.isComparison : Condition → Bool
  | .comparison _ _ _ => true
  | .literal _ => false

namespace Grammar

def SurveyLine.lexemes : SurveyLine → List Lexeme
  | .command name first others => .mark '@' :: .word name :: (first :: others).map .quoted
  | .conditional condition => .word "if" :: (condition.lexemes ++ [.mark ':'])
  | .group kind name label params condition =>
    .word kind.word :: .word name :: (label.toList.map .quoted ++ (params.flatMap (·.lexemes) ++
      (condition.elim [] (fun c => .word "if" :: c.lexemes) ++ [.mark ':'])))
  | .question name type label params =>
    .word name :: (type.map .word ++ .mark ':' :: (label.toList.map .quoted ++
      params.flatMap (·.lexemes)))

/-- A line that can be written. Behind a group `if` and a literal would be a parameter, and a
question with the name of a group word would be a group. -/
def SurveyLine.Expressible : SurveyLine → Prop
  | .command name _ _ => isIdentifier name
  | .conditional condition => condition.Expressible
  | .group _ name _ params condition =>
    isIdentifier name ∧ (∀ p ∈ params, isIdentifier p.key) ∧
      ∀ c ∈ condition, c.Expressible ∧ c.isComparison
  | .question name type _ params =>
    isIdentifier name ∧ name ≠ "group" ∧ name ≠ "repeat" ∧ type ≠ [] ∧
      (∀ w ∈ type, isIdentifier w) ∧ ∀ p ∈ params, isIdentifier p.key

theorem plain_params {params : List Param} (h : ∀ p ∈ params, isIdentifier p.key) :
    ∀ l ∈ params.flatMap (·.lexemes), l.Plain := by
  intro l hl
  obtain ⟨p, hp, hl⟩ := List.mem_flatMap.mp hl
  simp only [Param.lexemes, List.mem_cons, List.not_mem_nil, or_false] at hl
  rcases hl with rfl | rfl
  · exact Lexeme.plain_word (h p hp)
  · exact Lexeme.plain_quoted _

private theorem plain_condition {c : Condition} (h : c.Expressible) : ∀ l ∈ c.lexemes, l.Plain := by
  intro l hl
  cases c with
  | comparison left operator value =>
    simp only [Condition.lexemes, List.mem_cons, List.not_mem_nil, or_false] at hl
    rcases hl with rfl | rfl | rfl
    · exact Lexeme.plain_operand h.1
    · exact Lexeme.plain_comparison h.2
    · exact Lexeme.plain_quoted _
  | literal value =>
    obtain rfl := List.mem_singleton.mp hl
    exact Lexeme.plain_quoted _

theorem plain_quotes (ss : List String) : ∀ l ∈ ss.map Lexeme.quoted, l.Plain := by
  intro l hl
  obtain ⟨s, _, rfl⟩ := List.mem_map.mp hl
  exact Lexeme.plain_quoted s

theorem SurveyLine.plain_lexemes {line : SurveyLine} (h : line.Expressible) :
    ∀ l ∈ line.lexemes, l.Plain := by
  have hcolon : (Lexeme.mark ':').Plain := Lexeme.plain_mark (.inr (.inl rfl))
  have hif : (Lexeme.word "if").Plain := Lexeme.plain_word (by decide)
  cases line with
  | command name first others =>
    simp only [lexemes, List.forall_mem_cons]
    exact ⟨Lexeme.plain_mark (.inl rfl), Lexeme.plain_word h, plain_quotes _⟩
  | conditional condition =>
    simp only [lexemes, List.forall_mem_cons, List.forall_mem_append]
    exact ⟨hif, plain_condition h, hcolon, by simp⟩
  | group kind name label params condition =>
    obtain ⟨hname, hparams, hcondition⟩ := h
    have hkind : (Lexeme.word kind.word).Plain := by
      cases kind <;> exact Lexeme.plain_word (by decide)
    simp only [lexemes, List.forall_mem_cons, List.forall_mem_append]
    refine ⟨hkind, Lexeme.plain_word hname, plain_quotes _, plain_params hparams, ?_, hcolon,
      by simp⟩
    cases condition with
    | none => simp
    | some c => exact List.forall_mem_cons.mpr ⟨hif, plain_condition (hcondition c rfl).1⟩
  | question name type label params =>
    obtain ⟨hname, _, _, _, htype, hparams⟩ := h
    simp only [lexemes, List.forall_mem_cons, List.forall_mem_append]
    refine ⟨Lexeme.plain_word hname, fun l hl => ?_, hcolon, plain_quotes _, plain_params hparams⟩
    obtain ⟨w, hw, rfl⟩ := List.mem_map.mp hl
    exact Lexeme.plain_word (htype w hw)

open Rule Tail

theorem sign_word (s : String) : (Lexeme.word s).sign = (.ident, s) := by
  rw [Lexeme.sign, value_word]
  rfl

theorem sign_quoted (s : String) : (Lexeme.quoted s).sign = (.text, s) := by
  rw [Lexeme.sign, value_quoted]
  rfl

private theorem sign_comparison (s : String) : (Lexeme.comparison s).sign = (.operator, s) := by
  rw [Lexeme.sign, value_comparison]
  rfl

theorem sign_mark (c : Char) : (Lexeme.mark c).sign = (.punct, String.ofList [c]) := rfl

def paramSigns (p : Param) : List Sign := [(.ident, p.key), (.text, p.value)]

def conditionSigns : Condition → List Sign
  | .comparison left operator value =>
    [(if left = "." then .punct else .varRef, left), (.operator, operator), (.text, value)]
  | .literal value => [(.text, value)]

theorem signs_params (params : List Param) :
    (params.flatMap (·.lexemes)).map Lexeme.sign = params.flatMap paramSigns := by
  rw [List.map_flatMap]
  congr 1
  funext p
  simp [Param.lexemes, paramSigns, sign_word, sign_quoted]

private theorem signs_condition {c : Condition} (h : c.Expressible) :
    c.lexemes.map Lexeme.sign = conditionSigns c := by
  cases c with
  | comparison left operator value =>
    have hleft : (Lexeme.operand left).sign =
        (if left = "." then .punct else .varRef, left) := by
      rw [Lexeme.sign, value_operand h.1, Lexeme.operand]
      split <;> rfl
    simp [Condition.lexemes, conditionSigns, hleft, sign_comparison, sign_quoted]
  | literal value => simp [Condition.lexemes, conditionSigns, sign_quoted]

/-- A sign of one of the classes that an argument or a value of a parameter may have. -/
def Sign.IsWord (x : Sign) : Prop := x.1 = .ident ∨ x.1 = .number ∨ x.1 = .text

private theorem reads_word {x : Sign} (hx : x.IsWord) (more : List Sign) :
    word.Reads [x] x.2 more := by
  obtain ⟨cls, value⟩ := x
  have hnumber : cls ≠ .ident → ident.Refuses ([(cls, value)] ++ more) := fun h =>
    refuses_token _ (by simpa using h)
  have htext : cls ≠ .number → number.Refuses ([(cls, value)] ++ more) := fun h =>
    refuses_token _ (by simpa using h)
  obtain rfl | rfl | rfl : cls = .ident ∨ cls = .number ∨ cls = .text := hx
  · exact reads_choice [] [number, text] (by simp) (reads_token .ident "<ident>" value more)
  · exact reads_choice [ident] [text] (by simpa using hnumber)
      (reads_token .number "<number>" value more)
  · have hbefore : ∀ r ∈ [ident, number], r.Refuses ([(TokenClass.text, value)] ++ more) := by
      rw [List.forall_mem_cons, List.forall_mem_singleton]
      exact ⟨hnumber (by decide), htext (by decide)⟩
    exact reads_choice [ident, number] [] hbefore
      (reads_token .text "<string>" value more)

theorem reads_numberOrText (value : String) (more : List Sign) :
    numberOrText.Reads [(.text, value)] value more := by
  refine reads_choice [number] [] (fun r hr => ?_)
    (reads_token .text "<string>" value more)
  obtain rfl := List.mem_singleton.mp hr
  exact refuses_token _ (by simp)

private theorem reads_param (key : String) {x : Sign} (hx : x.IsWord) (more : List Sign) :
    param.Reads [(.ident, key), x] ⟨key, x.2⟩ more :=
  ((reads_seq (reads_token .ident "<ident>" key _) (reads_last (reads_word hx more))).map
    _).named "Param"

theorem refuses_param {more : List Sign} (h : ∀ x ∈ more.head?, x.1 ≠ .ident) :
    param.Refuses more :=
  ((refuses_seq (refuses_token _ h) _).map _).named "Param"

/-- A parameter needs a word behind its name. -/
theorem refuses_param_of_operand {key : String} {x : Sign} {more : List Sign}
    (hident : x.1 ≠ .ident) (hnumber : x.1 ≠ .number) (htext : x.1 ≠ .text) :
    param.Refuses ((.ident, key) :: x :: more) := by
  refine Refuses.named (Refuses.map (refuses_seq_of_stops (reads_token .ident "<ident>" key _)
    (stops_last (refuses_choice fun r hr => ?_))) _) "Param"
  simp only [List.mem_cons, List.not_mem_nil, or_false] at hr
  rcases hr with rfl | rfl | rfl
  · exact refuses_token _ (by simpa using hident)
  · exact refuses_token _ (by simpa using hnumber)
  · exact refuses_token _ (by simpa using htext)

/-- Where no operator follows, a quoted dot is a literal. -/
private theorem refuses_comparison {value : String} {more : List Sign}
    (h : ∀ x ∈ more.head?, x.1 ≠ .operator) : comparison.Refuses ((.text, value) :: more) := by
  refine Refuses.map ?_ _
  by_cases hdot : value = "."
  · subst hdot
    have hleft : (choice [varRef, literal "."]).Reads [(.text, ".")] "." more := by
      refine reads_choice [varRef] [] (fun r hr => ?_)
        (reads_literal .text "." more)
      obtain rfl := List.mem_singleton.mp hr
      exact refuses_token _ (by simp)
    exact refuses_seq_of_stops hleft (stops_next (refuses_token _ h) _)
  · refine refuses_seq (refuses_choice fun r hr => ?_) _
    simp only [List.mem_cons, List.not_mem_nil, or_false] at hr
    rcases hr with rfl | rfl
    · exact refuses_token _ (by simp)
    · exact refuses_literal (by simpa using hdot)

private theorem reads_condition (c : Condition) {more : List Sign}
    (hmore : ∀ x ∈ more.head?, x.1 ≠ .operator) :
    condition.Reads (conditionSigns c) c more := by
  refine Reads.named ?_ "Condition"
  cases c with
  | comparison left operator value =>
    have hleft (more : List Sign) : (choice [varRef, literal "."]).Reads
        [(if left = "." then .punct else .varRef, left)] left more := by
      by_cases hdot : left = "."
      · rw [if_pos hdot, hdot]
        refine reads_choice [varRef] [] (fun r hr => ?_)
          (reads_literal .punct "." more)
        obtain rfl := List.mem_singleton.mp hr
        exact refuses_token _ (by simp)
      · rw [if_neg hdot]
        exact reads_choice [] [literal "."] (by simp)
          (reads_token .varRef "<varref>" left more)
    have hseq := reads_seq (hleft _) (reads_next (reads_token .operator "<operator>" operator _)
      (reads_last (reads_numberOrText value more)))
    exact reads_choice [] [_] (by simp) (hseq.map _)
  | literal value =>
    refine reads_choice [comparison] [] (fun r hr => ?_)
      ((reads_numberOrText value more).map Condition.literal)
    obtain rfl := List.mem_singleton.mp hr
    exact refuses_comparison hmore

/-- Parameters whose values may be of any class. -/
theorem reads_pairs {pairs : List (String × Sign)} (hpairs : ∀ p ∈ pairs, p.2.IsWord)
    {more : List Sign} (h : param.Refuses more) :
    (Rule.many param).Reads (pairs.flatMap fun p => [(.ident, p.1), p.2])
      (pairs.map fun p => ⟨p.1, p.2.2⟩) more :=
  reads_many (fun _ _ => by simp) (fun p hp => reads_param p.1 (hpairs p hp)) h

/-- Parameters whose values are all of one class, as pairs. -/
def pairsOf (cls : TokenClass) (params : List Param) : List (String × Sign) :=
  params.map fun p => (p.key, (cls, p.value))

theorem isWord_pairsOf {cls : TokenClass} (h : cls = .ident ∨ cls = .number ∨ cls = .text)
    (params : List Param) : ∀ p ∈ pairsOf cls params, p.2.IsWord := by
  simpa [pairsOf, Sign.IsWord] using fun _ _ => h

theorem signs_pairsOf (cls : TokenClass) (params : List Param) :
    ((pairsOf cls params).flatMap fun p => [(.ident, p.1), p.2]) =
      params.flatMap fun p => [(.ident, p.key), (cls, p.value)] := by
  rw [pairsOf, List.flatMap_map]

theorem params_pairsOf (cls : TokenClass) (params : List Param) :
    ((pairsOf cls params).map fun p => (⟨p.1, p.2.2⟩ : Param)) = params := by
  simp [pairsOf, Function.comp_def]

private theorem isWord_quoted (params : List Param) : ∀ p ∈ pairsOf .text params, p.2.IsWord :=
  isWord_pairsOf (.inr (.inr rfl)) params

private theorem signs_quoted (params : List Param) :
    ((pairsOf .text params).flatMap fun p => [(.ident, p.1), p.2]) = params.flatMap paramSigns :=
  signs_pairsOf .text params

theorem reads_params (params : List Param) {more : List Sign} (h : param.Refuses more) :
    (Rule.many param).Reads (params.flatMap paramSigns) params more := by
  have hreads := reads_pairs (isWord_quoted params) h
  rwa [signs_quoted, params_pairsOf] at hreads

private theorem reads_commandLine (name first : String) (others : List String) :
    commandLine.Reads ((.ident, name) :: (first :: others).map fun s => (.text, s))
      (name, first, others) [] := by
  have hend : word.Refuses [] := by
    refine refuses_choice fun r hr => ?_
    simp only [List.mem_cons, List.not_mem_nil, or_false] at hr
    rcases hr with rfl | rfl | rfl <;> exact refuses_token _ (by simp)
  have hwords : (Rule.atLeastOnce word).Reads ((first :: others).flatMap fun s => [(.text, s)])
      (first :: others) [] :=
    reads_atLeastOnce (by simp) (by simp) (fun s _ => reads_word (.inr (.inr rfl))) hend
  rw [← List.map_eq_flatMap] at hwords
  exact (reads_seq (reads_token .ident "<ident>" name _) (reads_last (hwords.map _))).named
    "CommandLine"

/-- A command is read the same in both grammars. -/
theorem reads_command (name first : String) (others : List String) :
    (Rule.seq (literal "@") (last commandLine)).Reads
      ((SurveyLine.command name first others).lexemes.map Lexeme.sign)
      ("@", name, first, others) [] := by
  have hsigns : (SurveyLine.command name first others).lexemes.map Lexeme.sign =
      (.punct, "@") :: (.ident, name) :: (first :: others).map fun s => (.text, s) := by
    simp [SurveyLine.lexemes, sign_word, sign_quoted, sign_mark]
  rw [hsigns]
  exact reads_seq_end (reads_literal .punct "@" _)
    (reads_last (reads_commandLine name first others))

private theorem reads_ifLine (c : Condition) :
    ifLine.Reads (conditionSigns c ++ [(.punct, ":")]) c [] :=
  ((reads_seq (reads_condition c (by simp)) (reads_last (reads_literal .punct ":" []))).map
    _).named "IfLine"

theorem reads_groupWord (kind : GroupKind) (more : List Sign) :
    groupWord.Reads [(.ident, kind.word)] kind more := by
  cases kind with
  | group => exact reads_choice [] [_] (by simp) ((reads_literal .ident "group" more).map _)
  | repetition =>
    refine reads_choice [_] [] (fun r hr => ?_) ((reads_literal .ident "repeat" more).map _)
    obtain rfl := List.mem_singleton.mp hr
    exact (refuses_literal (by simp [GroupKind.word])).map _

def labelSigns (label : Option String) : List Sign :=
  label.toList.map fun s => (.text, s)

def inlineSigns (condition : Option Condition) : List Sign :=
  condition.elim [] fun c => (.ident, "if") :: conditionSigns c

private theorem reads_label {rule : Rule String} {label : Option String} {more : List Sign}
    (hsome : ∀ s, rule.Reads [(.text, s)] s more) (hnone : rule.Refuses more) :
    (Rule.optional rule).Reads (labelSigns label) label more := by
  cases label with
  | none => exact hnone.optional
  | some s => exact (hsome s).optional

private theorem reads_inlineCondition (condition : Option Condition) (more : List Sign) :
    (Rule.optional inlineCondition).Reads (inlineSigns condition) condition
      ((.punct, ":") :: more) := by
  cases condition with
  | none => exact Refuses.optional (Refuses.map (refuses_seq (refuses_literal (by simp)) _) _)
  | some c =>
    have hcondition : Grammar.condition.Reads (conditionSigns c) c ((.punct, ":") :: more) :=
      reads_condition c (by simp)
    exact ((reads_seq (reads_literal .ident "if" _) (reads_last hcondition)).map _).optional

/-- Where a comparison follows, `if` is no parameter. -/
private theorem refuses_param_of_inline {condition : Option Condition}
    (h : ∀ c ∈ condition, c.isComparison) (more : List Sign) :
    param.Refuses (inlineSigns condition ++ (.punct, ":") :: more) := by
  cases condition with
  | none => exact refuses_param (by simp [inlineSigns])
  | some c =>
    cases c with
    | literal => exact absurd (h _ rfl) (by simp [Condition.isComparison])
    | comparison left operator value =>
      by_cases hdot : left = "."
      · exact refuses_param_of_operand (by simp [hdot]) (by simp [hdot]) (by simp [hdot])
      · exact refuses_param_of_operand (by simp [hdot]) (by simp [hdot]) (by simp [hdot])

/-- A group line is read up to its colon, whatever stands behind it. -/
theorem reads_groupLine (kind : GroupKind) (name : String) (label : Option String)
    {pairs : List (String × Sign)} (hpairs : ∀ p ∈ pairs, p.2.IsWord)
    {condition : Option Condition} (h : ∀ c ∈ condition, c.isComparison) (more : List Sign) :
    groupLine.Reads ((.ident, kind.word) :: (.ident, name) :: (labelSigns label ++
      (pairs.flatMap (fun p => [(.ident, p.1), p.2]) ++ (inlineSigns condition ++
        [(.punct, ":")]))))
      (.group kind name label (pairs.map fun p => ⟨p.1, p.2.2⟩) condition) more := by
  have hlabel : (Rule.optional text).Reads (labelSigns label) label
      (pairs.flatMap (fun p => [(.ident, p.1), p.2]) ++ (inlineSigns condition ++
        [(.punct, ":")]) ++ more) := by
    refine reads_label (fun s => reads_token .text _ s _) (refuses_token _ fun x hx => ?_)
    cases pairs <;> cases condition <;> cases hx <;> simp
  have hparams : (Rule.many param).Reads (pairs.flatMap fun p => [(.ident, p.1), p.2])
      (pairs.map fun p => ⟨p.1, p.2.2⟩) (inlineSigns condition ++ [(.punct, ":")] ++ more) := by
    refine reads_pairs hpairs ?_
    rw [List.append_assoc]
    exact refuses_param_of_inline h more
  have hseq := reads_seq (reads_groupWord kind _) (reads_next (reads_token .ident "<ident>" name _)
    (reads_next hlabel (reads_next hparams (reads_next (reads_inlineCondition condition more)
      (reads_last (reads_literal .punct ":" more))))))
  exact (hseq.map _).named "GroupLine"

theorem reads_questionLine (name : String) {type : List String} (htype : type ≠ [])
    {label : Option Sign} (hlabel : ∀ x ∈ label, x.1 = .text ∨ x.1 = .number)
    {pairs : List (String × Sign)} (hpairs : ∀ p ∈ pairs, p.2.IsWord) :
    questionLine.Reads ((.ident, name) :: (type.map (fun s => (.ident, s)) ++ (.punct, ":") ::
      (label.toList ++ pairs.flatMap fun p => [(.ident, p.1), p.2])))
      (.question name type (label.map (·.2)) (pairs.map fun p => ⟨p.1, p.2.2⟩)) [] := by
  have hend : param.Refuses [] := refuses_param (by simp)
  have hparams := reads_pairs hpairs hend
  have hoptional : (Rule.optional (choice [text, number])).Reads label.toList (label.map (·.2))
      (pairs.flatMap fun p => [(.ident, p.1), p.2]) := by
    cases label with
    | none =>
      refine (refuses_choice fun r hr => ?_).optional
      simp only [List.mem_cons, List.not_mem_nil, or_false] at hr
      rcases hr with rfl | rfl <;> exact refuses_token _ (by cases pairs <;> simp)
    | some x =>
      obtain ⟨cls, value⟩ := x
      obtain rfl | rfl : cls = .text ∨ cls = .number := hlabel _ rfl
      · exact (reads_choice [] [number] (by simp) (reads_token .text _ value _)).optional
      · refine (reads_choice [text] [] (fun r hr => ?_) (reads_token .number _ value _)).optional
        obtain rfl := List.mem_singleton.mp hr
        exact refuses_token _ (by simp)
  have htypes : (Rule.atLeastOnce ident).Reads (type.flatMap fun s => [(.ident, s)]) type
      ((.punct, ":") :: (label.toList ++ pairs.flatMap fun p => [(.ident, p.1), p.2])) :=
    reads_atLeastOnce htype (by simp) (fun s _ => reads_token .ident "<ident>" s)
      (refuses_token _ (by simp))
  rw [← List.map_eq_flatMap] at htypes
  have hseq := reads_seq_end (reads_token .ident "<ident>" name _) (reads_next_end htypes
    (reads_next_end (reads_literal .punct ":" _) (reads_next_end hoptional (reads_last hparams))))
  exact (hseq.map _).named "QuestionLine"

theorem ne_of_isIdentifier {s t : String} (h : isIdentifier s)
    (ht : isIdentifier t = false) : s ≠ t := by
  rintro rfl
  rw [h] at ht
  cases ht

/-- A condition begins with a reference, a dot, a numeral or a string. -/
theorem refuses_condition {x : Sign} (hreference : x.1 ≠ .varRef) (hdot : x.2 ≠ ".")
    (hnumber : x.1 ≠ .number) (htext : x.1 ≠ .text) (more : List Sign) :
    condition.Refuses (x :: more) := by
  have hvalue : numberOrText.Refuses (x :: more) := by
    refine refuses_choice fun r hr => ?_
    simp only [List.mem_cons, List.not_mem_nil, or_false] at hr
    rcases hr with rfl | rfl
    · exact refuses_token _ (by simpa using hnumber)
    · exact refuses_token _ (by simpa using htext)
  have hleft : (choice [varRef, literal "."]).Refuses (x :: more) := by
    refine refuses_choice fun r hr => ?_
    simp only [List.mem_cons, List.not_mem_nil, or_false] at hr
    rcases hr with rfl | rfl
    · exact refuses_token _ (by simpa using hreference)
    · exact refuses_literal (by simpa using hdot)
  refine Refuses.named (refuses_choice fun r hr => ?_) "Condition"
  simp only [List.mem_cons, List.not_mem_nil, or_false] at hr
  rcases hr with rfl | rfl
  · exact (refuses_seq hleft _).map _
  · exact hvalue.map _

/-- A question may be called `if`, since no condition is an identifier. -/
private theorem refuses_ifLine {w : String} (hdot : w ≠ ".") (more : List Sign) :
    ifLine.Refuses ((.ident, w) :: more) :=
  Refuses.named (Refuses.map (refuses_seq
    (refuses_condition (by simp) hdot (by simp) (by simp) more) _) _) "IfLine"

theorem refuses_command {x : Sign} (hx : x.2 ≠ "@") (more : List Sign) :
    (Rule.seq (literal "@") (last commandLine)).Refuses (x :: more) :=
  refuses_seq (refuses_literal (by simpa using hx)) _

theorem refuses_conditional {x : Sign} (hx : x.2 ≠ "if") (more : List Sign) :
    (Rule.seq (literal "if") (last ifLine)).Refuses (x :: more) :=
  refuses_seq (refuses_literal (by simpa using hx)) _

/-- A question is read from its signs, if they do not begin a group line. -/
theorem reads_question_of_refuses {name : String} (hname : isIdentifier name) {type : List String}
    (hne : type ≠ []) (htype : ∀ w ∈ type, isIdentifier w) {label : Option Sign}
    (hlabel : ∀ x ∈ label, x.1 = .text ∨ x.1 = .number) {pairs : List (String × Sign)}
    (hpairs : ∀ p ∈ pairs, p.2.IsWord)
    (hgroup : groupLine.Refuses ((.ident, name) :: (type.map (fun s => (.ident, s)) ++
      (.punct, ":") :: (label.toList ++ pairs.flatMap fun p => [(.ident, p.1), p.2])))) :
    surveyLine.Reads ((.ident, name) :: (type.map (fun s => (.ident, s)) ++ (.punct, ":") ::
      (label.toList ++ pairs.flatMap fun p => [(.ident, p.1), p.2])))
      (.question name type (label.map (·.2)) (pairs.map fun p => ⟨p.1, p.2.2⟩)) [] := by
  refine Reads.named (reads_choice [_, _, _] [] (fun r hr => ?_)
    (reads_questionLine name hne hlabel hpairs)) "SurveyLine"
  rw [List.append_nil]
  simp only [List.mem_cons, List.not_mem_nil, or_false] at hr
  rcases hr with rfl | rfl | rfl
  · exact (refuses_command (ne_of_isIdentifier hname (by decide)) _).map _
  · by_cases hif : name = "if"
    · subst hif
      obtain ⟨w, ws, rfl⟩ := List.exists_cons_of_ne_nil hne
      have hdot : w ≠ "." := ne_of_isIdentifier (htype w (by simp)) (by decide)
      exact Refuses.map (refuses_seq_of_stops (reads_literal .ident "if" _)
        (stops_last (refuses_ifLine hdot _))) _
    · exact (refuses_conditional hif _).map _
  · exact hgroup

/-- A question is read from its signs, unless it has the name of a group word. -/
theorem reads_question {name : String} (hname : isIdentifier name) (hgroup : name ≠ "group")
    (hrepeat : name ≠ "repeat") {type : List String} (hne : type ≠ [])
    (htype : ∀ w ∈ type, isIdentifier w) {label : Option Sign}
    (hlabel : ∀ x ∈ label, x.1 = .text ∨ x.1 = .number) {pairs : List (String × Sign)}
    (hpairs : ∀ p ∈ pairs, p.2.IsWord) :
    surveyLine.Reads ((.ident, name) :: (type.map (fun s => (.ident, s)) ++ (.punct, ":") ::
      (label.toList ++ pairs.flatMap fun p => [(.ident, p.1), p.2])))
      (.question name type (label.map (·.2)) (pairs.map fun p => ⟨p.1, p.2.2⟩)) [] := by
  refine reads_question_of_refuses hname hne htype hlabel hpairs
    (Refuses.named (Refuses.map (refuses_seq (refuses_choice fun r hr => ?_) _) _) _)
  simp only [List.mem_cons, List.not_mem_nil, or_false] at hr
  rcases hr with rfl | rfl
  · exact (refuses_literal (by simpa using hgroup)).map _
  · exact (refuses_literal (by simpa using hrepeat)).map _

/-- A line that can be written is read back from its tokens. -/
theorem SurveyLine.reads {line : SurveyLine} (h : line.Expressible) :
    surveyLine.Reads (line.lexemes.map Lexeme.sign) line [] := by
  cases line with
  | command name first others =>
    exact Reads.named
      (reads_choice [] [_, _, _] (by simp) ((reads_command name first others).map _)) "SurveyLine"
  | conditional c =>
    have hsigns : (SurveyLine.conditional c).lexemes.map Lexeme.sign =
        (.ident, "if") :: (conditionSigns c ++ [(.punct, ":")]) := by
      simp [lexemes, sign_word, signs_condition h, sign_mark]
    rw [hsigns]
    refine Reads.named (reads_choice [_] [_, _] (fun r hr => ?_)
      ((reads_seq_end (reads_literal .ident "if" _) (reads_last (reads_ifLine c))).map _)) _
    obtain rfl := List.mem_singleton.mp hr
    exact (refuses_command (by simp) _).map _
  | group kind name label params condition =>
    have hsigns : (SurveyLine.group kind name label params condition).lexemes.map Lexeme.sign =
        (.ident, kind.word) :: (.ident, name) :: (labelSigns label ++ (params.flatMap paramSigns ++
          (inlineSigns condition ++ [(.punct, ":")]))) := by
      cases condition with
      | none =>
        simp [lexemes, sign_word, sign_quoted, sign_mark, signs_params, labelSigns, inlineSigns]
      | some c =>
        simp [lexemes, sign_word, sign_quoted, sign_mark, signs_params, labelSigns, inlineSigns,
          signs_condition (h.2.2 c rfl).1]
    have hgroup := reads_groupLine kind name label (isWord_quoted params)
      (fun c hc => (h.2.2 c hc).2) []
    rw [signs_quoted, params_pairsOf] at hgroup
    rw [hsigns]
    refine Reads.named (reads_choice [_, _] [_] (fun r hr => ?_) hgroup) _
    simp only [List.mem_cons, List.not_mem_nil, or_false] at hr
    rcases hr with rfl | rfl
    · exact (refuses_command (by cases kind <;> decide) _).map _
    · exact (refuses_conditional (by cases kind <;> decide) _).map _
  | question name type label params =>
    obtain ⟨hname, hgroup, hrepeat, hne, htype, hparams⟩ := h
    have hlabel : ∀ x ∈ label.map fun s => ((.text, s) : Sign), x.1 = .text ∨ x.1 = .number := by
      simp
    have hreads := reads_question hname hgroup hrepeat hne htype hlabel (isWord_quoted params)
    rw [signs_quoted, params_pairsOf] at hreads
    simpa [lexemes, Function.comp_def, sign_word, sign_quoted, sign_mark, signs_params,
      Option.toList_map] using hreads

/-- The rules see the lexemes that are no blanks. -/
private theorem signs_tokensFrom {ls : List Lexeme} (h : ∀ l ∈ ls, l.cls ≠ .comment) (col : Nat) :
    (tokensFrom col ls).map sign = (ls.filter (·.cls ≠ .blank)).map Lexeme.sign := by
  induction ls generalizing col with
  | nil => rfl
  | cons l ls ih =>
    obtain ⟨hl, hls⟩ := List.forall_mem_cons.mp h
    by_cases hblank : l.cls = .blank
    · rw [tokensFrom, if_pos (.inl hblank), List.filter_cons_of_neg (by simpa using hblank), ih hls]
    · have hloud : ¬ (l.cls = .blank ∨ l.cls = .comment) := not_or.mpr ⟨hblank, hl⟩
      rw [tokensFrom, if_neg hloud, List.filter_cons_of_pos (by simpa using hblank), List.map_cons,
        List.map_cons, ih hls]
      rfl

/-- A rule that reads the lexemes of a line reads the line. -/
theorem parseLine_of_solids {rule : Grammar.Rule α} {line : List Char} {ls : List Lexeme} {a : α}
    (hsolids : solids line = (ls, [])) (hcomment : ∀ l ∈ ls, l.cls ≠ .comment)
    (h : rule.Reads (ls.map Lexeme.sign) a []) : parseLine rule line = .ok a := by
  obtain ⟨rfl, hrest⟩ := Prod.ext_iff.mp hsolids
  have hall : ∀ l ∈ (scan line).1, l.cls ≠ .comment := by
    intro l hl hcls
    exact hcomment l (by simp [solids, hl, hcls]) hcls
  have hsigns := signs_tokensFrom hall 1
  have hparse : rule.parse (tokensFrom 1 (scan line).1) = .ok a :=
    Grammar.Rule.Reads.parse (hsigns ▸ h)
  have hscan : scan line = ((scan line).1, []) := Prod.ext rfl hrest
  rw [parseLine, hscan]
  simp only [hparse]

/-- A rule that reads the lexemes reads the line on which they are written. -/
theorem parseLine_spaced {rule : Rule α} {ls : List Lexeme} {a : α} (hplain : ∀ l ∈ ls, l.Plain)
    (h : rule.Reads (ls.map Lexeme.sign) a []) {indent : List Char}
    (hindent : ∀ b ∈ indent, isIndent b) :
    (parseLine rule (indent ++ spaced ls)).toOption = some a := by
  have hgaps : ∀ b ∈ indent, isGap b := fun b hb => isGap_of_isIndent (hindent b hb)
  have hline : solids (spaced ls) = (ls, []) :=
    (laid_spaced hplain).solids_eq (break_not_mem_spaced hplain)
  have hsolids := (solids_append hgaps _).trans hline
  have hcomment : ∀ l ∈ ls, l.cls ≠ .comment := fun l hl hcls => (hplain l hl).loud (.inr hcls)
  rw [parseLine_of_solids hsolids hcomment h]
  rfl

def SurveyLine.text (line : SurveyLine) : List Char := spaced line.lexemes

theorem SurveyLine.parseLine_text {line : SurveyLine} (h : line.Expressible) {indent : List Char}
    (hindent : ∀ b ∈ indent, isIndent b) :
    (parseLine surveyLine (indent ++ line.text)).toOption = some line :=
  parseLine_spaced (plain_lexemes h) (SurveyLine.reads h) hindent

/-- A line begins with the mark of a command or with a word, and a space follows. -/
theorem SurveyLine.text_eq {line : SurveyLine} (h : line.Expressible) :
    ∃ (l : Lexeme) (ls : List Char), l.Plain ∧ line.text = l.raw ++ ' ' :: ls ∧
      (l = .mark '@' ∨ l.cls = .ident) := by
  have hfirst : ∃ (l l' : Lexeme) (ls : List Lexeme), line.lexemes = l :: l' :: ls ∧
      (l = .mark '@' ∨ l.cls = .ident) := by
    cases line with
    | command name first others => exact ⟨_, _, _, rfl, .inl rfl⟩
    | conditional condition => cases condition <;> exact ⟨_, _, _, rfl, .inr rfl⟩
    | group kind name label params condition => exact ⟨_, _, _, rfl, .inr rfl⟩
    | question name type label params =>
      obtain ⟨w, ws, rfl⟩ := List.exists_cons_of_ne_nil h.2.2.2.1
      exact ⟨_, _, _, rfl, .inr rfl⟩
  obtain ⟨l, l', ls, hlexemes, hcls⟩ := hfirst
  refine ⟨l, spaced (l' :: ls), plain_lexemes h l (by simp [hlexemes]), ?_, hcls⟩
  rw [SurveyLine.text, hlexemes]
  rfl

/-- Written lines are never tight: a space follows their first word. -/
theorem SurveyLine.not_isTight_text {line : SurveyLine} (h : line.Expressible) :
    ¬ isTight line.text := by
  obtain ⟨l, ls, hplain, htext, hl⟩ := SurveyLine.text_eq h
  rw [htext]
  rcases hl with rfl | hcls
  · intro htight
    cases htight
  obtain ⟨c, body, hraw, hall⟩ : ∃ c body, l.raw = c :: body ∧ ∀ d ∈ body, isIdentRest d := by
    cases shape_of_lexeme? hplain.self <;> cases hcls
    next hall => exact ⟨_, _, rfl, (List.forall_mem_cons.mp hall).2⟩
  rw [hraw]
  intro htight
  unfold isTight at htight
  split at htight
  · next third rest hcons =>
    -- the third character is a space, or belongs to the word
    have hthird : third = ' ' ∨ isIdentRest third := by
      cases body with
      | nil => cases hcons
      | cons d body =>
        cases body with
        | nil => cases hcons; exact .inl rfl
        | cons e body => cases hcons; exact .inr (hall third (by simp))
    simp only [Bool.or_eq_true, beq_iff_eq] at htight
    rcases hthird with rfl | hthird
    · exact absurd htight (by decide)
    · rcases htight with ((rfl | rfl) | rfl) | rfl <;> exact absurd hthird (by decide)
  · cases htight

end Grammar
end SurveyForms
