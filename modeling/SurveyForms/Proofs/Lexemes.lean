import Mathlib.Data.List.Basic
import Mathlib.Data.List.Forall2
import Mathlib.Data.List.TakeWhile
import SurveyForms.Source.Token

/-! How lexing goes on when a text grows. A lexeme is told by its own characters and the one
behind it, so lexing a longer text gives the lexemes of its first part and goes on from what was
left there. -/
namespace SurveyForms.Source

private theorem takeWhile_append_eq_left_iff {p : α → Bool} {l rest : List α} :
    (l ++ rest).takeWhile p = l ↔ l.takeWhile p = l ∧ ∀ a ∈ rest.head?, ¬ p a := by
  constructor
  · intro h
    have hall : ∀ a ∈ l, p a := fun a ha => List.mem_takeWhile_imp (h ▸ ha)
    rw [List.takeWhile_append_of_pos hall] at h
    have hrest : rest.takeWhile p = [] := List.append_right_eq_self.mp h
    refine ⟨List.takeWhile_eq_self_iff.mpr hall, ?_⟩
    cases rest with
    | nil => simp
    | cons a rest =>
      intro b hb hp
      cases hb
      simp [hp] at hrest
  · rintro ⟨hl, hrest⟩
    rw [List.takeWhile_append_of_pos (List.takeWhile_eq_self_iff.mp hl)]
    cases rest with
    | nil => simp
    | cons a rest =>
      have : ¬ p a := hrest a rfl
      simp [this]

/-- What may stand between quotes: escaped pairs, and characters that neither end nor escape. -/
inductive Quotable (quote : Char) : List Char → Prop
  | nil : Quotable quote []
  | plain {c : Char} {body : List Char} (hquote : c ≠ quote) (hescape : c ≠ '\\')
      (hbody : Quotable quote body) : Quotable quote (c :: body)
  | escaped {d : Char} {body : List Char} (hquote : '\\' ≠ quote) (hbreak : d ≠ '\n')
      (hbody : Quotable quote body) : Quotable quote ('\\' :: d :: body)

private theorem closeQuote?_plain {quote c : Char} (hquote : c ≠ quote) (hescape : c ≠ '\\')
    (cs : List Char) : closeQuote? quote (c :: cs) =
      (closeQuote? quote cs).map fun (body, rest) => (c :: body, rest) := by
  rw [closeQuote?.eq_def]
  simp only [if_neg hquote, if_neg hescape]

private theorem closeQuote?_escaped {quote d : Char} (hquote : '\\' ≠ quote) (hbreak : d ≠ '\n')
    (cs : List Char) : closeQuote? quote ('\\' :: d :: cs) =
      (closeQuote? quote cs).map fun (body, rest) => ('\\' :: d :: body, rest) := by
  rw [closeQuote?.eq_def]
  simp only [if_neg hquote, if_neg hbreak, if_true]

private theorem closeQuote?_quote (quote : Char) (cs : List Char) :
    closeQuote? quote (quote :: cs) = some ([], cs) := by
  rw [closeQuote?.eq_def]
  simp only [if_true]

theorem closeQuote?_append {quote : Char} {body : List Char} (h : Quotable quote body)
    (cs : List Char) : closeQuote? quote (body ++ cs) =
      (closeQuote? quote cs).map fun (inner, rest) => (body ++ inner, rest) := by
  induction h with
  | nil => simp
  | plain hquote hescape _ ih =>
    rw [List.cons_append, closeQuote?_plain hquote hescape, ih, Option.map_map]
    rfl
  | escaped hquote hbreak _ ih =>
    rw [List.cons_append, List.cons_append, closeQuote?_escaped hquote hbreak, ih, Option.map_map]
    rfl

theorem closeQuote?_eq_some_iff {quote : Char} {cs body rest : List Char} :
    closeQuote? quote cs = some (body, rest) ↔
      Quotable quote body ∧ cs = body ++ quote :: rest := by
  constructor
  · intro h
    fun_induction closeQuote? quote cs generalizing body with
    | case1 => cases h
    | case2 cs => cases h; exact ⟨.nil, rfl⟩
    | case3 => cases h
    | case4 => cases h
    | case5 d more hbreak hquote ih =>
      obtain ⟨⟨inner, after⟩, hinner, heq⟩ := Option.map_eq_some_iff.mp h
      cases heq
      obtain ⟨hbody, rfl⟩ := ih hinner
      exact ⟨.escaped hquote hbreak hbody, rfl⟩
    | case6 c cs hquote hescape ih =>
      obtain ⟨⟨inner, after⟩, hinner, heq⟩ := Option.map_eq_some_iff.mp h
      cases heq
      obtain ⟨hbody, rfl⟩ := ih hinner
      exact ⟨.plain hquote hescape hbody, rfl⟩
  · rintro ⟨hbody, rfl⟩
    rw [closeQuote?_append hbody, closeQuote?_quote]
    simp

/-- A text that is still open can be closed further on, unless it ends in a backslash. -/
theorem quotable_of_closeQuote? {quote : Char} {cs : List Char} (h : closeQuote? quote cs = none)
    (hbreak : '\n' ∉ cs) (hlast : cs.getLast? ≠ some '\\') : Quotable quote cs := by
  fun_induction closeQuote? quote cs with
  | case1 => exact .nil
  | case2 => cases h
  | case3 => simp at hlast
  | case4 => simp at hbreak
  | case5 d more hd hquote ih =>
    refine .escaped hquote hd (ih (Option.map_eq_none_iff.mp h) (by simp_all) ?_)
    cases more with
    | nil => simp
    | cons c more => simpa using hlast
  | case6 c cs hquote hescape ih =>
    refine .plain hquote hescape (ih (Option.map_eq_none_iff.mp h) (by simp_all) ?_)
    cases cs with
    | nil => simp
    | cons d cs => simpa using hlast

theorem unescape_cons {c : Char} (h : c ≠ '\\') (cs : List Char) :
    unescape (c :: cs) = c :: unescape cs := by
  rw [unescape]
  rintro d ds ⟨⟩
  exact absurd rfl h

private theorem unescape_pair (d : Char) (cs : List Char) :
    unescape ('\\' :: d :: cs) = unescape ['\\', d] ++ unescape cs := by
  rw [unescape.eq_def, unescape.eq_def ['\\', d]]
  rfl

theorem unescape_append {quote : Char} {body : List Char} (h : Quotable quote body)
    (cs : List Char) : unescape (body ++ cs) = unescape body ++ unescape cs := by
  induction h with
  | nil => rfl
  | plain _ hescape _ ih =>
    rw [List.cons_append, unescape_cons hescape, unescape_cons hescape, ih, List.cons_append]
  | @escaped d body _ _ _ ih =>
    rw [List.cons_append, List.cons_append, unescape_pair, unescape_pair d body, ih,
      List.append_assoc]

def Braced (raw : List Char) : Prop :=
  ∃ before c more after, raw = '\x7b' :: before ++ c :: more ++ after ++ ['\x7d'] ∧
    (∀ b ∈ before, Text.isPlainBlank b) ∧ isIdentStart c ∧ (∀ d ∈ more, isIdentRest d) ∧
    ∀ b ∈ after, Text.isPlainBlank b

private theorem not_identRest_of_plainBlank {c : Char} (h : Text.isPlainBlank c) :
    ¬ isIdentRest c := by
  simp only [Text.isPlainBlank, Bool.or_eq_true, beq_iff_eq] at h
  rcases h with (((rfl | rfl) | rfl) | rfl) | rfl <;> decide

private theorem isIdentRest_of_isIdentStart {c : Char} (h : isIdentStart c) : isIdentRest c := by
  simp only [isIdentStart] at h
  simp [isIdentRest, Char.isAlphanum, h]

private theorem not_plainBlank_of_identStart {c : Char} (h : isIdentStart c) :
    ¬ Text.isPlainBlank c := by
  intro hc
  exact not_identRest_of_plainBlank hc (isIdentRest_of_isIdentStart h)

theorem braced?_eq_some_iff {cs raw : List Char} :
    braced? cs = some raw ↔ Braced raw ∧ raw <+: cs := by
  constructor
  · intro h
    unfold braced? at h
    split at h
    · next rest =>
      split at h
      · next c more hdrop =>
        simp only [Option.ite_none_right_eq_some, Option.some.injEq] at h
        obtain ⟨hc, hclose, rfl⟩ := h
        obtain ⟨behind, hbehind⟩ := List.head?_eq_some_iff.mp hclose
        refine ⟨⟨_, c, _, _, rfl, ?_, hc, ?_, ?_⟩, behind, ?_⟩
        · exact fun b => List.mem_takeWhile_imp
        · exact fun b => List.mem_takeWhile_imp
        · exact fun b => List.mem_takeWhile_imp
        · simp only [List.cons_append, List.append_assoc, List.nil_append, ← hbehind,
            List.takeWhile_append_dropWhile, ← hdrop]
      · cases h
    · cases h
  · rintro ⟨⟨before, c, more, after, rfl, hbefore, hc, hmore, hafter⟩, rest, rfl⟩
    have hstart := not_plainBlank_of_identStart hc
    have hend : ∀ d ∈ (after ++ '\x7d' :: rest).head?, ¬ isIdentRest d := by
      cases after with
      | nil => rintro d ⟨⟩; decide
      | cons b after => rintro d ⟨⟩; exact not_identRest_of_plainBlank (hafter b (by simp))
    have hname : (more ++ (after ++ '\x7d' :: rest)).takeWhile isIdentRest = more :=
      takeWhile_append_eq_left_iff.mpr ⟨List.takeWhile_eq_self_iff.mpr hmore, hend⟩
    have hbehind : (more ++ (after ++ '\x7d' :: rest)).dropWhile isIdentRest =
        after ++ '\x7d' :: rest := by
      have := List.takeWhile_append_dropWhile (p := isIdentRest)
        (l := more ++ (after ++ '\x7d' :: rest))
      rw [hname] at this
      exact List.append_cancel_left this
    have hclose : ¬ Text.isPlainBlank '\x7d' := by decide
    simp only [braced?, List.cons_append, List.append_assoc, List.nil_append,
      List.takeWhile_append_of_pos hbefore, List.dropWhile_append_of_pos hbefore,
      List.takeWhile_cons_of_neg hstart, List.dropWhile_cons_of_neg hstart, if_pos hc, hname,
      hbehind, List.takeWhile_append_of_pos hafter, List.dropWhile_append_of_pos hafter,
      List.takeWhile_cons_of_neg hclose, List.dropWhile_cons_of_neg hclose, List.head?_cons,
      if_true, List.append_nil]

namespace Lexeme

/-- Whether a lexeme ends in front of what comes next, because the next character cannot
lengthen it. -/
def Ends (l : Lexeme) (next : Option Char) : Prop :=
  ∀ c ∈ next, match l.cls with
    | .comment => c = '\n'
    | .number => ¬ c.isDigit
    | .ident => ¬ isIdentRest c
    | .blank => ¬ isGap c
    | .operator => l.raw = ['>'] ∨ l.raw = ['<'] → c ≠ '='
    | _ => True

theorem ends_none (l : Lexeme) : l.Ends none := by
  intro c hc
  cases hc

end Lexeme

theorem operator?_cons (c : Char) (cs : List Char) : operator? (c :: cs) =
    if (c = '!' ∨ c = '>' ∨ c = '<') ∧ cs.head? = some '=' then some [c, '=']
    else if c = '=' ∨ c = '>' ∨ c = '<' then some [c] else none := by
  cases cs with
  | nil => unfold operator?; split <;> simp_all
  | cons d cs =>
    simp only [List.head?_cons, Option.some.injEq]
    by_cases hd : d = '='
    · subst hd
      unfold operator?
      split <;> simp_all <;> grind
    · unfold operator?
      split <;> simp_all

private theorem operator?_append_iff {c : Char} {body rest : List Char} :
    operator? (c :: (body ++ rest)) = some (c :: body) ↔ operator? (c :: body) = some (c :: body) ∧
      Lexeme.Ends ⟨.operator, c :: body⟩ rest.head? := by
  rw [operator?_cons, operator?_cons]
  cases body with
  | nil =>
    simp only [Lexeme.Ends, Option.mem_def, List.nil_append, List.head?_nil]
    grind
  | cons d body =>
    have hends : Lexeme.Ends ⟨.operator, c :: d :: body⟩ rest.head? := by
      intro a _ h
      simp at h
    rw [and_iff_left hends, List.cons_append, List.head?_cons, List.head?_cons]

/-- A lexeme stands at the start of a text exactly if it is one by itself and what follows does
not lengthen it. -/
theorem lexeme?_append_iff {l : Lexeme} {rest : List Char} :
    lexeme? (l.raw ++ rest) = some l ↔ lexeme? l.raw = some l ∧ l.Ends rest.head? := by
  obtain ⟨cls, raw⟩ := l
  cases raw with
  | nil =>
    have hnone (cs : List Char) : lexeme? cs ≠ some ⟨cls, []⟩ :=
      fun h => raw_ne_nil_of_lexeme? h rfl
    simp [hnone]
  | cons c body =>
    have hopen (cls' : TokenClass) (p : Char → Bool) (hends : ∀ next,
        Lexeme.Ends ⟨cls', c :: body⟩ next ↔ ∀ a ∈ next, ¬ p a) :
        some (⟨cls', c :: (body ++ rest).takeWhile p⟩ : Lexeme) = some ⟨cls, c :: body⟩ ↔
          some (⟨cls', c :: body.takeWhile p⟩ : Lexeme) = some ⟨cls, c :: body⟩ ∧
            Lexeme.Ends ⟨cls, c :: body⟩ rest.head? := by
      by_cases hcls : cls' = cls
      · subst hcls
        simp [takeWhile_append_eq_left_iff, hends]
      · simp [hcls]
    simp only [lexeme?, List.cons_append]
    split
    · exact hopen .comment _ fun next => by simp [Lexeme.Ends]
    split
    · by_cases hcls : cls = .varRef
      · subst hcls
        have hends : Lexeme.Ends ⟨.varRef, c :: body⟩ rest.head? := fun _ _ => trivial
        simp [braced?_eq_some_iff, hends]
      · simp [Ne.symm hcls]
    split
    · by_cases hcls : cls = .text
      · subst hcls
        have hends : Lexeme.Ends ⟨.text, c :: body⟩ rest.head? := fun _ _ => trivial
        simp only [hends, and_true, Option.map_eq_some_iff, Prod.exists, closeQuote?_eq_some_iff,
          Lexeme.mk.injEq, List.cons.injEq, true_and]
        constructor
        · rintro ⟨inner, _, ⟨hinner, _⟩, rfl⟩
          exact ⟨inner, [], ⟨hinner, rfl⟩, rfl⟩
        · rintro ⟨inner, _, ⟨hinner, _⟩, rfl⟩
          exact ⟨inner, rest, ⟨hinner, by simp⟩, rfl⟩
      · simp [Ne.symm hcls]
    split
    · exact hopen .number _ fun next => Iff.rfl
    split
    · exact hopen .ident _ fun next => Iff.rfl
    split
    · by_cases hcls : cls = .punct
      · subst hcls
        have hends : Lexeme.Ends ⟨.punct, c :: body⟩ rest.head? := fun _ _ => trivial
        simp [hends]
      · simp [Ne.symm hcls]
    split
    · exact hopen .blank _ fun next => Iff.rfl
    by_cases hcls : cls = .operator
    · subst hcls
      simpa using operator?_append_iff
    · simp [Ne.symm hcls]

theorem raw_prefix_of_lexeme? {cs : List Char} {l : Lexeme} (h : lexeme? cs = some l) :
    l.raw <+: cs := by
  cases cs with
  | nil => cases h
  | cons c rest =>
    simp only [lexeme?] at h
    split at h
    · cases h; exact List.cons_prefix_cons.mpr ⟨rfl, List.takeWhile_prefix _⟩
    split at h
    · obtain ⟨body, hbody, rfl⟩ := Option.map_eq_some_iff.mp h
      exact List.cons_prefix_cons.mpr ⟨rfl, (braced?_eq_some_iff.mp hbody).2⟩
    split at h
    · obtain ⟨⟨body, after⟩, hbody, rfl⟩ := Option.map_eq_some_iff.mp h
      obtain ⟨_, rfl⟩ := closeQuote?_eq_some_iff.mp hbody
      exact ⟨after, by simp⟩
    split at h
    · cases h; exact List.cons_prefix_cons.mpr ⟨rfl, List.takeWhile_prefix _⟩
    split at h
    · cases h; exact List.cons_prefix_cons.mpr ⟨rfl, List.takeWhile_prefix _⟩
    split at h
    · cases h; exact ⟨rest, rfl⟩
    split at h
    · cases h; exact List.cons_prefix_cons.mpr ⟨rfl, List.takeWhile_prefix _⟩
    obtain ⟨raw, hraw, rfl⟩ := Option.map_eq_some_iff.mp h
    rw [operator?_cons] at hraw
    split at hraw
    · next hpair =>
      cases hraw
      obtain ⟨rest, rfl⟩ := List.head?_eq_some_iff.mp hpair.2
      exact ⟨rest, rfl⟩
    split at hraw
    · cases hraw; exact ⟨rest, rfl⟩
    · cases hraw

theorem lexeme?_eq_some_iff {cs : List Char} {l : Lexeme} : lexeme? cs = some l ↔
    ∃ rest, cs = l.raw ++ rest ∧ lexeme? l.raw = some l ∧ l.Ends rest.head? := by
  constructor
  · intro h
    obtain ⟨rest, rfl⟩ := raw_prefix_of_lexeme? h
    exact ⟨rest, rfl, lexeme?_append_iff.mp h⟩
  · rintro ⟨rest, rfl, h⟩
    exact lexeme?_append_iff.mpr h

def raws (ls : List Lexeme) : List Char := ls.flatMap (·.raw)

/-- `Lexes cs ls rest`: the text starts with these lexemes, and nothing more can be read from what
is left. -/
inductive Lexes : List Char → List Lexeme → List Char → Prop
  | stuck {rest : List Char} (hnone : lexeme? rest = none) : Lexes rest [] rest
  | next {l : Lexeme} {cs rest : List Char} {ls : List Lexeme} (hself : lexeme? l.raw = some l)
      (hends : l.Ends cs.head?) (htail : Lexes cs ls rest) : Lexes (l.raw ++ cs) (l :: ls) rest

theorem lexes_scan (cs : List Char) : Lexes cs (scan cs).1 (scan cs).2 := by
  fun_induction scan cs with
  | case1 cs hnone => exact .stuck hnone
  | case2 cs l hsome tail ih =>
    obtain ⟨rest, rfl, hself, hends⟩ := lexeme?_eq_some_iff.mp hsome
    exact .next hself hends (by simpa only [tail, List.drop_left] using ih)

namespace Lexes

theorem scan_eq {cs rest : List Char} {ls : List Lexeme} (h : Lexes cs ls rest) :
    scan cs = (ls, rest) := by
  induction h with
  | stuck hnone =>
    unfold scan
    split
    · rfl
    · next hsome => rw [hnone] at hsome; cases hsome
  | @next l cs rest ls hself hends _ ih =>
    have hl := lexeme?_append_iff.mpr ⟨hself, hends⟩
    unfold scan
    split
    · next hnone => rw [hl] at hnone; cases hnone
    · next l' hsome =>
      rw [hl] at hsome
      cases hsome
      rw [List.drop_left, ih]

theorem unique {cs rest rest' : List Char} {ls ls' : List Lexeme} (h : Lexes cs ls rest)
    (h' : Lexes cs ls' rest') : ls = ls' ∧ rest = rest' :=
  Prod.mk.injEq _ _ _ _ ▸ h.scan_eq.symm.trans h'.scan_eq

theorem rest_stuck {cs rest : List Char} {ls : List Lexeme} (h : Lexes cs ls rest) :
    lexeme? rest = none := by
  induction h with
  | stuck hnone => exact hnone
  | next _ _ _ ih => exact ih

theorem eq_raws_append {cs rest : List Char} {ls : List Lexeme} (h : Lexes cs ls rest) :
    cs = raws ls ++ rest := by
  induction h with
  | stuck => rfl
  | next _ _ _ ih => rw [raws, List.flatMap_cons, List.append_assoc, ← raws, ← ih]

theorem last_ends {cs rest : List Char} {ls : List Lexeme} (h : Lexes cs ls rest) :
    ∀ l ∈ ls.getLast?, l.Ends rest.head? := by
  induction h with
  | stuck => intro l hl; cases hl
  | next _ hends htail ih =>
    cases htail with
    | stuck => rintro l ⟨⟩; exact hends
    | next => simpa using ih

/-- Lexing a longer text goes on from what was left of the shorter one, unless the addition
lengthens the last lexeme. -/
theorem append {cs rest more rest' : List Char} {ls ls' : List Lexeme} (h : Lexes cs ls rest)
    (hends : ∀ l ∈ ls.getLast?, l.Ends (rest ++ more).head?)
    (hmore : Lexes (rest ++ more) ls' rest') : Lexes (cs ++ more) (ls ++ ls') rest' := by
  induction h with
  | stuck => exact hmore
  | @next l cs rest ls hself hhead htail ih =>
    rw [List.append_assoc]
    refine .next hself ?_ (ih ?_ hmore)
    · cases htail with
      | stuck => exact hends l rfl
      | @next l' cs _ _ hself' =>
        have hraw := raw_ne_nil_of_lexeme? hself'
        rw [List.head?_append_of_ne_nil _ hraw] at hhead
        rwa [List.append_assoc, List.head?_append_of_ne_nil _ hraw]
    · cases htail with
      | stuck => intro l hl; cases hl
      | next => simpa using hends

theorem self_of_mem {cs rest : List Char} {ls : List Lexeme} (h : Lexes cs ls rest) :
    ∀ l ∈ ls, lexeme? l.raw = some l := by
  induction h with
  | stuck => simp
  | next hself _ _ ih => exact List.forall_mem_cons.mpr ⟨hself, ih⟩

theorem raws_ne_nil {cs rest : List Char} {l : Lexeme} {ls : List Lexeme}
    (h : Lexes cs (l :: ls) rest) : raws (l :: ls) ≠ [] := by
  have hraw := raw_ne_nil_of_lexeme? (h.self_of_mem l (by simp))
  rw [raws, List.flatMap_cons]
  exact List.append_ne_nil_of_left_ne_nil hraw _

/-- Lexing a text that is not empty, to its end, begins with a lexeme. -/
theorem exists_cons {cs : List Char} {ls : List Lexeme} (h : Lexes cs ls []) (hne : cs ≠ []) :
    ∃ l tail ls', cs = l.raw ++ tail ∧ ls = l :: ls' ∧ lexeme? l.raw = some l ∧
      l.Ends tail.head? ∧ Lexes tail ls' [] := by
  cases h with
  | stuck => exact absurd rfl hne
  | next hself hends htail => exact ⟨_, _, _, rfl, rfl, hself, hends, htail⟩

/-- Lexing can be cut between two lexemes. -/
theorem cut {cs rest : List Char} {a b : List Lexeme} (h : Lexes cs (a ++ b) rest) :
    ∃ mid, cs = raws a ++ mid ∧ Lexes (raws a) a [] ∧ (∀ l ∈ a.getLast?, l.Ends mid.head?) ∧
      Lexes mid b rest := by
  induction a generalizing cs with
  | nil => exact ⟨cs, rfl, .stuck rfl, by simp, h⟩
  | cons l a ih =>
    cases h with
    | next hself hends htail =>
      obtain ⟨mid, rfl, ha, hlast, hb⟩ := ih htail
      refine ⟨mid, by simp [raws], ?_, ?_, hb⟩
      · rw [raws, List.flatMap_cons]
        refine .next hself ?_ ha
        cases a with
        | nil => exact l.ends_none
        | cons l' a => rwa [List.head?_append_of_ne_nil _ ha.raws_ne_nil] at hends
      · cases a with
        | nil => rintro l ⟨⟩; exact hends
        | cons l' a => simpa using hlast

end Lexes

/-- How the lexemes of each class are spelled. -/
inductive Lexeme.Shape : Lexeme → Prop
  | comment {body : List Char} (hbody : '\n' ∉ body) : Shape ⟨.comment, '#' :: body⟩
  | varRef {body : List Char} (hbody : Braced body) : Shape ⟨.varRef, '$' :: body⟩
  | text {quote : Char} {body : List Char} (hquote : quote = '"' ∨ quote = '\'')
      (hbody : Quotable quote body) : Shape ⟨.text, quote :: body ++ [quote]⟩
  | number {c : Char} {body : List Char} (hall : ∀ d ∈ c :: body, d.isDigit) :
      Shape ⟨.number, c :: body⟩
  | ident {c : Char} {body : List Char} (hstart : isIdentStart c)
      (hall : ∀ d ∈ c :: body, isIdentRest d) : Shape ⟨.ident, c :: body⟩
  | punct {c : Char} (hc : c = '@' ∨ c = ':' ∨ c = '.') : Shape ⟨.punct, [c]⟩
  | blank {c : Char} {body : List Char} (hall : ∀ d ∈ c :: body, isGap d) :
      Shape ⟨.blank, c :: body⟩
  | pair {c : Char} (hc : c = '!' ∨ c = '>' ∨ c = '<') : Shape ⟨.operator, [c, '=']⟩
  | sign {c : Char} (hc : c = '=' ∨ c = '>' ∨ c = '<') : Shape ⟨.operator, [c]⟩

theorem shape_of_lexeme? {cs : List Char} {l : Lexeme} (h : lexeme? cs = some l) : l.Shape := by
  cases cs with
  | nil => cases h
  | cons c rest =>
    simp only [lexeme?] at h
    split at h
    · next hc =>
      cases h
      rw [hc]
      refine .comment fun hmem => ?_
      simpa using List.mem_takeWhile_imp hmem
    split at h
    · next hc =>
      obtain ⟨body, hbody, rfl⟩ := Option.map_eq_some_iff.mp h
      rw [hc]
      exact .varRef (braced?_eq_some_iff.mp hbody).1
    split at h
    · next hc =>
      obtain ⟨⟨body, after⟩, hbody, rfl⟩ := Option.map_eq_some_iff.mp h
      exact .text hc (closeQuote?_eq_some_iff.mp hbody).1
    split at h
    · next hc =>
      cases h
      exact .number (List.forall_mem_cons.mpr ⟨hc, fun d => List.mem_takeWhile_imp⟩)
    split at h
    · next hc =>
      cases h
      exact .ident hc (List.forall_mem_cons.mpr
        ⟨isIdentRest_of_isIdentStart hc, fun d => List.mem_takeWhile_imp⟩)
    split at h
    · next hc => cases h; exact .punct hc
    split at h
    · next hc =>
      cases h
      exact .blank (List.forall_mem_cons.mpr ⟨hc, fun d => List.mem_takeWhile_imp⟩)
    obtain ⟨raw, hraw, rfl⟩ := Option.map_eq_some_iff.mp h
    rw [operator?_cons] at hraw
    split at hraw
    · next hc => cases hraw; exact .pair hc.1
    split at hraw
    · next hc => cases hraw; exact .sign hc
    · cases hraw

/-- Blanks and comments, which the grammar does not see. -/
def Lexeme.Silent (l : Lexeme) : Prop := l.cls = .blank ∨ l.cls = .comment

/-- The letters are two ranges of code points. -/
theorem isAlpha_iff {c : Char} :
    c.isAlpha = true ↔ 65 ≤ c.toNat ∧ c.toNat ≤ 90 ∨ 97 ≤ c.toNat ∧ c.toNat ≤ 122 := by
  have hranges : c.isAlpha = (decide (c.val ≥ 'A'.val ∧ c.val ≤ 'Z'.val) ||
      decide (c.val ≥ 'a'.val) && decide (c.val ≤ 'z'.val)) := rfl
  simp [hranges, UInt32.le_iff_toNat_le]

theorem not_isBlank_of_isIdentRest {c : Char} (h : isIdentRest c) : ¬ Text.isBlank c := by
  simp [isIdentRest, Char.isAlphanum, isAlpha_iff, Char.isDigit, UInt32.le_iff_toNat_le,
    Char.ext_iff, ← UInt32.toNat_inj] at h
  simp [Text.isBlank]
  omega

theorem isBlank_of_isGap {c : Char} (h : isGap c) : Text.isBlank c := by
  simp only [isGap, Bool.or_eq_true, beq_iff_eq] at h
  rcases h with (rfl | rfl) | rfl <;> decide

theorem isBlank_of_isPlainBlank {c : Char} (h : Text.isPlainBlank c) : Text.isBlank c := by
  simp only [Text.isPlainBlank, Bool.or_eq_true, beq_iff_eq] at h
  rcases h with (((rfl | rfl) | rfl) | rfl) | rfl <;> decide

namespace Lexeme.Shape

theorem comment_raw {l : Lexeme} (h : l.Shape) (hcls : l.cls = .comment) :
    ∃ body, l.raw = '#' :: body ∧ '\n' ∉ body := by
  cases h <;> cases hcls
  exact ⟨_, rfl, ‹_›⟩

theorem isGap_of_blank {l : Lexeme} (h : l.Shape) (hcls : l.cls = .blank) :
    ∀ c ∈ l.raw, isGap c := by
  cases h <;> cases hcls
  assumption

/-- What the grammar sees begins with neither white space nor a comment mark. -/
theorem first_of_not_silent {l : Lexeme} (h : l.Shape) (hsilent : ¬ l.Silent) :
    ∀ c ∈ l.raw.head?, ¬ Text.isBlank c ∧ c ≠ '#' := by
  have hrest {c : Char} (hc : isIdentRest c) : ¬ Text.isBlank c ∧ c ≠ '#' := by
    refine ⟨not_isBlank_of_isIdentRest hc, ?_⟩
    rintro rfl
    cases hc
  intro c hfirst
  cases h with
  | comment => exact absurd (.inr rfl) hsilent
  | blank => exact absurd (.inl rfl) hsilent
  | varRef => cases hfirst; decide
  | text hquote => cases hfirst; rcases hquote with rfl | rfl <;> decide
  | number hall =>
    cases hfirst
    exact hrest (by simp [isIdentRest, Char.isAlphanum, hall c (by simp)])
  | ident _ hall => cases hfirst; exact hrest (hall c (by simp))
  | punct hc => cases hfirst; rcases hc with rfl | rfl | rfl <;> decide
  | pair hc | sign hc => cases hfirst; rcases hc with rfl | rfl | rfl <;> decide

/-- What the grammar sees ends in no white space and in no backslash. -/
theorem last_of_not_silent {l : Lexeme} (h : l.Shape) (hsilent : ¬ l.Silent) :
    ∀ c ∈ l.raw.getLast?, ¬ Text.isBlank c ∧ c ≠ '\\' := by
  have hrest {c : Char} (hc : isIdentRest c) : ¬ Text.isBlank c ∧ c ≠ '\\' := by
    refine ⟨not_isBlank_of_isIdentRest hc, ?_⟩
    rintro rfl
    cases hc
  intro c hlast
  cases h with
  | comment => exact absurd (.inr rfl) hsilent
  | blank => exact absurd (.inl rfl) hsilent
  | varRef hbody =>
    obtain ⟨before, d, more, after, rfl, _⟩ := hbody
    rw [← List.cons_append, List.getLast?_concat] at hlast
    cases hlast
    decide
  | text hquote =>
    rw [List.getLast?_concat] at hlast
    cases hlast
    rcases hquote with rfl | rfl <;> decide
  | number hall =>
    have := hall c (List.mem_of_getLast? hlast)
    exact hrest (by simp [isIdentRest, Char.isAlphanum, this])
  | ident _ hall => exact hrest (hall c (List.mem_of_getLast? hlast))
  | punct hc =>
    cases hlast
    rcases hc with rfl | rfl | rfl <;> decide
  | pair =>
    obtain rfl : '=' = c := by simpa using hlast
    decide
  | sign hc =>
    cases hlast
    rcases hc with rfl | rfl | rfl <;> decide

end Lexeme.Shape

theorem tokensFrom_append (col : Nat) (a b : List Lexeme) :
    tokensFrom col (a ++ b) = tokensFrom col a ++ tokensFrom (col + (raws a).length) b := by
  induction a generalizing col with
  | nil => rfl
  | cons l a ih =>
    simp only [List.cons_append, tokensFrom, ih, raws, List.flatMap_cons, List.length_append,
      Nat.add_assoc]
    split <;> rfl

theorem tokensFrom_of_silent {col : Nat} {ls : List Lexeme} (h : ∀ l ∈ ls, l.Silent) :
    tokensFrom col ls = [] := by
  induction ls generalizing col with
  | nil => rfl
  | cons l ls ih =>
    obtain ⟨hl, hls⟩ := List.forall_mem_cons.mp h
    exact (if_pos hl).trans (ih hls)

def tokens? (line : List Char) : Option (List Token) :=
  if (scan line).2 = [] then some (tokensFrom 1 (scan line).1) else none

/-- What the tokens of a line stand for, one word each. -/
def words? (line : List Char) : Option (List String) :=
  (tokens? line).map fun tokens => tokens.map (·.value)

theorem tokens?_eq_some_iff {line : List Char} {ts : List Token} :
    tokens? line = some ts ↔ ∃ ls, Lexes line ls [] ∧ tokensFrom 1 ls = ts := by
  constructor
  · intro h
    simp only [tokens?, Option.ite_none_right_eq_some, Option.some.injEq] at h
    exact ⟨_, h.1 ▸ lexes_scan line, h.2⟩
  · rintro ⟨ls, hls, rfl⟩
    simp [tokens?, hls.scan_eq]

def seen (ls : List Lexeme) : List Lexeme := ls.filter fun l => l.cls ≠ .blank ∧ l.cls ≠ .comment

theorem mem_seen {ls : List Lexeme} {l : Lexeme} : l ∈ seen ls ↔ l ∈ ls ∧ ¬ l.Silent := by
  rw [seen, List.mem_filter, decide_eq_true_iff, Lexeme.Silent, not_or]

/-- There is one token for each lexeme that the grammar sees, in their order. -/
theorem forall₂_tokensFrom (col : Nat) (ls : List Lexeme) :
    List.Forall₂ (fun l t => l.cls = t.cls ∧ l.value = t.value) (seen ls) (tokensFrom col ls) := by
  induction ls generalizing col with
  | nil => exact .nil
  | cons l ls ih =>
    by_cases hsilent : l.cls = .blank ∨ l.cls = .comment
    · rw [tokensFrom, if_pos hsilent, seen,
        List.filter_cons_of_neg
          (by simpa only [decide_eq_true_iff, ← not_or, not_not] using hsilent)]
      exact ih _
    · rw [tokensFrom, if_neg hsilent, seen,
        List.filter_cons_of_pos (by simpa only [decide_eq_true_iff, ← not_or] using hsilent)]
      exact .cons ⟨rfl, rfl⟩ (ih _)

/-- Behind each token of a line stands a lexeme. -/
theorem exists_lexeme_of_mem_tokens {line : List Char} {ts : List Token}
    (h : tokens? line = some ts) {t : Token} (ht : t ∈ ts) :
    ∃ l, lexeme? l.raw = some l ∧ ¬ l.Silent ∧ l.cls = t.cls ∧ l.value = t.value := by
  obtain ⟨ls, hls, rfl⟩ := tokens?_eq_some_iff.mp h
  obtain ⟨i, hi, rfl⟩ := List.getElem_of_mem ht
  have hseen := forall₂_tokensFrom 1 ls
  have hi' : i < (seen ls).length := hseen.length_eq ▸ hi
  obtain ⟨hl, hloud⟩ := mem_seen.mp (List.getElem_mem hi')
  exact ⟨_, hls.self_of_mem _ hl, hloud, hseen.get hi' hi⟩

end SurveyForms.Source
