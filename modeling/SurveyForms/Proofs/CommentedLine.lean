import Mathlib.Data.List.DropRight
import SurveyForms.Proofs.Lexemes
import SurveyForms.Text.Word

/-! What a comment at the end of a line hides, and what it does not. -/
namespace SurveyForms.Source

/-- Gaps and a comment up to the end of the line. -/
def CommentTail (tail : List Char) : Prop :=
  ∃ gap body, tail = gap ++ '#' :: body ∧ (∀ c ∈ gap, isGap c) ∧ '\n' ∉ body

/-- What a joined line adds to its header: a space, and text that opens with a double quote or a
word character. -/
def JoinedTail (tail : List Char) : Prop :=
  ∃ d body, tail = ' ' :: d :: body ∧ (d = '"' ∨ Text.isWord d) ∧ '\n' ∉ body

theorem lexeme?_gaps {c : Char} {gaps : List Char} (h : ∀ d ∈ c :: gaps, isGap d) :
    lexeme? (c :: gaps) = some ⟨.blank, c :: gaps⟩ := by
  obtain ⟨hc, hgaps⟩ := List.forall_mem_cons.mp h
  have htake : gaps.takeWhile isGap = gaps := List.takeWhile_eq_self_iff.mpr hgaps
  simp only [isGap, Bool.or_eq_true, beq_iff_eq] at hc
  rcases hc with (rfl | rfl) | rfl <;> simp [lexeme?, htake, isIdentStart, isGap]

private theorem lexes_comment {body : List Char} (hbody : '\n' ∉ body) :
    Lexes ('#' :: body) [⟨.comment, '#' :: body⟩] [] := by
  have htake : body.takeWhile (· ≠ '\n') = body := by
    refine List.takeWhile_eq_self_iff.mpr fun c hc => ?_
    simpa using fun heq : c = '\n' => hbody (heq ▸ hc)
  have hself : lexeme? ('#' :: body) = some ⟨.comment, '#' :: body⟩ := by
    rw [lexeme?, if_pos rfl, htake]
  have := @Lexes.next ⟨.comment, '#' :: body⟩ [] [] [] hself (Lexeme.ends_none _) (.stuck rfl)
  rwa [List.append_nil] at this

theorem lexes_commentTail {tail : List Char} (h : CommentTail tail) :
    ∃ ls, Lexes tail ls [] ∧ ∀ l ∈ ls, l.Silent := by
  obtain ⟨gap, body, rfl, hgap, hbody⟩ := h
  cases gap with
  | nil => exact ⟨_, lexes_comment hbody, by simp [Lexeme.Silent]⟩
  | cons c gap =>
    have hends : Lexeme.Ends ⟨.blank, c :: gap⟩ ('#' :: body).head? := by
      rintro d ⟨⟩
      exact (by decide : ¬ isGap '#')
    exact ⟨_, .next (lexeme?_gaps hgap) hends (lexes_comment hbody), by simp [Lexeme.Silent]⟩

private theorem commentTail_head {tail : List Char} (h : CommentTail tail) :
    ∀ c ∈ tail.head?, isGap c ∨ c = '#' := by
  obtain ⟨gap, body, rfl, hgap, _⟩ := h
  cases gap with
  | nil => rintro c ⟨⟩; exact .inr rfl
  | cons g gap => rintro c ⟨⟩; exact .inl (hgap g (by simp))

/-- Code ends in front of a character that is part of no number, word or operator. -/
theorem ends_of_apart {l : Lexeme} (h : ¬ l.Silent) {next : Option Char}
    (hnext : ∀ c ∈ next, ¬ c.isDigit ∧ ¬ isIdentRest c ∧ c ≠ '=') : l.Ends next := by
  intro c hc
  obtain ⟨hdigit, hrest, hsign⟩ := hnext c hc
  split
  · next hcls => exact absurd (.inr hcls) h
  · exact hdigit
  · exact hrest
  · next hcls => exact absurd (.inl hcls) h
  · exact fun _ => hsign
  · trivial

theorem apart_of_isGap {c : Char} (h : isGap c) : ¬ c.isDigit ∧ ¬ isIdentRest c ∧ c ≠ '=' := by
  simp only [isGap, Bool.or_eq_true, beq_iff_eq] at h
  rcases h with (rfl | rfl) | rfl <;> decide

/-- Code in front of a gap or a comment is read as if nothing followed. -/
theorem ends_of_not_silent {l : Lexeme} (h : ¬ l.Silent) {next : Option Char}
    (hnext : ∀ c ∈ next, isGap c ∨ c = '#') : l.Ends next := by
  refine ends_of_apart h fun c hc => ?_
  rcases hnext c hc with hgap | rfl
  · exact apart_of_isGap hgap
  · decide

/-- A text whose last character is neither white space nor a backslash. -/
def Solid (cs : List Char) : Prop := ∀ c ∈ cs.getLast?, ¬ Text.isBlank c ∧ c ≠ '\\'

private theorem getLast?_of_lexes {code : List Char} {ls : List Lexeme} {l : Lexeme}
    (h : Lexes code ls []) (hl : l ∈ ls.getLast?) : code.getLast? = l.raw.getLast? := by
  obtain ⟨init, rfl⟩ := List.getLast?_eq_some_iff.mp hl
  have hraw := raw_ne_nil_of_lexeme? (h.self_of_mem l (by simp))
  have hcode : code = raws init ++ l.raw := by simpa [raws] using h.eq_raws_append
  rw [hcode, List.getLast?_append_of_ne_nil _ hraw]

private theorem last_not_silent {code : List Char} {ls : List Lexeme} (h : Lexes code ls [])
    (hcomment : ∀ l ∈ ls, l.cls ≠ .comment) (hsolid : Solid code) :
    ∀ l ∈ ls.getLast?, ¬ l.Silent := by
  intro l hl hsilent
  have hmem := List.mem_of_getLast? hl
  have hself := h.self_of_mem l hmem
  have hblank : l.cls = .blank := hsilent.resolve_right (hcomment l hmem)
  have hraw := raw_ne_nil_of_lexeme? hself
  have hlast : code.getLast? = some (l.raw.getLast hraw) := by
    rw [getLast?_of_lexes h hl, List.getLast?_eq_getLast_of_ne_nil hraw]
  refine (hsolid _ hlast).1 (isBlank_of_isGap ?_)
  exact (shape_of_lexeme? hself).isGap_of_blank hblank _ (List.getLast_mem hraw)

/-- A comment behind code that can be read is not seen. -/
theorem tokens?_append_commentTail {code tail : List Char} {ls : List Lexeme}
    (h : Lexes code ls []) (hcomment : ∀ l ∈ ls, l.cls ≠ .comment) (hsolid : Solid code)
    (htail : CommentTail tail) : tokens? (code ++ tail) = tokens? code := by
  obtain ⟨ls', htokens, hsilent⟩ := lexes_commentTail htail
  have hends : ∀ l ∈ ls.getLast?, l.Ends ([] ++ tail).head? := fun l hl =>
    ends_of_not_silent (last_not_silent h hcomment hsolid l hl) (commentTail_head htail)
  have hall := h.append hends htokens
  rw [tokens?_eq_some_iff.mpr ⟨_, hall, rfl⟩, tokens?_eq_some_iff.mpr ⟨_, h, rfl⟩,
    tokensFrom_append, tokensFrom_of_silent hsilent, List.append_nil]

/-- A comment goes to the end of the line. -/
theorem comment_ends_line {cs rest : List Char} {a b : List Lexeme} {l : Lexeme}
    (h : Lexes cs (a ++ l :: b) rest) (hcls : l.cls = .comment) (hbreak : '\n' ∉ cs) :
    b = [] ∧ rest = [] ∧ cs = raws a ++ l.raw ∧ Lexes (raws a) a [] ∧
      ∀ l' ∈ a.getLast?, l'.Ends l.raw.head? := by
  obtain ⟨mid, rfl, ha, hlast, hmid⟩ := h.cut
  cases hmid with
  | @next _ tail _ _ hself hends htail =>
    have htail_nil : tail = [] := by
      cases tail with
      | nil => rfl
      | cons c tail =>
        have hc := hends c rfl
        rw [hcls] at hc
        simp [show c = '\n' from hc] at hbreak
    subst htail_nil
    obtain ⟨rfl, rfl⟩ := htail.unique (.stuck rfl)
    rw [List.append_nil] at hlast ⊢
    exact ⟨rfl, rfl, rfl, ha, hlast⟩

/-- A comment takes in whatever is added to its line. -/
theorem tokens?_append_of_comment {code more : List Char} {ls : List Lexeme} {l : Lexeme}
    (h : Lexes code ls []) (hl : l ∈ ls) (hcls : l.cls = .comment) (hbreak : '\n' ∉ code ++ more) :
    tokens? (code ++ more) = tokens? code := by
  obtain ⟨a, b, rfl⟩ := List.append_of_mem hl
  obtain ⟨rfl, -, rfl, ha, hlast⟩ := comment_ends_line h hcls (by simp_all)
  obtain ⟨body, hraw, hbody⟩ := (shape_of_lexeme? (h.self_of_mem l hl)).comment_raw hcls
  have hlong : Lexes ([] ++ (l.raw ++ more)) [⟨.comment, l.raw ++ more⟩] [] := by
    rw [hraw, List.nil_append, List.cons_append]
    exact lexes_comment (by simp_all)
  have hall := ha.append (by simpa [hraw] using hlast) hlong
  have hsilent : ∀ l' ∈ [l], l'.Silent := by simp [Lexeme.Silent, hcls]
  have hsilent' : ∀ l' ∈ [(⟨.comment, l.raw ++ more⟩ : Lexeme)], l'.Silent := by
    simp [Lexeme.Silent]
  rw [tokens?_eq_some_iff.mpr ⟨_, h, rfl⟩, List.append_assoc,
    tokens?_eq_some_iff.mpr ⟨_, hall, rfl⟩, tokensFrom_append, tokensFrom_append,
    tokensFrom_of_silent hsilent, tokensFrom_of_silent hsilent']

/-- What lexemes stand for, one word each, without blanks and comments. -/
def words (ls : List Lexeme) : List String := (tokensFrom 1 ls).map (·.value)

private theorem values_tokensFrom (col : Nat) (ls : List Lexeme) :
    (tokensFrom col ls).map (·.value) = words ls := by
  rw [words]
  suffices ∀ col', (tokensFrom col ls).map (·.value) = (tokensFrom col' ls).map (·.value) from
    this 1
  induction ls generalizing col with
  | nil => intro; rfl
  | cons l ls ih =>
    intro col'
    have := ih (col + l.raw.length) (col' + l.raw.length)
    simp only [tokensFrom]
    split
    · exact this
    · simp [this]

theorem words_append (a b : List Lexeme) : words (a ++ b) = words a ++ words b := by
  rw [words, tokensFrom_append, List.map_append, values_tokensFrom, values_tokensFrom]

theorem words_cons_of_not_silent {l : Lexeme} (h : ¬ l.Silent) (ls : List Lexeme) :
    words (l :: ls) = l.value :: words ls := by
  have hl : ¬ (l.cls = .blank ∨ l.cls = .comment) := h
  rw [words, tokensFrom, if_neg hl, List.map_cons, values_tokensFrom]

theorem words?_eq_some_iff {line : List Char} {ws : List String} :
    words? line = some ws ↔ ∃ ls, Lexes line ls [] ∧ words ls = ws := by
  simp only [words?, Option.map_eq_some_iff, tokens?_eq_some_iff]
  constructor
  · rintro ⟨ts, ⟨ls, hls, rfl⟩, rfl⟩
    exact ⟨ls, hls, rfl⟩
  · rintro ⟨ls, hls, rfl⟩
    exact ⟨_, ⟨ls, hls, rfl⟩, rfl⟩

/-- Behind its gaps, a text without words can only go on with a comment. -/
private theorem head_of_words_nil {cs rest : List Char} {ls : List Lexeme} (h : Lexes cs ls rest)
    (hwords : words ls = []) : ∀ c ∈ ((raws ls).dropWhile isGap).head?, c = '#' := by
  induction h with
  | stuck => intro c hc; cases hc
  | @next l cs rest ls hself hends htail ih =>
    by_cases hsilent : l.Silent
    · have hshape := shape_of_lexeme? hself
      rw [raws, List.flatMap_cons, ← raws]
      rcases hsilent with hcls | hcls
      · rw [List.dropWhile_append_of_pos (hshape.isGap_of_blank hcls)]
        refine ih ?_
        have := words_append [l] ls
        rw [List.singleton_append, hwords] at this
        exact (List.append_eq_nil_iff.mp this.symm).2
      · obtain ⟨body, hraw, _⟩ := hshape.comment_raw hcls
        intro c hc
        have hgap : ¬ isGap '#' := by decide
        rw [hraw, List.cons_append, List.dropWhile_cons_of_neg hgap] at hc
        cases hc
        rfl
    · rw [words_cons_of_not_silent hsilent] at hwords
      cases hwords

private theorem wordRanges_apart_blanks : ∀ r ∈ Text.wordRanges,
    ∀ b ∈ [(0x85, 0x85), (0xa0, 0xa0), (0x1680, 0x1680), (0x2000, 0x200a), (0x2028, 0x2029),
      (0x202f, 0x202f), (0x205f, 0x205f), (0x3000, 0x3000)], r.2 < b.1 ∨ b.2 < r.1 := by
  decide +kernel

private theorem not_isBlank_of_isWord {c : Char} (h : Text.isWord c) : ¬ Text.isBlank c := by
  unfold Text.isWord at h
  split at h
  · exact not_isBlank_of_isIdentRest h
  · next hhigh =>
    obtain ⟨r, hr, hlow, hup⟩ := (Text.Ranges.contains_iff _ _).mp h
    have hapart := wordRanges_apart_blanks r hr
    simp only [List.forall_mem_cons, List.not_mem_nil, false_imp_iff, implies_true, and_true]
      at hapart
    simp only [Text.isBlank, Bool.or_eq_true, Bool.and_eq_true, decide_eq_true_eq, beq_iff_eq]
    omega

theorem first_of_joined {d : Char} (h : d = '"' ∨ Text.isWord d) :
    ¬ Text.isBlank d ∧ d ≠ '#' ∧ d ≠ '\\' := by
  rcases h with rfl | hd
  · decide
  · refine ⟨not_isBlank_of_isWord hd, ?_, ?_⟩
    · rintro rfl
      cases hd
    · rintro rfl
      cases hd

theorem words_ne_nil_of_joinedTail {tail : List Char} {ls : List Lexeme}
    (h : Lexes tail ls []) (htail : JoinedTail tail) : words ls ≠ [] := by
  intro hwords
  obtain ⟨d, body, rfl, hd, _⟩ := htail
  obtain ⟨hblank, hhash, _⟩ := first_of_joined hd
  have hraws : raws ls = ' ' :: d :: body := by simpa using h.eq_raws_append.symm
  refine hhash (head_of_words_nil h hwords d ?_)
  have hgap : isGap ' ' := by decide
  rw [hraws, List.dropWhile_cons_of_pos hgap,
    List.dropWhile_cons_of_neg fun hd => hblank (isBlank_of_isGap hd)]
  rfl

private theorem hash_not_mem_of_braced {raw : List Char} (h : Braced raw) : '#' ∉ raw := by
  obtain ⟨before, c, more, after, rfl, hbefore, hc, hmore, hafter⟩ := h
  intro hmem
  simp only [List.mem_append, List.mem_cons, List.not_mem_nil, or_false] at hmem
  rcases hmem with (((hmem | hmem) | hmem | hmem) | hmem) | hmem
  · cases hmem
  · cases hbefore _ hmem
  · subst hmem; cases hc
  · cases hmore _ hmem
  · cases hafter _ hmem
  · cases hmem

/-- A reference that ends in front of a comment ends in front of its gaps. -/
private theorem braced?_of_append_commentTail {cs tail raw : List Char} (htail : CommentTail tail)
    (h : braced? (cs ++ tail) = some raw) : braced? cs = some raw := by
  obtain ⟨hraw, rest, happend⟩ := braced?_eq_some_iff.mp h
  refine braced?_eq_some_iff.mpr ⟨hraw, ?_⟩
  rcases List.append_eq_append_iff.mp happend with ⟨more, rfl, _⟩ | ⟨extra, rfl, rfl⟩
  · exact List.prefix_append raw more
  obtain ⟨gap, body, hgap, hgaps, _⟩ := htail
  -- `extra` holds no comment, so it would have to end inside the gaps
  have hextra : ∀ c ∈ extra, isGap c := by
    intro c hc
    rcases List.append_eq_append_iff.mp hgap with ⟨more, rfl, _⟩ | ⟨more, rfl, hmore⟩
    · exact hgaps c (by simp [hc])
    · cases more with
      | nil => exact hgaps c (by simpa using hc)
      | cons d more =>
        cases hmore
        exact absurd (by simp) (hash_not_mem_of_braced hraw)
  cases hlast : extra.getLast? with
  | none => simp [List.getLast?_eq_none_iff.mp hlast]
  | some c =>
    obtain ⟨before, d, more, after, hshape, _⟩ := hraw
    have hclose : (cs ++ extra).getLast? = some '\x7d' := by rw [hshape, List.getLast?_concat]
    rw [List.getLast?_append, hlast] at hclose
    cases hclose
    exact absurd (hextra _ (List.mem_of_getLast? hlast)) (by decide)

/-- Where a text stops but goes on in front of a comment, it stops inside a quote. -/
private theorem quote_of_stuck {rest tail : List Char} {l : Lexeme} (hne : rest ≠ [])
    (hnone : lexeme? rest = none) (htail : CommentTail tail)
    (hsome : lexeme? (rest ++ tail) = some l) :
    ∃ quote body, (quote = '"' ∨ quote = '\'') ∧ rest = quote :: body ∧
      closeQuote? quote body = none := by
  cases rest with
  | nil => exact absurd rfl hne
  | cons c body =>
    simp only [List.cons_append, lexeme?] at hnone hsome
    split at hnone
    · cases hnone
    next hhash =>
    rw [if_neg hhash] at hsome
    split at hnone
    · next hdollar =>
      rw [if_pos hdollar] at hsome
      obtain ⟨raw, hraw, _⟩ := Option.map_eq_some_iff.mp hsome
      rw [braced?_of_append_commentTail htail hraw] at hnone
      cases hnone
    next hdollar =>
    rw [if_neg hdollar] at hsome
    split at hnone
    · next hquote => exact ⟨c, body, hquote, rfl, Option.map_eq_none_iff.mp hnone⟩
    next hquote =>
    rw [if_neg hquote] at hsome
    split at hnone
    · cases hnone
    next hdigit =>
    rw [if_neg hdigit] at hsome
    split at hnone
    · cases hnone
    next hident =>
    rw [if_neg hident] at hsome
    split at hnone
    · cases hnone
    next hpunct =>
    rw [if_neg hpunct] at hsome
    split at hnone
    · cases hnone
    next hgap =>
    rw [if_neg hgap] at hsome
    obtain ⟨raw, hraw, _⟩ := Option.map_eq_some_iff.mp hsome
    rw [Option.map_eq_none_iff, operator?_cons] at hnone
    rw [operator?_cons] at hraw
    have hhead := commentTail_head htail '='
    cases body <;> simp_all [isGap]

private theorem first_lexeme {cs : List Char} {ls : List Lexeme} (h : Lexes cs ls [])
    (hne : cs ≠ []) : ∃ l more, ls = l :: more ∧ lexeme? cs = some l := by
  cases h with
  | stuck => exact absurd rfl hne
  | next hself hends => exact ⟨_, _, rfl, lexeme?_append_iff.mpr ⟨hself, hends⟩⟩

/-- A literal that is closed only in what is added has its value from both parts. -/
private theorem value_of_open {quote : Char} {body tail : List Char} {l : Lexeme}
    (hquote : quote = '"' ∨ quote = '\'') (hbody : Quotable quote body)
    (h : lexeme? (quote :: body ++ tail) = some l) :
    ∃ inner after, tail = inner ++ quote :: after ∧ ¬ l.Silent ∧
      l.value = String.ofList (unescape body ++ unescape inner) := by
  have hopen : lexeme? (quote :: (body ++ tail)) = (closeQuote? quote (body ++ tail)).map
      fun closed => ⟨.text, quote :: closed.1 ++ [quote]⟩ := by
    rcases hquote with rfl | rfl <;> rfl
  rw [List.cons_append, hopen, closeQuote?_append hbody, Option.map_map,
    Option.map_eq_some_iff] at h
  obtain ⟨⟨inner, after⟩, hclose, rfl⟩ := h
  obtain ⟨_, htail⟩ := closeQuote?_eq_some_iff.mp hclose
  refine ⟨inner, after, htail, by simp [Lexeme.Silent], ?_⟩
  rw [← unescape_append hbody]
  simp [Lexeme.value]

/-- The part of a literal that comes from a comment shows the mark behind its gaps. -/
private theorem unescape_commentTail {quote : Char} {tail inner after : List Char}
    (hquote : quote = '"' ∨ quote = '\'') (htail : CommentTail tail)
    (h : tail = inner ++ quote :: after) : ((unescape inner).dropWhile isGap).head? = some '#' := by
  obtain ⟨gap, body, rfl, hgaps, _⟩ := htail
  induction gap generalizing inner with
  | nil =>
    cases inner with
    | nil => rcases hquote with rfl | rfl <;> cases h
    | cons c inner =>
      cases h
      rw [unescape_cons (by decide), List.dropWhile_cons_of_neg (by decide)]
      rfl
  | cons g gap ih =>
    obtain ⟨hg, hgap⟩ := List.forall_mem_cons.mp hgaps
    cases inner with
    | nil =>
      cases h
      rcases hquote with rfl | rfl <;> cases hg
    | cons c inner =>
      obtain ⟨rfl, htail⟩ := List.cons_eq_cons.mp h
      have hescape : g ≠ '\\' := by
        rintro rfl
        cases hg
      rw [unescape_cons hescape, List.dropWhile_cons_of_pos hg]
      exact ih htail hgap

private theorem unescape_joinedTail {quote : Char} {tail inner after : List Char}
    (hquote : quote = '"' ∨ quote = '\'') (htail : JoinedTail tail)
    (h : tail = inner ++ quote :: after) : ((unescape inner).dropWhile isGap).head? ≠ some '#' := by
  obtain ⟨d, body, rfl, hd, _⟩ := htail
  obtain ⟨hblank, hhash, hescape⟩ := first_of_joined hd
  have hspace : isGap ' ' := by decide
  have hgap : ¬ isGap d := fun hgap => hblank (isBlank_of_isGap hgap)
  match inner, h with
  | [], h => rcases hquote with rfl | rfl <;> cases h
  | [_], h =>
    cases h
    simp [unescape, hspace]
  | _ :: _ :: inner, h =>
    cases h
    rw [unescape_cons (by decide), unescape_cons hescape, List.dropWhile_cons_of_pos hspace,
      List.dropWhile_cons_of_neg hgap]
    simpa using hhash

private theorem lexeme_of_stuck {code rest tail : List Char} {ls ls' : List Lexeme}
    (h : Lexes code ls rest) (hne : rest ≠ []) (htail : Lexes (code ++ tail) ls' []) :
    ∃ l more, ls' = ls ++ l :: more ∧ lexeme? (rest ++ tail) = some l := by
  have hends : ∀ l ∈ ls.getLast?, l.Ends (rest ++ tail).head? := by
    rw [List.head?_append_of_ne_nil _ hne]
    exact h.last_ends
  obtain ⟨rfl, hrest⟩ := htail.unique (h.append hends (lexes_scan (rest ++ tail)))
  have hscan := lexes_scan (rest ++ tail)
  rw [← hrest] at hscan
  obtain ⟨l, more, hl, hfirst⟩ := first_lexeme hscan (List.append_ne_nil_of_left_ne_nil hne _)
  exact ⟨l, more, by rw [hl], hfirst⟩

/-- Code that stops inside a quote reads differently with a comment behind it and with a joined
line behind it: either part becomes part of the literal. -/
theorem words?_ne_of_stuck {code rest comment joined : List Char} {ls : List Lexeme}
    (h : Lexes code ls rest) (hne : rest ≠ []) (hbreak : '\n' ∉ code) (hsolid : Solid code)
    (hcomment : CommentTail comment) (hjoined : JoinedTail joined) {ws : List String}
    (hwords : words? (code ++ comment) = some ws) : words? (code ++ joined) ≠ some ws := by
  intro hwords'
  obtain ⟨lsc, hlsc, rfl⟩ := words?_eq_some_iff.mp hwords
  obtain ⟨lsj, hlsj, hsame⟩ := words?_eq_some_iff.mp hwords'
  obtain ⟨lc, morec, rfl, hlc⟩ := lexeme_of_stuck h hne hlsc
  obtain ⟨lj, morej, rfl, hlj⟩ := lexeme_of_stuck h hne hlsj
  obtain ⟨quote, body, hquote, rfl, hclose⟩ := quote_of_stuck hne (h.rest_stuck) hcomment hlc
  have hcode := h.eq_raws_append
  have hbody : Quotable quote body := by
    have hmem : '\n' ∉ body := fun hmem => hbreak (by simp [hcode, hmem])
    refine quotable_of_closeQuote? hclose hmem fun hlast => ?_
    refine (hsolid '\\' ?_).2 rfl
    rw [hcode, List.getLast?_append_cons, List.getLast?_cons, hlast]
    rfl
  obtain ⟨innerc, afterc, hcommentc, hsilentc, hvaluec⟩ := value_of_open hquote hbody hlc
  obtain ⟨innerj, afterj, hjoinedj, hsilentj, hvaluej⟩ := value_of_open hquote hbody hlj
  rw [words_append, words_append, words_cons_of_not_silent hsilentc,
    words_cons_of_not_silent hsilentj, List.append_cancel_left_eq, List.cons.injEq, hvaluec,
    hvaluej, String.ofList_inj, List.append_cancel_left_eq] at hsame
  refine unescape_joinedTail hquote hjoined hjoinedj ?_
  rw [hsame.1]
  exact unescape_commentTail hquote hcomment hcommentc

/-- A line without the comment at its end and the blanks in front of it; nothing, if the line
cannot be read to its end or has no comment there. -/
def withoutComment? (line : List Char) : Option (List Char) :=
  if (scan line).2 = [] ∧ (scan line).1.getLast?.map (·.cls) = some .comment then
    some (raws ((scan line).1.dropLast.rdropWhile (·.cls = .blank)))
  else none

private theorem exists_blanks (ls : List Lexeme) : ∃ a b, ls = a ++ b ∧
    ls.rdropWhile (·.cls = .blank) = a ∧ (∀ l ∈ b, l.cls = .blank) ∧
      ∀ l ∈ a.getLast?, l.cls ≠ .blank := by
  refine ⟨_, _, List.rdropWhile_append_rtakeWhile.symm, rfl, fun l hl => ?_, fun l hl hblank => ?_⟩
  · simpa using List.mem_rtakeWhile_imp hl
  · have hne : ls.rdropWhile (fun l => l.cls = .blank) ≠ [] := by
      intro hnil
      rw [hnil] at hl
      cases hl
    rw [List.getLast?_eq_getLast_of_ne_nil hne] at hl
    cases hl
    exact List.rdropWhile_last_not _ _ hne (by simpa using hblank)

/-- A line with a comment is code that can be read, and the comment behind it. -/
theorem withoutComment?_eq_some {line code : List Char} (h : withoutComment? line = some code)
    (hbreak : '\n' ∉ line) : ∃ tail ls, line = code ++ tail ∧ CommentTail tail ∧
      Lexes code ls [] ∧ (∀ l ∈ ls, l.cls ≠ .comment) ∧ Solid code := by
  simp only [withoutComment?, Option.ite_none_right_eq_some, Option.some.injEq,
    Option.map_eq_some_iff] at h
  obtain ⟨⟨hread, c, hc, hcls⟩, rfl⟩ := h
  have hline := lexes_scan line
  rw [hread] at hline
  obtain ⟨init, hinit⟩ := List.getLast?_eq_some_iff.mp hc
  rw [hinit] at hline
  rw [hinit, List.dropLast_concat]
  have hself := hline.self_of_mem
  have hplain : ∀ l ∈ init, l.cls ≠ .comment := by
    intro l hl hcls
    obtain ⟨x, y, rfl⟩ := List.append_of_mem hl
    rw [List.append_assoc, List.cons_append] at hline
    exact absurd (comment_ends_line hline hcls hbreak).1 (by simp)
  obtain ⟨body, hraw, hbody⟩ := (shape_of_lexeme? (hself c (by simp))).comment_raw hcls
  obtain ⟨code, blanks, rfl, hcode, hblanks, hlast⟩ := exists_blanks init
  rw [hcode]
  rw [List.append_assoc] at hline
  obtain ⟨mid, rfl, hcode, _, hmid⟩ := hline.cut
  refine ⟨mid, code, rfl, ⟨raws blanks, body, ?_, ?_, hbody⟩, hcode, ?_, ?_⟩
  · rw [hmid.eq_raws_append, ← hraw]
    simp [raws]
  · intro d hd
    obtain ⟨l, hl, hd⟩ := List.mem_flatMap.mp hd
    exact (shape_of_lexeme? (hself l (by simp [hl]))).isGap_of_blank (hblanks l hl) d hd
  · exact fun l hl => hplain l (by simp [hl])
  · intro d hd
    cases hl : code.getLast? with
    | none => rw [List.getLast?_eq_none_iff.mp hl] at hd; cases hd
    | some l =>
      have hmem := List.mem_of_getLast? hl
      have hsilent : ¬ l.Silent := not_or.mpr ⟨hlast l hl, hplain l (by simp [hmem])⟩
      rw [getLast?_of_lexes hcode hl] at hd
      exact (shape_of_lexeme? (hcode.self_of_mem l hmem)).last_of_not_silent hsilent d hd

def Commented (cs : List Char) : Prop :=
  (scan cs).2 = [] ∧ ∃ l ∈ (scan cs).1, l.cls = .comment

instance : DecidablePred Commented := fun _ => inferInstanceAs (Decidable (_ ∧ _))

private theorem break_not_mem_commentTail {tail : List Char} (h : CommentTail tail) :
    '\n' ∉ tail := by
  obtain ⟨gap, body, rfl, hgap, hbody⟩ := h
  intro hmem
  rcases List.mem_append.mp hmem with hmem | hmem
  · cases hgap _ hmem
  · rcases List.mem_cons.mp hmem with hmem | hmem
    · cases hmem
    · exact hbody hmem

private theorem break_not_mem_joinedTail {tail : List Char} (h : JoinedTail tail) :
    '\n' ∉ tail := by
  obtain ⟨d, body, rfl, hd, hbody⟩ := h
  intro hmem
  simp only [List.mem_cons] at hmem
  rcases hmem with hmem | rfl | hmem
  · cases hmem
  · exact (first_of_joined hd).1 rfl
  · exact hbody hmem

/-- Where code can be read, a comment behind it changes nothing if nothing was to follow, or if
an earlier comment hides both. -/
theorem tokens?_commentTail_eq {code comment joined : List Char} (hread : (scan code).2 = [])
    (hbreak : '\n' ∉ code) (hsolid : Solid code) (hcomment : CommentTail comment)
    (hfollows : joined = [] ∨ Commented code ∧ JoinedTail joined) :
    tokens? (code ++ comment) = tokens? (code ++ joined) := by
  have hcode := lexes_scan code
  rw [hread] at hcode
  by_cases hhidden : ∃ l ∈ (scan code).1, l.cls = .comment
  · obtain ⟨l, hl, hcls⟩ := hhidden
    have hjoined : '\n' ∉ joined := by
      rcases hfollows with rfl | hfollows
      · exact List.not_mem_nil
      · exact break_not_mem_joinedTail hfollows.2
    have hhides {more : List Char} (hmore : '\n' ∉ more) : tokens? (code ++ more) = tokens? code :=
      tokens?_append_of_comment hcode hl hcls (by simp [hbreak, hmore])
    rw [hhides (break_not_mem_commentTail hcomment), hhides hjoined]
  · rcases hfollows with rfl | ⟨⟨_, hfollows⟩, _⟩
    · rw [List.append_nil]
      have hplain : ∀ l ∈ (scan code).1, l.cls ≠ .comment := fun l hl hcls =>
        hhidden ⟨l, hl, hcls⟩
      exact tokens?_append_commentTail hcode hplain hsolid hcomment
    · exact absurd hfollows hhidden

/-- Otherwise the words differ, if the line can be read both ways. -/
theorem words?_commentTail_ne {code comment joined : List Char} (hbreak : '\n' ∉ code)
    (hsolid : Solid code) (hcomment : CommentTail comment) (hjoined : JoinedTail joined)
    (hopen : ¬ Commented code) {ws : List String} (hwords : words? (code ++ comment) = some ws) :
    words? (code ++ joined) ≠ some ws := by
  have hcode := lexes_scan code
  by_cases hread : (scan code).2 = []
  · rw [hread] at hcode
    have hplain : ∀ l ∈ (scan code).1, l.cls ≠ .comment := fun l hl hcls =>
      hopen ⟨hread, l, hl, hcls⟩
    intro hwords'
    have hsame : words (scan code).1 = ws := by
      rw [words?, tokens?_append_commentTail hcode hplain hsolid hcomment, ← words?] at hwords
      obtain ⟨ls, hls, hws⟩ := words?_eq_some_iff.mp hwords
      rw [(hls.unique hcode).1] at hws
      exact hws
    obtain ⟨ls, hls, hws⟩ := words?_eq_some_iff.mp hwords'
    have hends : ∀ l ∈ (scan code).1.getLast?, l.Ends ([] ++ joined).head? := by
      intro l hl
      refine ends_of_not_silent (last_not_silent hcode hplain hsolid l hl) ?_
      obtain ⟨d, body, rfl, _⟩ := hjoined
      rintro c ⟨⟩
      exact .inl (by decide)
    obtain ⟨rfl, hrest⟩ := hls.unique (hcode.append hends (lexes_scan joined))
    have hread' := lexes_scan joined
    rw [← hrest] at hread'
    rw [words_append, hsame] at hws
    exact words_ne_nil_of_joinedTail hread' hjoined (List.append_right_eq_self.mp hws)
  · exact words?_ne_of_stuck hcode hread hbreak hsolid hcomment hjoined hwords

end SurveyForms.Source
