import SurveyForms.Proofs.Joining

/-! White space between lexemes. What the grammar sees of a text does not depend on how much white
space there is, and joining lines changes nothing else. -/
namespace SurveyForms.Source

open Text

/-- The lexemes of a text that are no blanks, and what no lexeme starts. -/
def solids (cs : List Char) : List Lexeme × List Char :=
  ((scan cs).1.filter (·.cls ≠ .blank), (scan cs).2)

theorem Lexes.solids_eq {cs rest : List Char} {ls : List Lexeme} (h : Lexes cs ls rest) :
    solids cs = (ls.filter (·.cls ≠ .blank), rest) := by
  rw [solids, h.scan_eq]

private theorem solids_append_of_head {gaps cs : List Char} (hgaps : ∀ c ∈ gaps, isGap c)
    (hcs : ∀ c ∈ cs.head?, ¬ isGap c) : solids (gaps ++ cs) = solids cs := by
  cases gaps with
  | nil => rfl
  | cons c gaps =>
    have hblank : Lexes (c :: gaps ++ cs) (⟨.blank, c :: gaps⟩ :: (scan cs).1) (scan cs).2 :=
      @Lexes.next ⟨.blank, c :: gaps⟩ _ _ _ (lexeme?_gaps hgaps) hcs (lexes_scan cs)
    rw [hblank.solids_eq]
    rfl

/-- Blanks in front of a text are passed over. -/
theorem solids_append {gaps : List Char} (hgaps : ∀ c ∈ gaps, isGap c) (cs : List Char) :
    solids (gaps ++ cs) = solids cs := by
  have hsplit := List.takeWhile_append_dropWhile (p := isGap) (l := cs)
  have hhead : ∀ c ∈ (cs.dropWhile isGap).head?, ¬ isGap c := by
    intro c hc
    have := List.head?_dropWhile_not isGap cs
    rw [hc] at this
    simpa using this
  have htake : ∀ c ∈ cs.takeWhile isGap, isGap c := fun c => List.mem_takeWhile_imp
  calc solids (gaps ++ cs)
      = solids ((gaps ++ cs.takeWhile isGap) ++ cs.dropWhile isGap) := by
        rw [List.append_assoc, hsplit]
    _ = solids (cs.dropWhile isGap) :=
        solids_append_of_head (List.forall_mem_append.mpr ⟨hgaps, htake⟩) hhead
    _ = solids (cs.takeWhile isGap ++ cs.dropWhile isGap) :=
        (solids_append_of_head htake hhead).symm
    _ = solids cs := by rw [hsplit]

theorem solids_nil : solids [] = ([], []) := (Lexes.stuck rfl).solids_eq

/-- A text that can be read and does not begin with a blank begins with its first lexeme. -/
theorem exists_lexeme_of_solids {cs : List Char} {ls : List Lexeme} (h : solids cs = (ls, []))
    (hne : cs ≠ []) (hfirst : ∀ c ∈ cs.head?, ¬ isGap c) :
    ∃ l ls' rest, ls = l :: ls' ∧ cs = l.raw ++ rest ∧ lexeme? l.raw = some l ∧
      l.Ends rest.head? ∧ solids rest = (ls', []) := by
  have hlexes := lexes_scan cs
  obtain ⟨rfl, hrest⟩ := Prod.ext_iff.mp h
  obtain ⟨l, rest, found, rfl, hscan, hself, hends, htail⟩ :=
    Lexes.exists_cons (hrest ▸ hlexes : Lexes cs _ []) hne
  have hblank : l.cls ≠ .blank := by
    intro hcls
    obtain ⟨c, body, hraw⟩ := List.exists_cons_of_ne_nil (raw_ne_nil_of_lexeme? hself)
    refine hfirst c (by rw [hraw]; rfl) ?_
    exact (shape_of_lexeme? hself).isGap_of_blank hcls c (by simp [hraw])
  refine ⟨l, _, rest, ?_, rfl, hself, hends, htail.solids_eq⟩
  rw [solids, hscan, List.filter_cons_of_pos (by simpa using hblank)]

theorem isGap_of_isIndent {c : Char} (h : isIndent c) : isGap c := by
  simp only [isIndent, Bool.or_eq_true, beq_iff_eq] at h
  simp [isGap, h]

/-- White space that may stand between lexemes: gaps of a line, and the break between lines. -/
def isSpacing (c : Char) : Bool := isGap c || c == '\n'

theorem isBlank_of_isSpacing {c : Char} (h : isSpacing c) : isBlank c := by
  simp only [isSpacing, Bool.or_eq_true, beq_iff_eq] at h
  rcases h with h | rfl
  · exact isBlank_of_isGap h
  · decide

/-- Code ends in front of white space. -/
theorem ends_of_isSpacing {l : Lexeme} (h : ¬ l.Silent) {next : Option Char}
    (hnext : ∀ c ∈ next, isSpacing c) : l.Ends next := by
  refine ends_of_apart h fun c hc => ?_
  have hc := hnext c hc
  simp only [isSpacing, Bool.or_eq_true, beq_iff_eq] at hc
  rcases hc with hc | rfl
  · exact apart_of_isGap hc
  · decide

/-- `Laid ls cs`: a text that holds these lexemes with white space between them, also over
several lines. -/
inductive Laid : List Lexeme → List Char → Prop
  | nil : Laid [] []
  | space {c : Char} {cs : List Char} {ls : List Lexeme} (hc : isSpacing c) (h : Laid ls cs) :
    Laid ls (c :: cs)
  | lexeme {l : Lexeme} {cs : List Char} {ls : List Lexeme} (hself : lexeme? l.raw = some l)
    (hloud : ¬ l.Silent) (hends : l.Ends cs.head?) (h : Laid ls cs) : Laid (l :: ls) (l.raw ++ cs)

namespace Laid

variable {cs more : List Char} {ls ls' : List Lexeme}

theorem spaces {gap : List Char} (hgap : ∀ c ∈ gap, isSpacing c) (h : Laid ls cs) :
    Laid ls (gap ++ cs) := by
  induction gap with
  | nil => exact h
  | cons c gap ih =>
    obtain ⟨hc, hgap⟩ := List.forall_mem_cons.mp hgap
    exact .space hc (ih hgap)

private theorem of_lexes {rest : List Char} (h : Lexes cs ls rest) (hrest : rest = [])
    (hcomment : ∀ l ∈ ls, l.cls ≠ .comment) : Laid (ls.filter (·.cls ≠ .blank)) cs := by
  induction h with
  | stuck => exact hrest ▸ .nil
  | @next l cs rest ls hself hends _ ih =>
    obtain ⟨hl, hls⟩ := List.forall_mem_cons.mp hcomment
    by_cases hblank : l.cls = .blank
    · rw [List.filter_cons_of_neg (by simpa using hblank)]
      refine (ih hrest hls).spaces fun c hc => ?_
      simp [isSpacing, (shape_of_lexeme? hself).isGap_of_blank hblank c hc]
    · rw [List.filter_cons_of_pos (by simpa using hblank)]
      exact .lexeme hself (not_or.mpr ⟨hblank, hl⟩) hends (ih hrest hls)

/-- A line that is read to its end lays out its lexemes, if none is a comment. -/
theorem of_solids (h : solids cs = (ls, [])) (hcomment : ∀ l ∈ ls, l.cls ≠ .comment) :
    Laid ls cs := by
  obtain ⟨rfl, hrest⟩ := Prod.ext_iff.mp h
  refine of_lexes (lexes_scan cs) hrest fun l hl hcls => ?_
  exact hcomment l (by simpa [solids, hcls] using hl) hcls

theorem solids_eq (h : Laid ls cs) (hbreak : '\n' ∉ cs) : solids cs = (ls, []) := by
  induction h with
  | nil => exact solids_nil
  | @space c cs ls hc _ ih =>
    obtain ⟨hne, hcs⟩ : '\n' ≠ c ∧ '\n' ∉ cs := by simpa using hbreak
    have hgap : isGap c := by simpa [isSpacing, hne.symm] using hc
    have hskip : solids ([c] ++ cs) = solids cs := solids_append (by simpa using hgap) cs
    exact hskip.trans (ih hcs)
  | @lexeme l cs ls hself hloud hends _ ih =>
    have ih := ih fun hmem => hbreak (by simp [hmem])
    rw [(Lexes.next hself hends (lexes_scan cs)).solids_eq,
      List.filter_cons_of_pos (by simpa using (not_or.mp hloud).1)]
    rw [solids, Prod.mk.injEq] at ih
    rw [ih.1, ih.2]

/-- Texts put one behind the other, if the border lengthens no lexeme. -/
theorem append (h : Laid ls cs) (h' : Laid ls' more)
    (hends : ∀ l ∈ ls.getLast?, l.Ends more.head?) : Laid (ls ++ ls') (cs ++ more) := by
  induction h with
  | nil => exact h'
  | space hc _ ih => exact .space hc (ih hends)
  | @lexeme l cs ls hself hloud hl htail ih =>
    rw [List.append_assoc]
    refine .lexeme hself hloud ?_ (ih ?_)
    · cases htail with
      | nil => exact hends l rfl
      | space => exact hl
      | lexeme hself' =>
        rw [List.append_assoc, List.head?_append_of_ne_nil _ (raw_ne_nil_of_lexeme? hself')]
        rwa [List.head?_append_of_ne_nil _ (raw_ne_nil_of_lexeme? hself')] at hl
    · cases ls with
      | nil => intro l' hl'; cases hl'
      | cons l' ls => simpa using hends

theorem self_of_mem (h : Laid ls cs) : ∀ l ∈ ls, lexeme? l.raw = some l ∧ ¬ l.Silent := by
  induction h with
  | nil => simp
  | space _ _ ih => exact ih
  | lexeme hself hloud _ _ ih => exact List.forall_mem_cons.mpr ⟨⟨hself, hloud⟩, ih⟩

/-- Text behind white space, over the border of a line or not. -/
theorem append_space (h : Laid ls cs) {c : Char} (hc : isSpacing c) (h' : Laid ls' more) :
    Laid (ls ++ ls') (cs ++ c :: more) := by
  refine h.append (.space hc h') fun l hl => ?_
  refine ends_of_isSpacing (h.self_of_mem l (List.mem_of_getLast? hl)).2 ?_
  rintro d ⟨⟩
  exact hc

private theorem first_of_lexeme {l : Lexeme} (hself : lexeme? l.raw = some l)
    (hloud : ¬ l.Silent) (cs : List Char) :
    ∃ c rest, l.raw ++ cs = c :: rest ∧ ¬ isBlank c := by
  obtain ⟨c, body, hraw⟩ := List.exists_cons_of_ne_nil (raw_ne_nil_of_lexeme? hself)
  refine ⟨c, body ++ cs, by rw [hraw]; rfl, ?_⟩
  exact ((shape_of_lexeme? hself).first_of_not_silent hloud c (by rw [hraw]; rfl)).1

theorem trimStart (h : Laid ls cs) : Laid ls (Text.trimStart cs) := by
  induction h with
  | nil => exact .nil
  | space hc _ ih =>
    rwa [Text.trimStart, List.dropWhile_cons_of_pos (isBlank_of_isSpacing hc)]
  | @lexeme l cs ls hself hloud hends h ih =>
    obtain ⟨c, rest, hraw, hc⟩ := first_of_lexeme hself hloud cs
    rw [Text.trimStart, hraw, List.dropWhile_cons_of_neg hc, ← hraw]
    exact .lexeme hself hloud hends h

private theorem eq_nil_of_blank (h : Laid ls cs) (hblank : ∀ c ∈ cs, isBlank c) : ls = [] := by
  induction h with
  | nil => rfl
  | space _ _ ih => exact ih (List.forall_mem_cons.mp hblank).2
  | @lexeme l cs ls hself hloud _ _ _ =>
    obtain ⟨c, rest, hraw, hc⟩ := first_of_lexeme hself hloud cs
    exact absurd (hblank c (by simp [hraw])) hc

theorem of_append_blank {gap : List Char} (hgap : ∀ c ∈ gap, isBlank c)
    (h : Laid ls (cs ++ gap)) : Laid ls cs := by
  generalize htext : cs ++ gap = text at h
  induction h generalizing cs with
  | nil =>
    rw [(List.append_eq_nil_iff.mp htext).1]
    exact .nil
  | @space c text ls hc h ih =>
    cases cs with
    | nil =>
      rw [List.nil_append] at htext
      rw [h.eq_nil_of_blank fun d hd => hgap d (by simp [htext, hd])]
      exact .nil
    | cons d cs =>
      obtain ⟨rfl, hmore⟩ := List.cons_eq_cons.mp htext
      exact .space hc (ih hmore)
  | @lexeme l text ls hself hloud hends _ ih =>
    rcases List.append_eq_append_iff.mp htext with ⟨extra, hraw, hgap'⟩ | ⟨cs, rfl, rfl⟩
    · -- the lexeme would end in white space
      cases hlast : extra.getLast? with
      | none =>
        rw [List.getLast?_eq_none_iff.mp hlast, List.append_nil] at hraw
        rw [List.getLast?_eq_none_iff.mp hlast, List.nil_append] at hgap'
        have := @ih [] (by rw [List.nil_append, hgap'])
        rw [← hraw, ← List.append_nil l.raw]
        exact .lexeme hself hloud l.ends_none this
      | some c =>
        have hc := hgap c (by simp [hgap', List.mem_of_getLast? hlast])
        have hraw_last : l.raw.getLast? = some c := by rw [hraw, List.getLast?_append, hlast]; rfl
        exact absurd hc ((shape_of_lexeme? hself).last_of_not_silent hloud c hraw_last).1
    · refine .lexeme hself hloud ?_ (ih rfl)
      cases cs with
      | nil => exact l.ends_none
      | cons c cs => exact hends

/-- White space at both ends of a text can be taken off. -/
theorem trim (h : Laid ls cs) : Laid ls (Text.trim cs) := by
  have hsplit := List.rdropWhile_append_rtakeWhile (p := isBlank) (l := Text.trimStart cs)
  have hblank : ∀ c ∈ (Text.trimStart cs).rtakeWhile isBlank, isBlank c :=
    fun c hc => List.mem_rtakeWhile_imp hc
  refine of_append_blank hblank ?_
  rw [Text.trim, Text.trimEnd, ← List.rdropWhile, hsplit]
  exact h.trimStart

/-- The first character of a squeezed text is that of the text, or a space. -/
private theorem head_collapse (cs : List Char) :
    ∀ c ∈ (Source.collapse cs).head?, c = ' ' ∨ c ∈ cs.head? := by
  cases cs with
  | nil => intro c hc; cases hc
  | cons d cs =>
    intro c hc
    rw [collapse_cons] at hc
    split at hc
    · cases hc
      exact .inl rfl
    · cases hc
      exact .inr rfl

/-- Squeezing white space keeps what is laid out, if it squeezes nothing inside the lexemes. -/
theorem collapse (h : Laid ls cs) (hkept : ∀ l ∈ ls, Source.collapse l.raw = l.raw) :
    Laid ls (Source.collapse cs) := by
  induction h with
  | nil => exact .nil
  | @space c cs ls hc _ ih =>
    have ih := ih hkept
    by_cases hsqueezed : isSqueezed c
    · rcases collapse_cons_of_isSqueezed hsqueezed cs with heq | heq <;> rw [heq]
      · exact ih
      · exact .space rfl ih
    · rw [collapse_cons, if_neg hsqueezed]
      exact .space hc ih
  | @lexeme l cs ls hself hloud hends _ ih =>
    obtain ⟨hl, hls⟩ := List.forall_mem_cons.mp hkept
    have hborder : ∀ c ∈ l.raw.getLast?, ¬ isSqueezed c := fun c hc hsqueezed =>
      ((shape_of_lexeme? hself).last_of_not_silent hloud c hc).1 (isBlank_of_isSqueezed hsqueezed)
    rw [collapse_append (.inl hborder), hl]
    refine .lexeme hself hloud (fun c hc => ?_) (ih hls)
    rcases head_collapse cs c hc with rfl | hc
    · have hspace : l.Ends (some ' ') := ends_of_isSpacing hloud (by rintro d ⟨⟩; rfl)
      exact hspace ' ' rfl
    · exact hends c hc

end Laid
end SurveyForms.Source
