import SurveyForms.Proofs.TextPlaces

/-! Tokens tile the line. At each place of a line one rule for tokens matches at most, and lexing
takes its longest match. Main result: what lexing takes stands end to end, no other row of tokens
gets further, and columns count the characters in front; so a line that cannot be read is reported
at one of its columns, or right behind it. -/
namespace SurveyForms

open Source Text

namespace Source

/-- A rule for tokens matches at the start of a text, with this class and spelling. -/
def Lexeme.Matches (l : Lexeme) (cs : List Char) : Prop := l.Shape ∧ l.raw <+: cs

/-- The token that the rules give at the start of a text: no rule of another class matches there,
and none matches more. -/
structure Lexeme.Leads (l : Lexeme) (cs : List Char) : Prop where
  isMatch : l.Matches cs
  most : ∀ k : Lexeme, k.Matches cs → k.cls = l.cls ∧ k.raw <+: l.raw

private theorem ne_of_holds {p : Char → Bool} {c d : Char} (hc : p c) (hd : p d = false) :
    c ≠ d := by
  rintro rfl
  rw [hc] at hd
  cases hd

private theorem lexeme?_digit {c : Char} (h : c.isDigit) (rest : List Char) :
    lexeme? (c :: rest) = some ⟨.number, c :: rest.takeWhile Char.isDigit⟩ := by
  have hquote : ¬ (c = '"' ∨ c = '\'') := not_or.mpr ⟨ne_of_holds h rfl, ne_of_holds h rfl⟩
  rw [lexeme?, if_neg (ne_of_holds h rfl), if_neg (ne_of_holds h rfl), if_neg hquote, if_pos h]

private theorem lexeme?_identStart {c : Char} (h : isIdentStart c) (rest : List Char) :
    lexeme? (c :: rest) = some ⟨.ident, c :: rest.takeWhile isIdentRest⟩ := by
  have hquote : ¬ (c = '"' ∨ c = '\'') := not_or.mpr ⟨ne_of_holds h rfl, ne_of_holds h rfl⟩
  have hdigit : ¬ c.isDigit := by
    simp [isIdentStart, isAlpha_iff, Char.isDigit, UInt32.le_iff_toNat_le] at h ⊢
    omega
  rw [lexeme?, if_neg (ne_of_holds h rfl), if_neg (ne_of_holds h rfl), if_neg hquote,
    if_neg hdigit, if_pos h]

private theorem lexeme?_gap {c : Char} (h : isGap c) (rest : List Char) :
    lexeme? (c :: rest) = some ⟨.blank, c :: rest.takeWhile isGap⟩ := by
  simp only [isGap, Bool.or_eq_true, beq_iff_eq] at h
  rcases h with (rfl | rfl) | rfl <;> rfl

private theorem prefix_takeWhile {p : Char → Bool} {c : Char} {body : List Char}
    (h : ∀ d ∈ body, p d) (rest : List Char) :
    c :: body <+: c :: (body ++ rest).takeWhile p := by
  rw [List.takeWhile_append_of_pos h]
  exact List.prefix_append (c :: body) _

/-- Where a rule matches a token is taken, of the same class and no shorter. -/
theorem Lexeme.Matches.exists_lexeme? {k : Lexeme} {cs : List Char} (h : k.Matches cs) :
    ∃ l, lexeme? cs = some l ∧ l.cls = k.cls ∧ k.raw <+: l.raw := by
  obtain ⟨hshape, rest, rfl⟩ := h
  cases hshape with
  | @comment body hbody =>
    refine ⟨⟨.comment, '#' :: (body ++ rest).takeWhile (· ≠ '\n')⟩, rfl, rfl, ?_⟩
    exact prefix_takeWhile (fun d hd => decide_eq_true (ne_of_mem_of_not_mem hd hbody)) rest
  | @varRef body hbody =>
    have hbraced : braced? (body ++ rest) = some body :=
      braced?_eq_some_iff.mpr ⟨hbody, List.prefix_append body rest⟩
    refine ⟨⟨.varRef, '$' :: body⟩, ?_, rfl, List.prefix_refl _⟩
    show (braced? (body ++ rest)).map _ = _
    rw [hbraced]
    rfl
  | @text quote body hquote hbody =>
    have hclose : closeQuote? quote (body ++ quote :: rest) = some (body, rest) :=
      closeQuote?_eq_some_iff.mpr ⟨hbody, rfl⟩
    have hopen : lexeme? (quote :: (body ++ quote :: rest)) =
        (closeQuote? quote (body ++ quote :: rest)).map
          fun closed => ⟨.text, quote :: closed.1 ++ [quote]⟩ := by
      rcases hquote with rfl | rfl <;> rfl
    refine ⟨⟨.text, quote :: body ++ [quote]⟩, ?_, rfl, List.prefix_refl _⟩
    rw [show quote :: body ++ [quote] ++ rest = quote :: (body ++ quote :: rest) by simp, hopen,
      hclose]
    rfl
  | number hall =>
    obtain ⟨hc, hbody⟩ := List.forall_mem_cons.mp hall
    exact ⟨_, lexeme?_digit hc _, rfl, prefix_takeWhile hbody rest⟩
  | ident hstart hall =>
    obtain ⟨_, hbody⟩ := List.forall_mem_cons.mp hall
    exact ⟨_, lexeme?_identStart hstart _, rfl, prefix_takeWhile hbody rest⟩
  | punct hc =>
    refine ⟨_, ?_, rfl, List.prefix_refl _⟩
    rcases hc with rfl | rfl | rfl <;> rfl
  | blank hall =>
    obtain ⟨hc, hbody⟩ := List.forall_mem_cons.mp hall
    exact ⟨_, lexeme?_gap hc _, rfl, prefix_takeWhile hbody rest⟩
  | @pair c hc =>
    refine ⟨⟨.operator, [c, '=']⟩, ?_, rfl, List.prefix_refl _⟩
    rcases hc with rfl | rfl | rfl <;> rfl
  | @sign c hc =>
    have hsign : operator? ([c] ++ rest) = some [c] ∨ operator? ([c] ++ rest) = some [c, '='] := by
      rw [List.singleton_append, operator?_cons, if_pos hc]
      split
      · exact .inr rfl
      · exact .inl rfl
    have hlexeme : lexeme? ([c] ++ rest) = (operator? ([c] ++ rest)).map (⟨.operator, ·⟩) := by
      rcases hc with rfl | rfl | rfl <;> rfl
    rcases hsign with hone | htwo
    · exact ⟨⟨.operator, [c]⟩, by rw [hlexeme, hone]; rfl, rfl, List.prefix_refl _⟩
    · exact ⟨⟨.operator, [c, '=']⟩, by rw [hlexeme, htwo]; rfl, rfl, ⟨['='], rfl⟩⟩

/-- Lexing takes what the rules give. -/
theorem lexeme?_eq_some_iff_leads {cs : List Char} {l : Lexeme} :
    lexeme? cs = some l ↔ l.Leads cs := by
  constructor
  · intro h
    refine ⟨⟨shape_of_lexeme? h, raw_prefix_of_lexeme? h⟩, fun k hk => ?_⟩
    obtain ⟨l', hl', hcls, hraw⟩ := hk.exists_lexeme?
    cases hl'.symm.trans h
    exact ⟨hcls.symm, hraw⟩
  · intro h
    obtain ⟨l', hl', hcls, hraw⟩ := h.isMatch.exists_lexeme?
    -- what is taken is matched as well, so neither is longer
    have hback := (h.most l' ⟨shape_of_lexeme? hl', raw_prefix_of_lexeme? hl'⟩).2
    have hsame : l'.raw = l.raw := hback.eq_of_length_le hraw.length_le
    rw [hl']
    cases l
    cases l'
    cases hcls
    cases hsame
    rfl

/-- Lexing is stuck where no rule matches. -/
theorem lexeme?_eq_none_iff {cs : List Char} :
    lexeme? cs = none ↔ ∀ k : Lexeme, ¬ k.Matches cs := by
  refine ⟨fun h k hk => ?_, fun h => Option.eq_none_iff_forall_ne_some.mpr fun l hl => ?_⟩
  · obtain ⟨l, hl, _⟩ := hk.exists_lexeme?
    rw [h] at hl
    cases hl
  · exact h l (lexeme?_eq_some_iff_leads.mp hl).isMatch

theorem Lexeme.Shape.raw_ne_nil {l : Lexeme} (h : l.Shape) : l.raw ≠ [] := by
  cases h <;> simp

/-- A rule matches the whole of what it spells. -/
theorem Lexeme.Shape.self {k : Lexeme} (h : k.Shape) : lexeme? k.raw = some k := by
  refine lexeme?_eq_some_iff_leads.mpr ⟨⟨h, List.prefix_refl _⟩, fun k' hk' => ?_⟩
  obtain ⟨l, hl, hcls, _⟩ := Lexeme.Matches.exists_lexeme? ⟨h, List.prefix_refl k.raw⟩
  have hmost := (lexeme?_eq_some_iff_leads.mp hl).most k' hk'
  exact ⟨hmost.1.trans hcls, hk'.2⟩

/-! Rows of tokens, and how far they get. -/

/-- A row of tokens that ends inside a stretch of text, or has an end where the stretch has one. -/
def Respects (ks : List Lexeme) (stretch : List Char) : Prop :=
  raws ks <+: stretch ∨ ∃ a b, ks = a ++ b ∧ raws a = stretch

theorem raws_cons (k : Lexeme) (ks : List Lexeme) : raws (k :: ks) = k.raw ++ raws ks :=
  List.flatMap_cons

theorem respects_nil (ks : List Lexeme) : Respects ks [] := .inr ⟨[], ks, rfl, rfl⟩

theorem Respects.cons {ks : List Lexeme} {stretch : List Char} (h : Respects ks stretch)
    (k : Lexeme) : Respects (k :: ks) (k.raw ++ stretch) := by
  rcases h with hprefix | ⟨a, b, rfl, ha⟩
  · exact .inl (raws_cons k ks ▸ (List.prefix_append_right_inj _).mpr hprefix)
  · exact .inr ⟨k :: a, b, rfl, by rw [raws_cons, ha]⟩

theorem respects_first (k : Lexeme) (ks : List Lexeme) : Respects (k :: ks) k.raw :=
  .inr ⟨[k], ks, rfl, List.flatMap_singleton _ _⟩

section Rows
variable {l k : Lexeme} {ks : List Lexeme} {rest : List Char}

/-- The first token of a row is matched where the row begins. -/
private theorem matches_first (hk : k.Shape) {cs : List Char} (hrow : raws (k :: ks) <+: cs) :
    k.Matches cs :=
  ⟨hk, (raws_cons k ks ▸ List.prefix_append k.raw (raws ks)).trans hrow⟩

private theorem row_behind {more : List Char} (hrow : raws (k :: ks) <+: k.raw ++ more) :
    raws ks <+: more := by
  rwa [raws_cons, List.prefix_append_right_inj] at hrow

/-- Tokens that begin in a run of characters end in it, if none that begins with such a character
has another one in it. -/
private theorem respects_run {p : Char → Bool}
    (hstay : ∀ k : Lexeme, k.Shape → (∀ c ∈ k.raw.head?, p c) → ∀ c ∈ k.raw, p c)
    {run : List Char} (hrun : ∀ c ∈ run, p c) (hrest : ∀ c ∈ rest.head?, ¬ p c)
    (hks : ∀ k ∈ ks, k.Shape) (hrow : raws ks <+: run ++ rest) : Respects ks run := by
  induction ks generalizing run with
  | nil => exact .inl List.nil_prefix
  | cons k ks ih =>
    obtain ⟨hk, hks⟩ := List.forall_mem_cons.mp hks
    cases run with
    | nil => exact respects_nil _
    | cons c run =>
      obtain ⟨_, more, hmore⟩ := matches_first hk hrow
      have hall : ∀ d ∈ k.raw, p d := by
        refine hstay k hk fun d hd => ?_
        obtain ⟨body, hbody⟩ := List.head?_eq_some_iff.mp hd
        rw [hbody] at hmore
        exact (List.cons.inj hmore).1 ▸ hrun c List.mem_cons_self
      -- as many such characters as the text has are the run
      have hend : rest.takeWhile p = [] := by
        cases rest with
        | nil => rfl
        | cons d rest => exact List.takeWhile_cons_of_neg (hrest d rfl)
      have htake := congrArg (List.takeWhile p) hmore
      rw [List.takeWhile_append_of_pos hall, List.takeWhile_append_of_pos hrun, hend,
        List.append_nil] at htake
      rw [← htake] at hrun hrow ⊢
      rw [List.append_assoc] at hrow
      exact (ih (fun d hd => hrun d (List.mem_append_right _ hd)) hks (row_behind hrow)).cons k

/-- Characters that lexing takes together stay together in each token they begin. -/
private theorem stays_of_lexeme? {p : Char → Bool} {cls : TokenClass}
    (hl : ∀ c body, p c → lexeme? (c :: body) = some ⟨cls, c :: body.takeWhile p⟩)
    (hk : k.Shape) (hfirst : ∀ c ∈ k.raw.head?, p c) : ∀ c ∈ k.raw, p c := by
  obtain ⟨c, body, hraw⟩ := List.exists_cons_of_ne_nil hk.raw_ne_nil
  have hc : p c := hfirst c (by rw [hraw]; rfl)
  have hself := hk.self
  rw [hraw, hl c body hc] at hself
  cases hself
  exact List.forall_mem_cons.mpr ⟨hc, fun d hd => List.mem_takeWhile_imp hd⟩

private theorem digits_stay (hk : k.Shape) (hfirst : ∀ c ∈ k.raw.head?, c.isDigit) :
    ∀ c ∈ k.raw, c.isDigit :=
  stays_of_lexeme? (fun _ body hc => lexeme?_digit hc body) hk hfirst

private theorem gaps_stay (hk : k.Shape) (hfirst : ∀ c ∈ k.raw.head?, isGap c) :
    ∀ c ∈ k.raw, isGap c :=
  stays_of_lexeme? (fun _ body hc => lexeme?_gap hc body) hk hfirst

/-- Inside a name a token can be part of the name or a number; none begins with an underscore. -/
private theorem names_stay (hk : k.Shape) (hfirst : ∀ c ∈ k.raw.head?, isIdentRest c) :
    ∀ c ∈ k.raw, isIdentRest c := by
  obtain ⟨c, body, hraw⟩ := List.exists_cons_of_ne_nil hk.raw_ne_nil
  have hself := hk.self
  have hc : isIdentRest c := hfirst c (by rw [hraw]; rfl)
  have hcases : (isIdentStart c ∨ c.isDigit) ∨ c = '_' := by
    simpa only [isIdentRest, isIdentStart, Char.isAlphanum, Bool.or_eq_true, beq_iff_eq] using hc
  rcases hcases with (hstart | hdigit) | rfl
  · rw [hraw, lexeme?_identStart hstart body] at hself
    cases hself
    exact List.forall_mem_cons.mpr ⟨hc, fun d hd => List.mem_takeWhile_imp hd⟩
  · intro d hd
    have hdigits := digits_stay hk (fun e he => by rw [hraw] at he; cases he; exact hdigit) d hd
    simp [isIdentRest, Char.isAlphanum, hdigits]
  · rw [hraw] at hself
    cases hself

/-- A token with no freedom in its length is the first of each row. -/
private theorem respects_closed (hl : lexeme? (l.raw ++ rest) = some l)
    (hclosed : ∀ k : Lexeme, k.cls = l.cls → ∀ next, k.Ends next) (hks : ∀ k ∈ ks, k.Shape)
    (hrow : raws ks <+: l.raw ++ rest) : Respects ks l.raw := by
  cases ks with
  | nil => exact .inl List.nil_prefix
  | cons k ks =>
    have hmatch := matches_first (hks k List.mem_cons_self) hrow
    have hcls := ((lexeme?_eq_some_iff_leads.mp hl).most k hmatch).1
    obtain ⟨more, hmore⟩ := hmatch.2
    have hk := lexeme?_append_iff.mpr ⟨hmatch.1.self, hclosed k hcls more.head?⟩
    rw [hmore, hl] at hk
    cases hk
    exact respects_first l ks

/-- A token of one character is the first of each row. -/
private theorem respects_single {cls : TokenClass} {c : Char}
    (hl : lexeme? (c :: rest) = some ⟨cls, [c]⟩) (hks : ∀ k ∈ ks, k.Shape)
    (hrow : raws ks <+: c :: rest) : Respects ks [c] := by
  cases ks with
  | nil => exact .inl List.nil_prefix
  | cons k ks =>
    have hmatch := matches_first (hks k List.mem_cons_self) hrow
    have hraw : k.raw <+: [c] := ((lexeme?_eq_some_iff_leads.mp hl).most k hmatch).2
    have hone : k.raw = [c] := by
      obtain ⟨d, body, hbody⟩ := List.exists_cons_of_ne_nil hmatch.1.raw_ne_nil
      rw [hbody, List.cons_prefix_cons, List.prefix_nil] at hraw
      rw [hbody, hraw.1, hraw.2]
    exact hone ▸ respects_first k ks

/-- No row of tokens on a line goes over the end of the token that lexing takes there. -/
theorem respects_of_lexeme? (hl : lexeme? (l.raw ++ rest) = some l) (hbreak : '\n' ∉ rest)
    (hks : ∀ k ∈ ks, k.Shape) (hrow : raws ks <+: l.raw ++ rest) : Respects ks l.raw := by
  have hends := (lexeme?_append_iff.mp hl).2
  cases shape_of_lexeme? hl with
  | comment =>
    -- a comment goes to the end of the line
    cases rest with
    | nil => exact .inl (by simpa using hrow)
    | cons c rest =>
      obtain rfl : c = '\n' := hends c rfl
      exact absurd List.mem_cons_self hbreak
  | varRef | text =>
    refine respects_closed hl (fun k hcls next => ?_) hks hrow
    intro c _
    rw [hcls]
    trivial
  | number hall => exact respects_run (fun _ => digits_stay) hall hends hks hrow
  | ident _ hall => exact respects_run (fun _ => names_stay) hall hends hks hrow
  | blank hall => exact respects_run (fun _ => gaps_stay) hall hends hks hrow
  | punct | sign => exact respects_single hl hks hrow
  | @pair c hc =>
    cases ks with
    | nil => exact .inl List.nil_prefix
    | cons k ks =>
      obtain ⟨hk, hks⟩ := List.forall_mem_cons.mp hks
      have hraw : k.raw <+: [c, '='] :=
        ((lexeme?_eq_some_iff_leads.mp hl).most k (matches_first hk hrow)).2
      obtain ⟨d, body, hbody⟩ := List.exists_cons_of_ne_nil hk.raw_ne_nil
      rw [hbody, List.cons_prefix_cons] at hraw
      obtain ⟨rfl, hraw⟩ := hraw
      -- the sign in front of the equals sign may be a token of its own
      rcases List.prefix_cons_iff.mp hraw with rfl | ⟨tail, rfl, htail⟩
      · have hsplit : [d, '='] = k.raw ++ ['='] := by rw [hbody]; rfl
        have hsign : lexeme? ('=' :: rest) = some ⟨.operator, ['=']⟩ := rfl
        simp only [hsplit, List.append_assoc] at hrow ⊢
        exact (respects_single hsign hks (row_behind hrow)).cons k
      · obtain rfl := List.prefix_nil.mp htail
        exact hbody ▸ respects_first k ks

/-- No row of tokens on a line gets further than lexing does. -/
theorem Lexes.longest {line rest : List Char} {ls ks : List Lexeme} (h : Lexes line ls rest)
    (hbreak : '\n' ∉ line) (hks : ∀ k ∈ ks, k.Shape) (hrow : raws ks <+: line) :
    raws ks <+: raws ls := by
  induction h generalizing ks with
  | stuck hnone =>
    cases ks with
    | nil => exact List.nil_prefix
    | cons k ks =>
      have hmatch := matches_first (hks k List.mem_cons_self) hrow
      exact absurd hmatch (lexeme?_eq_none_iff.mp hnone k)
  | @next l cs rest ls hself hends _ ih =>
    have hbehind : '\n' ∉ cs := fun hc => hbreak (List.mem_append_right _ hc)
    rw [raws_cons]
    rcases respects_of_lexeme? (lexeme?_append_iff.mpr ⟨hself, hends⟩) hbehind hks hrow with
      hinside | ⟨a, b, rfl, ha⟩
    · exact hinside.trans (List.prefix_append _ _)
    · have hsplit : raws (a ++ b) = l.raw ++ raws b := by
        rw [← ha]
        exact List.flatMap_append
      rw [hsplit, List.prefix_append_right_inj] at hrow ⊢
      exact ih hbehind (fun k hk => hks k (List.mem_append_right _ hk)) hrow

end Rows

/-- A token for each lexeme that the grammar sees, with the characters in front of it counted. -/
theorem mem_tokensFrom_iff {col : Nat} {ls : List Lexeme} {t : Token} : t ∈ tokensFrom col ls ↔
    ∃ before l behind, ls = before ++ l :: behind ∧ ¬ l.Silent ∧
      t = ⟨l.cls, l.value, col + (raws before).length⟩ := by
  constructor
  · intro h
    induction ls generalizing col with
    | nil => cases h
    | cons l ls ih =>
      have hbehind (h : t ∈ tokensFrom (col + l.raw.length) ls) : ∃ before l' behind,
          l :: ls = before ++ l' :: behind ∧ ¬ l'.Silent ∧
            t = ⟨l'.cls, l'.value, col + (raws before).length⟩ := by
        obtain ⟨before, l', behind, rfl, hloud, rfl⟩ := ih h
        refine ⟨l :: before, l', behind, rfl, hloud, ?_⟩
        rw [raws_cons, List.length_append, Nat.add_assoc]
      unfold tokensFrom at h
      simp only at h
      split at h
      · exact hbehind h
      · next hloud =>
        rcases List.mem_cons.mp h with rfl | h
        · exact ⟨[], l, ls, rfl, hloud, rfl⟩
        · exact hbehind h
  · rintro ⟨before, l, behind, rfl, hloud, rfl⟩
    rw [tokensFrom_append]
    have hseen : ¬ (l.cls = .blank ∨ l.cls = .comment) := hloud
    rw [tokensFrom, if_neg hseen]
    exact List.mem_append_right _ List.mem_cons_self

/-- Tokens stand in the order of their columns. -/
theorem pairwise_col_tokensFrom {ls : List Lexeme} (h : ∀ l ∈ ls, l.raw ≠ []) (col : Nat) :
    (tokensFrom col ls).Pairwise fun s t => s.col < t.col := by
  induction ls generalizing col with
  | nil => exact .nil
  | cons l ls ih =>
    obtain ⟨hl, hls⟩ := List.forall_mem_cons.mp h
    have hlength := List.length_pos_iff.mpr hl
    unfold tokensFrom
    simp only
    split
    · exact ih hls _
    · refine .cons (fun t ht => ?_) (ih hls _)
      have hcol := (Grammar.col_of_mem_tokensFrom ht).1
      simp only
      omega

/-- Lexemes that lie end to end on a line, and what is left of the line behind them. -/
structure Tiling (line : List Char) (ls : List Lexeme) (rest : List Char) : Prop where
  covers : raws ls ++ rest = line
  nonempty : ∀ l ∈ ls, l.raw ≠ []
  /-- Each is what the rules give where it begins. -/
  leads : ∀ before l behind, ls = before ++ l :: behind → l.Leads (line.drop (raws before).length)
  /-- No row of tokens gets further, however its tokens are chosen. -/
  longest : ∀ ks : List Lexeme, (∀ k ∈ ks, k.Shape) → raws ks <+: line →
    (raws ks).length ≤ (raws ls).length
  /-- No rule matches where they end. -/
  stuck : ∀ k : Lexeme, ¬ k.Matches rest
  /-- The column of a token is one more than the characters in front of it. -/
  columns : ∀ t, t ∈ tokensFrom 1 ls ↔ ∃ before l behind, ls = before ++ l :: behind ∧ ¬ l.Silent ∧
    t = ⟨l.cls, l.value, 1 + (raws before).length⟩
  ordered : (tokensFrom 1 ls).Pairwise fun s t => s.col < t.col

theorem Lexes.tiling {line rest : List Char} {ls : List Lexeme} (h : Lexes line ls rest)
    (hbreak : '\n' ∉ line) : Tiling line ls rest := by
  have hnonempty (l : Lexeme) (hl : l ∈ ls) : l.raw ≠ [] :=
    raw_ne_nil_of_lexeme? (h.self_of_mem l hl)
  refine ⟨h.eq_raws_append.symm, hnonempty, ?_, fun ks hks hrow => ?_,
    lexeme?_eq_none_iff.mp h.rest_stuck, fun t => mem_tokensFrom_iff,
    pairwise_col_tokensFrom hnonempty 1⟩
  · rintro before l behind rfl
    obtain ⟨place, rfl, _, _, hplace⟩ := h.cut
    rw [List.drop_left]
    cases hplace with
    | next hself hends => exact lexeme?_eq_some_iff_leads.mp (lexeme?_append_iff.mpr ⟨hself, hends⟩)
  · exact (h.longest hbreak hks hrow).length_le

/-- Where a rule can stop in a row of tokens: at one that the grammar sees, or at the end token
behind the last character. -/
inductive StopsAt (ls : List Lexeme) : Option String → Nat → Prop
  | token {before behind : List Lexeme} {l : Lexeme} (hls : ls = before ++ l :: behind)
      (hloud : ¬ l.Silent) : StopsAt ls (some l.value) (1 + (raws before).length)
  | finish : StopsAt ls none (1 + (raws ls).length)

end Source

namespace Grammar

/-- A line that lexing reads to its end is refused at one of its tokens. -/
theorem parseLine_stopsAt {rule : Rule α} (h : Faithful rule.run) {line : List Char}
    {ls : List Lexeme} (hscan : scan line = (ls, [])) {col : Nat} {fault : Fault}
    (herror : parseLine rule line = .error (col, fault)) :
    ∃ found wanted, fault = .unexpected found wanted ∧ StopsAt ls found col := by
  have hline : line = raws ls := by
    have hlexes := lexes_scan line
    rw [hscan] at hlexes
    rw [hlexes.eq_raws_append, List.append_nil]
  rw [parseLine, hscan] at herror
  simp only at herror
  cases hparse : rule.parse (tokensFrom 1 ls) with
  | ok a =>
    rw [hparse] at herror
    cases herror
  | error o =>
    rw [hparse] at herror
    cases herror
    refine ⟨_, _, rfl, ?_⟩
    cases hfound : o.found with
    | none =>
      rw [hline, Nat.add_comm]
      exact .finish
    | some t =>
      have ht := Rule.on_of_parse_error h hparse t hfound
      obtain ⟨before, l, behind, hls, hloud, rfl⟩ := mem_tokensFrom_iff.mp ht
      exact .token hls hloud

/-- A line that lexing does not read to its end is refused where lexing is stuck. -/
theorem parseLine_of_stuck (rule : Rule α) {line rest : List Char} {ls : List Lexeme}
    (hscan : scan line = (ls, rest)) (hrest : rest ≠ []) :
    parseLine rule line = .error (1 + (raws ls).length, .unreadable rest) := by
  have hline : line = raws ls ++ rest := by
    have hlexes := lexes_scan line
    rw [hscan] at hlexes
    exact hlexes.eq_raws_append
  have hcol : line.length - rest.length + 1 = 1 + (raws ls).length := by
    rw [hline, List.length_append]
    omega
  cases rest with
  | nil => exact absurd rfl hrest
  | cons c rest =>
    rw [parseLine, hscan]
    simp only [hcol]

end Grammar

/-- A place at a character of a line, or right behind the last one. A carriage return that ends the
line is not counted. -/
def Position.OnCharacters (src : String) (p : Position) : Prop :=
  ∃ line ∈ lineAt? src p.line, 1 ≤ p.col ∧ p.col ≤ 1 + (withoutReturn line).length

theorem located_onCharacters {file src : String} {l : Line} (hl : l ∈ Line.ofSource src)
    {rule : Grammar.Rule α} (h : Grammar.Faithful rule.run) :
    OnlyFails (·.pos.OnCharacters src) (located file l (Grammar.parseLine rule l.text)) := by
  obtain ⟨line, hline, _, _, htext⟩ := line_of_mem_ofSource hl
  cases hparse : Grammar.parseLine rule l.text with
  | ok a => exact .ok a
  | error e =>
    obtain ⟨hlow, hhigh⟩ := Grammar.parseLine_error_column h hparse
    rw [htext, Nat.add_comm] at hhigh
    exact .error ⟨line, hline, hlow, hhigh⟩

/-- Only a fault of indentation is not at a character of its line. -/
private theorem forest_onCharacters {reader : LineReader α β} {file src : String}
    (h : ∀ l ∈ Line.ofSource src, OnlyFails (·.pos.OnCharacters src) (reader.entry l)) :
    OnlyFails (fun d => d.fault.kind = .grammar → d.pos.OnCharacters src)
      (reader.forest file src) := by
  refine LineReader.onlyFails_block
    (P := fun d => d.fault.kind = .grammar → d.pos.OnCharacters src)
    (fun l hl d hd _ => h l hl d hd) (fun l _ fault hkind hgrammar => ?_) _
  cases hkind.symm.trans hgrammar

theorem Survey.ofText_onCharacters (file src : String) :
    OnlyFails (fun d => d.fault.kind = .grammar → d.pos.OnCharacters src)
      (Survey.ofText file src) := by
  refine forest_onCharacters fun l hl => ?_
  refine (located_onCharacters hl Grammar.faithful_surveyLine).bind fun line => ?_
  cases line <;> exact .ok _

theorem Choices.ofText_onCharacters (file src : String) :
    OnlyFails (fun d => d.fault.kind = .grammar → d.pos.OnCharacters src)
      (Choices.ofText file src) := by
  refine forest_onCharacters fun l hl => ?_
  refine (located_onCharacters hl Grammar.faithful_choicesLine).bind fun line => ?_
  cases line <;> exact .ok _

/-- Tokens tile each line. Read to its end, a line is refused only at one of its tokens or at the
end token; not read to its end, it is refused where the tokens end. So a syntax error of a text is
at a character of its line, or right behind the last. -/
theorem tokens_tile_lines :
    (∀ line : List Char, '\n' ∉ line → ∀ ls rest, scan line = (ls, rest) →
      Tiling line ls rest ∧
      (rest = [] → ∀ col fault,
        Grammar.parseLine Grammar.surveyLine line = .error (col, fault) ∨
          Grammar.parseLine Grammar.choicesLine line = .error (col, fault) →
        ∃ found wanted, fault = .unexpected found wanted ∧ StopsAt ls found col) ∧
      (rest ≠ [] → ∀ (α : Type) (rule : Grammar.Rule α),
        Grammar.parseLine rule line = .error (1 + (raws ls).length, .unreadable rest))) ∧
    ∀ file src d, Survey.ofText file src = .error d ∨ Choices.ofText file src = .error d →
      d.fault.kind = .grammar →
        ∃ line ∈ lineAt? src d.pos.line, 1 ≤ d.pos.col ∧
          d.pos.col ≤ 1 + (withoutReturn line).length := by
  refine ⟨fun line hbreak ls rest hscan => ⟨?_, ?_, ?_⟩, fun file src d h hkind => ?_⟩
  · have hlexes := lexes_scan line
    rw [hscan] at hlexes
    exact hlexes.tiling hbreak
  · rintro rfl col fault (h | h)
    · exact Grammar.parseLine_stopsAt Grammar.faithful_surveyLine hscan h
    · exact Grammar.parseLine_stopsAt Grammar.faithful_choicesLine hscan h
  · exact fun hrest α rule => Grammar.parseLine_of_stuck rule hscan hrest
  · rcases h with h | h
    · exact Survey.ofText_onCharacters file src d h hkind
    · exact Choices.ofText_onCharacters file src d h hkind

/-- An open quote behind a tab and a letter of two bytes, on a line that ends in a carriage return;
and a command that lacks its arguments, with a comment in their place. -/
theorem open_quote_tiled :
    let line := "\tq text: \"é\" \"x".toList
    let rest := "\"x".toList
    let ls : List Lexeme := [⟨.blank, ['\t']⟩, ⟨.ident, ['q']⟩, ⟨.blank, [' ']⟩,
      ⟨.ident, "text".toList⟩, ⟨.punct, [':']⟩, ⟨.blank, [' ']⟩, ⟨.text, "\"é\"".toList⟩,
      ⟨.blank, [' ']⟩]
    let bare := "@form # ü".toList
    let bareLs : List Lexeme := [⟨.punct, ['@']⟩, ⟨.ident, "form".toList⟩, ⟨.blank, [' ']⟩,
      ⟨.comment, "# ü".toList⟩]
    let src := "# ü\r\n\tq text: \"é\" \"x\r"
    let d : Diagnostic := ⟨⟨"f", 2, 14⟩, .unreadable rest⟩
    ('\n' ∉ line ∧ scan line = (ls, rest) ∧ Tiling line ls rest ∧
        Grammar.parseLine Grammar.surveyLine line = .error (14, .unreadable rest)) ∧
      ('\n' ∉ bare ∧ scan bare = (bareLs, []) ∧ StopsAt bareLs none 10) ∧
      Survey.ofText "f" src = .error d ∧
        ∃ l ∈ lineAt? src 2, 1 ≤ 14 ∧ 14 ≤ 1 + (withoutReturn l).length := by
  intro line rest ls bare bareLs src d
  have hbreak : '\n' ∉ line := by decide +kernel
  have hscan : scan line = (ls, rest) := by decide +kernel
  have hbareBreak : '\n' ∉ bare := by decide +kernel
  have hbareScan : scan bare = (bareLs, []) := by decide +kernel
  have hrefused : Grammar.parseLine Grammar.surveyLine bare = .error (10, .unexpected none
      (some "(<ident> | <number> | <string>)+")) := by decide +kernel
  have hd : Survey.ofText "f" src = .error d := by decide +kernel
  obtain ⟨hlines, hplace⟩ := tokens_tile_lines
  obtain ⟨htiling, _, hstuck⟩ := hlines line hbreak ls rest hscan
  obtain ⟨_, hstops, _⟩ := hlines bare hbareBreak bareLs [] hbareScan
  obtain ⟨_, _, hfault, hstop⟩ := hstops rfl _ _ (.inl hrefused)
  cases hfault
  exact ⟨⟨hbreak, hscan, htiling, hstuck (by decide) _ Grammar.surveyLine⟩,
    ⟨hbareBreak, hbareScan, hstop⟩, hd, hplace "f" src d (.inl hd) rfl⟩

end SurveyForms
