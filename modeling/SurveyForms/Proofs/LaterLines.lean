import SurveyForms.Proofs.FaultPlaces
import SurveyForms.Proofs.WholeLineComments

/-! Faults and the lines below them. Main statement: a source that is refused at a line is refused
in the same way whatever stands below that line. Only a header without a body is refused for the
sake of a later line, the next statement. -/
namespace SurveyForms

open Source Text

def Fault.isMissingBody : Fault → Bool
  | .missingBody _ => true
  | _ => false

namespace LineReader

/-- The lines behind a place are alike for a fault: for that of a header without a body the first
of them stands at the same column. -/
def AlikeBelow (d : Diagnostic) (below below' : List Line) : Prop :=
  d.fault.isMissingBody → below'.head?.map (·.col) = below.head?.map (·.col)

/-- Statements are refused at one of them, whatever statements stand below it. -/
def RefusedAt (refuses : List Line → Prop) (ls : List Line) (d : Diagnostic) : Prop :=
  ∃ above l below, ls = above ++ l :: below ∧ d.pos.line = l.number ∧
    ∀ below', (∀ k ∈ below', k.isComment = false) → AlikeBelow d below below' →
      refuses (above ++ l :: below')

private theorem inBody_of_statement {l : Line} (h : l.isComment = false) (col : Nat) :
    inBody col l = decide (col < l.col) := by
  rw [inBody, h, Bool.false_or]

private theorem AlikeBelow.takeWhile {d : Diagnostic} {below below' : List Line}
    (h : AlikeBelow d below below') (hbelow : ∀ k ∈ below, k.isComment = false)
    (hbelow' : ∀ k ∈ below', k.isComment = false) (col : Nat) :
    AlikeBelow d (below.takeWhile (inBody col)) (below'.takeWhile (inBody col)) := by
  intro hmissing
  have hcol := h hmissing
  cases below with
  | nil =>
    obtain rfl : below' = [] := by simpa using hcol
    rfl
  | cons k below =>
    cases below' with
    | nil => cases hcol
    | cons k' below' =>
      have hk : k'.col = k.col := by simpa using hcol
      have hbody := inBody_of_statement (hbelow k List.mem_cons_self) col
      have hbody' := inBody_of_statement (hbelow' k' List.mem_cons_self) col
      rw [List.takeWhile_cons, List.takeWhile_cons, hbody, hbody', hk]
      split <;> simp [hk]

private theorem exists_of_takeWhile {p : Line → Bool} {ls above below : List Line} {k : Line}
    (h : ls.takeWhile p = above ++ k :: below) :
    ∃ rest, ls = above ++ k :: rest ∧ rest.takeWhile p = below ∧
      ∀ tail, (above ++ k :: tail).takeWhile p = above ++ k :: tail.takeWhile p := by
  have hpass : ∀ m ∈ above ++ [k], p m := by
    intro m hm
    refine List.mem_takeWhile_imp (l := ls) ?_
    rw [h, List.append_cons]
    exact List.mem_append_left below hm
  have htake (tail : List Line) :
      (above ++ k :: tail).takeWhile p = above ++ k :: tail.takeWhile p := by
    rw [List.append_cons, List.takeWhile_append_of_pos hpass, ← List.append_cons]
  have hls : above ++ k :: (below ++ ls.dropWhile p) = ls := by
    rw [← List.cons_append, ← List.append_assoc, ← h, List.takeWhile_append_dropWhile]
  refine ⟨_, hls.symm, ?_, htake⟩
  rw [← hls, htake] at h
  exact (List.cons_eq_cons.mp (List.append_cancel_left h)).2

private theorem exists_of_dropWhile {p : Line → Bool} {ls above below : List Line} {k : Line}
    (h : ls.dropWhile p = above ++ k :: below) :
    ls = (ls.takeWhile p ++ above) ++ k :: below ∧
      ∀ tail, ((ls.takeWhile p ++ above) ++ k :: tail).takeWhile p = ls.takeWhile p ∧
        ((ls.takeWhile p ++ above) ++ k :: tail).dropWhile p = above ++ k :: tail := by
  refine ⟨?_, fun tail => ?_⟩
  · rw [List.append_assoc, ← h, List.takeWhile_append_dropWhile]
  have hpass : ∀ m ∈ ls.takeWhile p, p m := fun m => List.mem_takeWhile_imp
  have hfirst := List.head?_dropWhile_not p ls
  rw [h] at hfirst
  rw [List.append_assoc, List.takeWhile_append_of_pos hpass, List.dropWhile_append_of_pos hpass]
  cases above <;> simp_all

private theorem firstColumn_append {above : List Line} {l : Line} (hl : l.isComment = false)
    (below : List Line) : firstColumn (above ++ l :: below) = firstColumn (above ++ [l]) := by
  simp [firstColumn, List.find?_append, hl]

/-- What holds of lines holds of those of a body, and of those behind it. -/
private theorem forall_mem_span {P : Line → Prop} {ls : List Line} (h : ∀ l ∈ ls, P l)
    (p : Line → Bool) : (∀ l ∈ ls.takeWhile p, P l) ∧ ∀ l ∈ ls.dropWhile p, P l :=
  ⟨fun l hl => h l (List.takeWhile_subset _ hl),
    fun l hl => h l ((List.dropWhile_suffix p).subset hl)⟩

/-- The body of a header is empty if it has no statement and its lines are no comments. -/
private theorem Shows.eq_nil_of_no_statement {reader : LineReader α β} {leaf : α → Option γ}
    {header : β → γ} {line : Line → Option γ} (h : reader.Shows leaf header line) {col : Nat}
    {ls : List Line} {body : Forest α β} (hls : ∀ l ∈ ls, l.isComment = false)
    (hbody : reader.Reads col ls body)
    (hnone : body.anyStatement (!reader.isComment ·) = false) : ls = [] := by
  have hno : body.inOrder leaf header = [] := by
    by_contra hne
    rw [(h.anyStatement_iff body).mpr hne] at hnone
    cases hnone
  have hshown := h.inOrder_of_reads hbody
  rw [hno, List.filter_eq_self.mpr (by simpa using hls)] at hshown
  simpa using hshown.symm

/-- A block of statements is refused at one of them, whatever statements stand below it. -/
theorem Shows.refusedAt {reader : LineReader α β} {leaf : α → Option γ} {header : β → γ}
    {line : Line → Option γ} (h : reader.Shows leaf header line)
    (hentry : ∀ l, OnlyFails (·.pos.line = l.number) (reader.entry l)) {file : String} {col : Nat}
    {ls : List Line} {d : Diagnostic} (hls : ∀ l ∈ ls, l.isComment = false)
    (hd : reader.Refuses file d col ls) : RefusedAt (reader.Refuses file d col) ls d := by
  -- A fault inside a body or behind it is found again there by induction, and the lines that belong
  -- to the body are the same as long as the place of the fault is.
  induction hd with
  | comment hl _ _ => cases hl.symm.trans (hls _ List.mem_cons_self)
  | unindent hl hcol hd =>
    exact ⟨[], _, _, rfl, by rw [hd]; rfl, fun _ _ _ => .unindent hl hcol hd⟩
  | indent hl hcol hd =>
    exact ⟨[], _, _, rfl, by rw [hd]; rfl, fun _ _ _ => .indent hl hcol hd⟩
  | entry hl he => exact ⟨[], _, _, rfl, hentry _ d he, fun _ _ _ => .entry hl he⟩
  | leaf hl he _ ih =>
    obtain ⟨above, k, below, rfl, hk, hrun⟩ := ih (List.forall_mem_cons.mp hls).2
    refine ⟨_ :: above, k, below, rfl, hk, fun below' hbelow' halike => ?_⟩
    exact .leaf hl he (hrun below' hbelow' halike)
  | @inside l ls _ _ _ hl he _ ih =>
    have hls := (List.forall_mem_cons.mp hls).2
    obtain ⟨above, k, below, hcut, hk, hrun⟩ := ih (forall_mem_span hls _).1
    obtain ⟨rest, rfl, rfl, htake⟩ := exists_of_takeWhile hcut
    have hkc : k.isComment = false := hls k (by simp)
    refine ⟨l :: above, k, rest, rfl, hk, fun below' hbelow' halike => ?_⟩
    have hagain := hrun (below'.takeWhile (inBody l.col)) (forall_mem_span hbelow' _).1
      (halike.takeWhile (fun m hm => hls m (by simp [hm])) hbelow' l.col)
    rw [hcut, firstColumn_append hkc] at hagain
    rw [List.cons_append]
    refine .inside hl he ?_
    rwa [htake, firstColumn_append hkc]
  | @after l ls _ _ _ _ hl he hbody hmeans _ ih =>
    obtain ⟨above, k, below, hcut, hk, hrun⟩ :=
      ih (forall_mem_span (List.forall_mem_cons.mp hls).2 _).2
    obtain ⟨heq, hspan⟩ := exists_of_dropWhile hcut
    refine ⟨l :: (ls.takeWhile (inBody l.col) ++ above), k, below, congrArg _ heq, hk,
      fun below' hbelow' halike => ?_⟩
    obtain ⟨htake, hdrop⟩ := hspan below'
    rw [List.cons_append]
    refine .after hl he (by rwa [htake]) hmeans ?_
    rw [hdrop]
    exact hrun below' hbelow' halike
  | @missing l ls _ _ _ hl he hbody hnone hd =>
    have hls := (List.forall_mem_cons.mp hls).2
    have hinner := h.eq_nil_of_no_statement (forall_mem_span hls _).1 hbody hnone
    refine ⟨[], l, ls, rfl, by rw [hd]; rfl, fun below' hbelow' halike => ?_⟩
    have hinner' : below'.takeWhile (inBody l.col) = [] := by
      have hcols := halike.takeWhile hls hbelow' l.col (by rw [hd]; rfl)
      rw [hinner] at hcols
      simpa using hcols
    have hempty : reader.Reads (firstColumn (below'.takeWhile (inBody l.col)))
        (below'.takeWhile (inBody l.col)) .nil := by
      rw [hinner']
      exact .nil
    exact .missing hl he hempty rfl hd

end LineReader

/-- Two texts have the same lines up to a number. -/
def SameThrough (n : Nat) (src src' : String) : Prop :=
  (lines src.toList).take n = (lines src'.toList).take n

instance (n : Nat) (src src' : String) : Decidable (SameThrough n src src') :=
  inferInstanceAs (Decidable (_ = _))

/-- The number of the first line behind line `n` that is neither blank nor a comment. -/
def nextStatement? (src : String) (n : Nat) : Option Nat :=
  ((statementLines src).find? (n < ·.2)).map (·.2)

/-- Two texts have the same lines as far as a fault of the first is concerned: up to the line of
the fault, and if that is a header without a body up to the next statement. Where no statement
follows such a header, none follows it in the other text. -/
structure Diagnostic.DecidedAlike (d : Diagnostic) (src src' : String) : Prop where
  line : SameThrough d.pos.line src src'
  next : d.fault.isMissingBody → ∀ n ∈ nextStatement? src d.pos.line, SameThrough n src src'
  last : d.fault.isMissingBody → nextStatement? src d.pos.line = none →
    nextStatement? src' d.pos.line = none

private theorem filter_zipIdx (raws : List (List Char)) (start n : Nat) :
    (raws.zipIdx start).filter (·.2 < start + n) = (raws.take n).zipIdx start := by
  induction raws generalizing start n with
  | nil => simp
  | cons raw raws ih =>
    cases n with
    | zero =>
      rw [List.take_zero, List.zipIdx_nil, List.filter_eq_nil_iff]
      intro l hl
      have := List.le_snd_of_mem_zipIdx hl
      simpa using this
    | succ n =>
      have hrest := ih (start + 1) n
      rw [Nat.add_right_comm, Nat.add_assoc] at hrest
      rw [List.zipIdx_cons, List.take_succ_cons, List.zipIdx_cons,
        List.filter_cons_of_pos (by simp), hrest]

theorem pairwise_statementLines (src : String) :
    (statementLines src).Pairwise (·.2 < ·.2) := by
  refine List.Pairwise.filter _ ?_
  rw [← List.pairwise_map (f := Prod.snd) (R := (· < ·)), List.zipIdx_map_snd]
  exact List.pairwise_lt_range'

/-- Texts with the same lines up to a number have the same statements there. -/
theorem SameThrough.filter_eq {n : Nat} {src src' : String} (h : SameThrough n src src') :
    (statementLines src).filter (·.2 ≤ n) = (statementLines src').filter (·.2 ≤ n) := by
  have hlines (src : String) : (statementLines src).filter (·.2 ≤ n) =
      (((lines src.toList).take n).zipIdx 1).filter (isStatement ·.1) := by
    rw [statementLines, List.filter_comm, ← filter_zipIdx]
    simp only [Nat.add_comm 1 n, Nat.lt_succ_iff]
  rw [hlines, hlines, h]

private theorem filter_append_filter {ls : List (List Char × Nat)} (h : ls.Pairwise (·.2 < ·.2))
    (n : Nat) : ls.filter (·.2 ≤ n) ++ ls.filter (n < ·.2) = ls := by
  induction ls with
  | nil => rfl
  | cons l ls ih =>
    obtain ⟨hl, hls⟩ := List.pairwise_cons.mp h
    by_cases hle : l.2 ≤ n
    · rw [List.filter_cons_of_pos (by simpa using hle),
        List.filter_cons_of_neg (by simpa using hle), List.cons_append, ih hls]
    · have hbelow : ls.filter (·.2 ≤ n) = [] := by
        rw [List.filter_eq_nil_iff]
        intro k hk
        have := hl k hk
        simp only [decide_eq_true_eq]
        omega
      have hrest := ih hls
      rw [hbelow, List.nil_append] at hrest
      rw [List.filter_cons_of_neg (by simpa using hle), hbelow,
        List.filter_cons_of_pos (by simpa using hle), hrest]
      rfl

private theorem filter_of_cut {before behind : List (List Char × Nat)} {l : List Char × Nat}
    (h : (before ++ l :: behind).Pairwise (·.2 < ·.2)) :
    (before ++ l :: behind).filter (·.2 ≤ l.2) = before ++ [l] ∧
      (before ++ l :: behind).filter (l.2 < ·.2) = behind := by
  obtain ⟨-, hbehind, hbefore⟩ := List.pairwise_append.mp h
  obtain ⟨hbehind, -⟩ := List.pairwise_cons.mp hbehind
  have hbefore : ∀ k ∈ before, k.2 < l.2 := fun k hk => hbefore k hk l List.mem_cons_self
  have hkept : before.filter (·.2 ≤ l.2) = before :=
    List.filter_eq_self.mpr fun k hk => by simpa using Nat.le_of_lt (hbefore k hk)
  have hleft : before.filter (l.2 < ·.2) = [] :=
    List.filter_eq_nil_iff.mpr fun k hk => by simpa using Nat.le_of_lt (hbefore k hk)
  have hkept' : behind.filter (l.2 < ·.2) = behind :=
    List.filter_eq_self.mpr fun k hk => by simpa using hbehind k hk
  have hleft' : behind.filter (·.2 ≤ l.2) = [] :=
    List.filter_eq_nil_iff.mpr fun k hk => by simpa using hbehind k hk
  simp [List.filter_append, hkept, hleft, hkept', hleft']

/-- The statement that comes next is the same in both texts. -/
theorem Diagnostic.DecidedAlike.find?_eq {d : Diagnostic} {src src' : String}
    (h : d.DecidedAlike src src') (hmissing : d.fault.isMissingBody) :
    (statementLines src').find? (d.pos.line < ·.2) =
      (statementLines src).find? (d.pos.line < ·.2) := by
  cases hfind : (statementLines src).find? (d.pos.line < ·.2) with
  | none =>
    have hnone := h.last hmissing
    simpa only [nextStatement?, hfind, Option.map_none, Option.map_eq_none_iff, true_imp_iff]
      using hnone
  | some l =>
    have hsame : SameThrough l.2 src src' := by
      refine h.next hmissing l.2 ?_
      rw [nextStatement?, hfind]
      rfl
    -- both texts have the line among those up to it
    have hup (src : String) := filter_append_filter (pairwise_statementLines src) l.2
    rw [← hup src', ← hsame.filter_eq, List.find?_append]
    rw [← hup src, List.find?_append] at hfind
    cases hbefore : ((statementLines src).filter (·.2 ≤ l.2)).find? (d.pos.line < ·.2) with
    | some k => rwa [hbefore] at hfind
    | none =>
      rw [hbefore, Option.none_or] at hfind
      have := (List.mem_filter.mp (List.mem_of_find?_eq_some hfind)).2
      simp at this

private def placed (l : List Char × Nat) : Line := ⟨l.2, indentColumn 0 l.1, withoutReturn l.1⟩

private theorem filter_ofSource (src : String) :
    (Line.ofSource src).filter (!·.isComment) = (statementLines src).map placed :=
  filter_linesFrom 1 _

namespace LineReader

/-- A source is refused like its statements alone. -/
theorem Shows.forest_eq_error_iff {reader : LineReader α β} {leaf : α → Option γ} {header : β → γ}
    {line : Line → Option γ} (h : reader.Shows leaf header line) {file src : String}
    {d : Diagnostic} : reader.forest file src = .error d ↔
      reader.Refuses file d (firstColumn ((statementLines src).map placed))
        ((statementLines src).map placed) := by
  rw [refuses_iff, ← filter_ofSource, h.block_filter, firstColumn_filter, forest]
  cases reader.block file (firstColumn (Line.ofSource src)) (Line.ofSource src) <;>
    simp [Except.map]

theorem Shows.forest_decidedAlike {reader : LineReader α β} {leaf : α → Option γ} {header : β → γ}
    {line : Line → Option γ} (h : reader.Shows leaf header line)
    (hentry : ∀ l, OnlyFails (·.pos.line = l.number) (reader.entry l)) {file src src' : String}
    {d : Diagnostic} (halike : d.DecidedAlike src src') (hd : reader.forest file src = .error d) :
    reader.forest file src' = .error d := by
  rw [h.forest_eq_error_iff] at hd ⊢
  have hstatement (src : String) : ∀ k ∈ (statementLines src).map placed, k.isComment = false := by
    intro k hk
    rw [← filter_ofSource] at hk
    simpa using (List.mem_filter.mp hk).2
  obtain ⟨above, l, below, hcut, hnumber, hrun⟩ := h.refusedAt hentry (hstatement src) hd
  have hl : l.isComment = false := hstatement src l (by simp [hcut])
  obtain ⟨before, found, hsplit, rfl, hfound⟩ := List.map_eq_append_iff.mp hcut
  obtain ⟨t, behind, rfl, rfl, rfl⟩ := List.map_eq_cons_iff.mp hfound
  have hnumber : d.pos.line = t.2 := hnumber
  have hsorted := pairwise_statementLines src
  rw [hsplit] at hsorted
  obtain ⟨hup, hdown⟩ := filter_of_cut hsorted
  rw [← hsplit] at hup hdown
  have hsame := halike.line
  rw [hnumber] at hsame
  have hsplit' : statementLines src' =
      before ++ t :: (statementLines src').filter (t.2 < ·.2) := by
    conv_lhs => rw [← filter_append_filter (pairwise_statementLines src') t.2]
    rw [← hsame.filter_eq, hup, List.append_assoc]
    rfl
  have hagain := hrun (((statementLines src').filter (t.2 < ·.2)).map placed) ?_ ?_
  · rw [hsplit, List.map_append, List.map_cons, firstColumn_append hl] at hagain
    rw [hsplit', List.map_append, List.map_cons, firstColumn_append hl]
    exact hagain
  · intro k hk
    refine hstatement src' k ?_
    rw [hsplit', List.map_append, List.map_cons]
    exact List.mem_append_right _ (List.mem_cons_of_mem _ hk)
  · intro hmissing
    have hnext := halike.find?_eq hmissing
    rw [hnumber, ← List.head?_filter, ← List.head?_filter, hdown] at hnext
    rw [List.head?_map, List.head?_map, hnext]

end LineReader

/-- The fault of a refused source does not depend on the lines below its own, apart from the next
statement below a header without a body. -/
theorem faults_ignore_later_lines {src src' : String} {d : Diagnostic}
    (h : d.DecidedAlike src src') (file : String) :
    (Survey.ofText file src = .error d → Survey.ofText file src' = .error d) ∧
      (Choices.ofText file src = .error d → Choices.ofText file src' = .error d) := by
  have hline {l : Line} {d : Diagnostic} (hd : d.OnLine file l) : d.pos.line = l.number := by
    cases hd <;> rfl
  exact ⟨(surveyReader_shows file).forest_decidedAlike
      (fun l d hd => hline (surveyReader_onLine file l d hd)) h,
    (choicesReader_shows file).forest_decidedAlike
      (fun l d hd => hline (choicesReader_onLine file l d hd)) h⟩

/-- The next statement settles that the condition has no body; the lines below it are never
reached. -/
theorem missing_body_settled_by_next_statement :
    let src := "group g:\n  if . > 1:\n\n    # none\n  q text:"
    let src' := src ++ "\n 5 5\n\tif"
    let d : Diagnostic := ⟨⟨"f", 2, 3⟩, .missingBody "if"⟩
    nextStatement? src d.pos.line = some 5 ∧ d.DecidedAlike src src' ∧
      Survey.ofText "f" src = .error d ∧ Survey.ofText "f" src' = .error d := by
  intro src src' d
  have hd : Survey.ofText "f" src = .error d := by decide +kernel
  have halike : d.DecidedAlike src src' :=
    ⟨by decide +kernel, fun _ => by decide +kernel, fun _ => by decide +kernel⟩
  exact ⟨by decide +kernel, halike, hd, (faults_ignore_later_lines halike "f").1 hd⟩

end SurveyForms
