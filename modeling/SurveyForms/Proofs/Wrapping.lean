import Mathlib.Data.List.DropRight
import SurveyForms.Proofs.Joining

/-! Joining wrapped lines, piece by piece. What a run of lines becomes depends on the header that
is still open in front of it and on nothing else. -/
namespace SurveyForms.Source

open Text

/-- The header that a further line could still be joined to, and the lines that are joined to it
already. -/
def openHead : List (List Char) → Option (List Char × List (List Char))
  | [] => none
  | line :: rest =>
    if (head? (contentOf line)).isSome ∧ rest.all (continues (indentOf line)) then some (line, rest)
    else openHead rest

/-- A header with the lines that are joined to it. -/
def wrapped (line header : List Char) (run : List (List Char)) : List Char :=
  if run = [] then line else indentOf line ++ header ++ ' ' :: joined run

theorem foldLines_cons_of_none {line : List Char} (h : head? (contentOf line) = none)
    (rest : List (List Char)) : foldLines (line :: rest) = line :: foldLines rest := by
  rw [foldLines, h]

theorem foldLines_cons_of_some {line header : List Char} (h : head? (contentOf line) = some header)
    (rest : List (List Char)) : foldLines (line :: rest) =
      wrapped line header (rest.takeWhile (continues (indentOf line))) ::
        (rest.takeWhile (continues (indentOf line))).map (fun _ => []) ++
          foldLines (rest.dropWhile (continues (indentOf line))) := by
  rw [foldLines, h]
  simp only [wrapped, List.isEmpty_iff]
  split
  · next hrun =>
    have hrest := List.takeWhile_append_dropWhile (p := continues (indentOf line)) (l := rest)
    rw [hrun, List.nil_append] at hrest
    rw [hrun, hrest]
    rfl
  · rfl

theorem wrapped_of_ne_nil {run : List (List Char)} (h : run ≠ []) (line header : List Char) :
    wrapped line header run = indentOf line ++ header ++ ' ' :: joined run := if_neg h

/-- A header takes the lines that continue it, up to the first one that does not. -/
theorem foldLines_run {line header : List Char} (h : head? (contentOf line) = some header)
    {run rest : List (List Char)} (hrun : ∀ l ∈ run, continues (indentOf line) l)
    (hrest : ∀ l ∈ rest.head?, ¬ continues (indentOf line) l) :
    foldLines (line :: (run ++ rest)) =
      wrapped line header run :: run.map (fun _ => []) ++ foldLines rest := by
  have htake : rest.takeWhile (continues (indentOf line)) = [] := by
    cases rest with
    | nil => rfl
    | cons l rest => exact List.takeWhile_cons_of_neg (hrest l rfl)
  have hdrop : rest.dropWhile (continues (indentOf line)) = rest := by
    cases rest with
    | nil => rfl
    | cons l rest => exact List.dropWhile_cons_of_neg (hrest l rfl)
  rw [foldLines_cons_of_some h, List.takeWhile_append_of_pos hrun,
    List.dropWhile_append_of_pos hrun, htake, hdrop, List.append_nil]

private theorem openHead_skip {header : List Char} {run : List (List Char)} {line : List Char}
    (rest : List (List Char)) (hrun : ∀ l ∈ run, continues (indentOf header) l)
    (hline : ¬ continues (indentOf header) line) :
    openHead (run ++ line :: rest) = openHead (line :: rest) := by
  induction run with
  | nil => rfl
  | cons l run ih =>
    obtain ⟨hl, hrun⟩ := List.forall_mem_cons.mp hrun
    rw [List.cons_append, openHead, if_neg, ih hrun]
    rintro ⟨_, hall⟩
    have hcontinues : continues (indentOf l) line := List.all_eq_true.mp hall line (by simp)
    exact hline (continues_trans hl hcontinues)

/-- The lines that continue a header, and what follows them. -/
theorem exists_run (line : List Char) (rest : List (List Char)) : ∃ run more, rest = run ++ more ∧
    rest.takeWhile (continues (indentOf line)) = run ∧ (∀ l ∈ run, continues (indentOf line) l) ∧
      ∀ l ∈ more.head?, ¬ continues (indentOf line) l := by
  refine ⟨_, _, List.takeWhile_append_dropWhile.symm, rfl, fun l => List.mem_takeWhile_imp,
    fun l hl => ?_⟩
  have := List.head?_dropWhile_not (continues (indentOf line)) rest
  rw [hl] at this
  simpa using this

/-- Lines in front of an open header are folded by themselves, and all lines are if no header is
open. -/
private theorem foldLines_append_cases (ls : List (List Char)) :
    (openHead ls = none → ∀ more, foldLines (ls ++ more) = foldLines ls ++ foldLines more) ∧
    ∀ line run, openHead ls = some (line, run) → (head? (contentOf line)).isSome ∧
      (∀ l ∈ run, continues (indentOf line) l) ∧ ∃ before, ls = before ++ line :: run ∧
        ∀ more, foldLines (ls ++ more) = foldLines before ++ foldLines (line :: (run ++ more)) := by
  induction hn : ls.length using Nat.strong_induction_on generalizing ls with
  | _ n ih =>
    cases ls with
    | nil => exact ⟨fun _ _ => by rw [foldLines]; rfl, by simp [openHead]⟩
    | cons l rest =>
      rw [List.length_cons] at hn
      cases hhead : head? (contentOf l) with
      | none =>
        obtain ⟨ihnone, ihsome⟩ := ih rest.length (by omega) rest rfl
        have hopen : openHead (l :: rest) = openHead rest := by simp [openHead, hhead]
        rw [hopen]
        refine ⟨fun hnone more => ?_, fun line run hsome => ?_⟩
        · rw [List.cons_append, foldLines_cons_of_none hhead, foldLines_cons_of_none hhead,
            ihnone hnone, List.cons_append]
        · obtain ⟨hline, hrun, before, rfl, hfold⟩ := ihsome line run hsome
          refine ⟨hline, hrun, l :: before, rfl, fun more => ?_⟩
          rw [List.cons_append, foldLines_cons_of_none hhead, foldLines_cons_of_none hhead, hfold,
            List.cons_append]
      | some header =>
        by_cases hall : rest.all (continues (indentOf l))
        · have hopen : openHead (l :: rest) = some (l, rest) := by
            rw [openHead, if_pos ⟨by rw [hhead]; rfl, hall⟩]
          rw [hopen]
          refine ⟨fun hnone => absurd hnone (by simp), ?_⟩
          rintro line run ⟨⟩
          exact ⟨by rw [hhead]; rfl, List.all_eq_true.mp hall, [], rfl,
            fun more => by rw [foldLines]; rfl⟩
        · obtain ⟨run, behind, rfl, -, hrun, hbehind⟩ := exists_run l rest
          obtain ⟨next, more, rfl⟩ : ∃ next more, behind = next :: more := by
            cases behind with
            | nil => exact absurd (List.all_eq_true.mpr (by simpa using hrun)) hall
            | cons next more => exact ⟨next, more, rfl⟩
          have hnext := hbehind next rfl
          have hopen : openHead (l :: (run ++ next :: more)) = openHead (next :: more) := by
            rw [openHead, if_neg fun h => hall h.2]
            exact openHead_skip more hrun hnext
          -- the run of `l` ends at `next`, whatever follows
          have hfold (behind : List (List Char)) (hbehind : ∀ l ∈ behind.head?, l = next) :
              foldLines (l :: (run ++ behind)) =
                wrapped l header run :: run.map (fun _ => []) ++ foldLines behind :=
            foldLines_run hhead hrun fun l hl => hbehind l hl ▸ hnext
          obtain ⟨ihnone, ihsome⟩ := ih (next :: more).length (by simp at hn ⊢; omega) _ rfl
          rw [hopen]
          refine ⟨fun hnone behind => ?_, fun line run' hsome => ?_⟩
          · rw [List.cons_append, List.append_assoc, hfold _ (by simp), hfold _ (by simp),
              ihnone hnone, List.append_assoc]
          · obtain ⟨hline, hrun', before, hbefore, hmore⟩ := ihsome line run' hsome
            refine ⟨hline, hrun', l :: (run ++ before), by simp [hbefore], fun behind => ?_⟩
            have hhead_before : ∀ l ∈ before.head?, l = next := by
              cases before with
              | nil => simp
              | cons b before =>
                rintro _ ⟨⟩
                exact (List.cons_eq_cons.mp hbefore).1.symm
            rw [List.cons_append, List.append_assoc, hfold _ (by simp), hfold _ hhead_before, hmore,
              List.append_assoc]

/-- Lines that continue no open header are folded by themselves. -/
theorem foldLines_append {a b : List (List Char)}
    (h : ∀ line run, openHead a = some (line, run) → ∀ l ∈ b.head?, ¬ continues (indentOf line) l) :
    foldLines (a ++ b) = foldLines a ++ foldLines b := by
  obtain ⟨hnone, hsome⟩ := foldLines_append_cases a
  cases hopen : openHead a with
  | none => exact hnone hopen b
  | some head =>
    obtain ⟨line, run⟩ := head
    obtain ⟨hline, hrun, before, _, hfold⟩ := hsome line run hopen
    obtain ⟨header, hheader⟩ := Option.isSome_iff_exists.mp hline
    have hself := hfold []
    rw [List.append_nil, foldLines_run hheader hrun (by simp), foldLines.eq_1, List.append_nil]
      at hself
    rw [hfold, foldLines_run hheader hrun (h line run hopen), hself, List.append_assoc]

/-- Lines that continue the open header are joined to it, behind those that were joined already. -/
theorem foldLines_append_of_open {a more rest : List (List Char)} {line : List Char}
    {run : List (List Char)} (hopen : openHead a = some (line, run))
    (hmore : ∀ l ∈ more, continues (indentOf line) l)
    (hrest : ∀ l ∈ rest.head?, ¬ continues (indentOf line) l) :
    ∃ before header, a = before ++ line :: run ∧ head? (contentOf line) = some header ∧
      foldLines (a ++ (more ++ rest)) = foldLines before ++ wrapped line header (run ++ more) ::
        ((run ++ more).map (fun _ => []) ++ foldLines rest) := by
  obtain ⟨hline, hrun, before, ha, hfold⟩ := (foldLines_append_cases a).2 line run hopen
  obtain ⟨header, hheader⟩ := Option.isSome_iff_exists.mp hline
  refine ⟨before, header, ha, hheader, ?_⟩
  have hall : ∀ l ∈ run ++ more, continues (indentOf line) l :=
    List.forall_mem_append.mpr ⟨hrun, hmore⟩
  rw [hfold, ← List.append_assoc run more rest, foldLines_run hheader hall hrest, List.cons_append]

theorem continues_of_openHead {a : List (List Char)} {line : List Char} {run : List (List Char)}
    (h : openHead a = some (line, run)) : ∀ l ∈ run, continues (indentOf line) l :=
  ((foldLines_append_cases a).2 line run h).2.1

theorem mem_of_openHead {a : List (List Char)} {line : List Char} {run : List (List Char)}
    (h : openHead a = some (line, run)) : line ∈ a := by
  obtain ⟨_, _, before, rfl, _⟩ := (foldLines_append_cases a).2 line run h
  simp

private theorem not_open_concat {b : List Char} {a : List (List Char)}
    (h : ¬ ((head? (contentOf b)).isSome ∧ a.all (continues (indentOf b)))) (l : List Char) :
    ¬ ((head? (contentOf b)).isSome ∧ (a ++ [l]).all (continues (indentOf b))) := by
  rintro ⟨hb, hall⟩
  rw [List.all_append, Bool.and_eq_true] at hall
  exact h ⟨hb, hall.1⟩

theorem openHead_concat_of_continues {a : List (List Char)} {line l : List Char}
    {run : List (List Char)} (h : openHead a = some (line, run))
    (hl : continues (indentOf line) l) : openHead (a ++ [l]) = some (line, run ++ [l]) := by
  induction a with
  | nil => cases h
  | cons b a ih =>
    rw [openHead] at h
    rw [List.cons_append, openHead]
    split at h
    · next hb =>
      cases h
      rw [if_pos ⟨hb.1, by simp [List.all_append, hb.2, hl]⟩]
    · next hb =>
      rw [if_neg (not_open_concat hb l)]
      exact ih h

theorem openHead_concat_of_free {a : List (List Char)} {l : List Char}
    (h : ∀ line run, openHead a = some (line, run) → ¬ continues (indentOf line) l) :
    openHead (a ++ [l]) = openHead [l] := by
  induction a with
  | nil => rfl
  | cons b a ih =>
    simp only [openHead] at h
    rw [List.cons_append, openHead]
    split at h
    · next hb =>
      have hl := h b a rfl
      rw [if_neg fun hb' => hl (List.all_eq_true.mp hb'.2 l (by simp))]
      exact openHead_skip [] (List.all_eq_true.mp hb.2) hl
    · next hb =>
      rw [if_neg (not_open_concat hb l)]
      exact ih h

/-- A header is all of its line but spaces at the end, and begins with a command sign or a word
character. -/
theorem head?_eq_some {content header : List Char} (h : head? content = some header) :
    ∃ c rest spaces, header = c :: rest ∧ content = header ++ spaces ∧ (∀ b ∈ spaces, b = ' ') ∧
      (c = '@' ∨ isWord c) := by
  cases content with
  | nil => cases h
  | cons c content =>
    simp only [head?] at h
    split at h
    · next hc =>
      cases h
      exact ⟨c, content, [], rfl, by simp, by simp, .inl (by simpa using hc)⟩
    split at h
    · next hc =>
      cases h
      simp only [Bool.and_eq_true, beq_iff_eq] at hc
      obtain ⟨⟨hword, _⟩, hlast⟩ := hc
      have hsplit := List.rdropWhile_append_rtakeWhile (p := (· == ' ')) (l := c :: content)
      cases hheader : dropSpaces (c :: content) with
      | nil => rw [hheader] at hlast; cases hlast
      | cons d header =>
        have hrdrop : (c :: content).rdropWhile (· == ' ') = d :: header := hheader
        rw [hrdrop] at hsplit
        obtain ⟨rfl, _⟩ := List.cons_eq_cons.mp hsplit
        exact ⟨d, header, _, rfl, hsplit.symm, fun b hb => by
          simpa using List.mem_rtakeWhile_imp hb, .inr hword⟩
    · cases h

private theorem break_not_mem_wrapped {line header : List Char}
    (hheader : head? (contentOf line) = some header) (hline : '\n' ∉ line)
    (run : List (List Char)) : '\n' ∉ wrapped line header run := by
  obtain ⟨c, rest, spaces, _, hcontent, _⟩ := head?_eq_some hheader
  rw [← indentOf_append_contentOf line, hcontent] at hline
  unfold wrapped
  split
  · rwa [← indentOf_append_contentOf line, hcontent]
  · intro hbreak
    simp only [List.mem_append, List.mem_cons] at hbreak hline
    rcases hbreak with (hbreak | hbreak) | hbreak | hbreak
    · exact hline (.inl hbreak)
    · exact hline (.inr (.inl hbreak))
    · cases hbreak
    · exact break_not_mem_joined run hbreak

theorem break_not_mem_foldLines {ls : List (List Char)} (h : ∀ l ∈ ls, '\n' ∉ l) :
    ∀ l ∈ foldLines ls, '\n' ∉ l := by
  induction hn : ls.length using Nat.strong_induction_on generalizing ls with
  | _ n ih =>
    cases ls with
    | nil => rw [foldLines]; simp
    | cons line rest =>
      obtain ⟨hline, hrest⟩ := List.forall_mem_cons.mp h
      rw [List.length_cons] at hn
      cases hheader : head? (contentOf line) with
      | none =>
        rw [foldLines_cons_of_none hheader]
        exact List.forall_mem_cons.mpr ⟨hline, ih rest.length (by omega) hrest rfl⟩
      | some header =>
        have hsuffix := List.dropWhile_suffix (l := rest) (continues (indentOf line))
        have hdrop := hsuffix.length_le
        have ihrest := ih _ (by omega) (fun l hl => hrest l (hsuffix.subset hl)) rfl
        rw [foldLines_cons_of_some hheader, List.cons_append]
        refine List.forall_mem_cons.mpr ⟨break_not_mem_wrapped hheader hline _, ?_⟩
        refine List.forall_mem_append.mpr ⟨fun l hl => ?_, ihrest⟩
        obtain ⟨_, _, rfl⟩ := List.mem_map.mp hl
        exact List.not_mem_nil

theorem foldLines_ne_nil {ls : List (List Char)} (h : ls ≠ []) : foldLines ls ≠ [] := by
  cases ls with
  | nil => exact absurd rfl h
  | cons line rest =>
    cases hheader : head? (contentOf line) with
    | none => rw [foldLines_cons_of_none hheader]; simp
    | some header => rw [foldLines_cons_of_some hheader]; simp

end SurveyForms.Source
