import Mathlib.Data.List.TakeWhile
import SurveyForms.Text.Braced

/-! References in running text, found from left to right. Main statement: every text has exactly
one list of references that are found in this way, and its pieces are read off as that list. -/
namespace SurveyForms.Text

/-- A reference at its place in a text: where its opening starts, in characters, and its name. -/
structure Mention where
  start : Nat
  name : List Char
  deriving DecidableEq, Repr

namespace Mention

/-- The name of a reference, as it is looked up. -/
def text (m : Mention) : String := String.ofList m.name

variable (opening : List Char)

/-- The place right behind a reference. -/
def stop (m : Mention) : Nat := m.start + opening.length + m.name.length + 1

/-- A text has a reference at its place: the opening, one or more characters other than a closing
brace, and a closing brace. -/
def StandsIn (m : Mention) (cs : List Char) : Prop :=
  m.name ≠ [] ∧ '\x7d' ∉ m.name ∧ opening ++ m.name ++ ['\x7d'] <+: cs.drop m.start

end Mention

/-- The references of a text from a place on, found from left to right. Each starts first among
those that start no earlier than the one before it ends. -/
inductive Found (opening cs : List Char) : Nat → List Mention → Prop
  | done {start : Nat} (h : ∀ m : Mention, m.StandsIn opening cs → m.start < start) :
      Found opening cs start []
  | next {start : Nat} {m : Mention} {ms : List Mention} (hin : m.StandsIn opening cs)
      (hstart : start ≤ m.start)
      (hfirst : ∀ n : Mention, n.StandsIn opening cs → start ≤ n.start → m.start ≤ n.start)
      (hrest : Found opening cs (m.stop opening) ms) : Found opening cs start (m :: ms)

variable {opening cs : List Char}

theorem closeBrace?_eq_some_iff {name rest : List Char} :
    closeBrace? cs = some (name, rest) ↔
      name ≠ [] ∧ '\x7d' ∉ name ∧ cs = name ++ '\x7d' :: rest := by
  constructor
  · intro h
    have hsplit := List.takeWhile_append_dropWhile (p := (· ≠ '\x7d')) (l := cs)
    have hname : '\x7d' ∉ cs.takeWhile (· ≠ '\x7d') := by
      intro hmem
      simpa using List.mem_takeWhile_imp hmem
    unfold closeBrace? at h
    split at h
    · next c tail hdrop =>
      have hc : c = '\x7d' := by
        have hfirst := List.head?_dropWhile_not (· ≠ '\x7d') cs
        rw [hdrop] at hfirst
        simpa using hfirst
      split at h
      · cases h
      next hsome =>
      cases h
      rw [hdrop, hc] at hsplit
      exact ⟨hsome, hname, hsplit.symm⟩
    · cases h
  · rintro ⟨hsome, hname, rfl⟩
    have hall : ∀ c ∈ name, decide (c ≠ '\x7d') = true := by
      intro c hc
      exact decide_eq_true (ne_of_mem_of_not_mem hc hname)
    rw [closeBrace?, List.dropWhile_append_of_pos hall, List.takeWhile_append_of_pos hall]
    simp [hsome]

theorem reference?_eq_some_iff {name rest : List Char} :
    reference? opening cs = some (name, rest) ↔
      name ≠ [] ∧ '\x7d' ∉ name ∧ cs = opening ++ name ++ '\x7d' :: rest := by
  unfold reference?
  split
  · next hstart =>
    obtain ⟨more, rfl⟩ := List.isPrefixOf_iff_prefix.mp hstart
    rw [List.drop_left, closeBrace?_eq_some_iff, List.append_assoc, List.append_cancel_left_eq]
  · next hstart =>
    refine ⟨(nomatch ·), fun ⟨_, _, h⟩ => absurd ?_ hstart⟩
    rw [h, List.append_assoc]
    exact List.isPrefixOf_iff_prefix.mpr (List.prefix_append _ _)

namespace Mention

/-- A reference stands where one is read. -/
theorem standsIn_iff {m : Mention} : m.StandsIn opening cs ↔
    ∃ rest, reference? opening (cs.drop m.start) = some (m.name, rest) := by
  simp only [StandsIn, reference?_eq_some_iff, exists_and_left]
  refine and_congr_right fun _ => and_congr_right fun _ => exists_congr fun rest => ?_
  rw [List.append_assoc, List.singleton_append]
  exact eq_comm

/-- At one place there is at most one reference. -/
theorem StandsIn.eq_of_start {m n : Mention} (hm : m.StandsIn opening cs)
    (hn : n.StandsIn opening cs) (h : m.start = n.start) : m = n := by
  obtain ⟨_, hm⟩ := standsIn_iff.mp hm
  obtain ⟨_, hn⟩ := standsIn_iff.mp hn
  rw [← h, hm] at hn
  cases m
  cases n
  cases hn
  cases h
  rfl

end Mention

/-- The list that is found is unique. -/
theorem Found.unique {start : Nat} {ms ns : List Mention} (hms : Found opening cs start ms)
    (hns : Found opening cs start ns) : ms = ns := by
  induction hms generalizing ns with
  | done h =>
    cases hns with
    | done => rfl
    | next hin hstart => exact absurd (h _ hin) (Nat.not_lt.mpr hstart)
  | next hin hstart hfirst _ ih =>
    cases hns with
    | done h => exact absurd (h _ hin) (Nat.not_lt.mpr hstart)
    | next hin' hstart' hfirst' hrest' =>
      obtain rfl := hin.eq_of_start hin'
        (Nat.le_antisymm (hfirst _ hin' hstart') (hfirst' _ hin hstart))
      rw [ih hrest']

/-- Where no reference starts, looking for the next one goes on a character further right. -/
theorem Found.of_succ {start : Nat} {ms : List Mention}
    (hnone : reference? opening (cs.drop start) = none) (h : Found opening cs (start + 1) ms) :
    Found opening cs start ms := by
  have hne (m : Mention) (hm : m.StandsIn opening cs) : m.start ≠ start := by
    rintro rfl
    obtain ⟨_, hm⟩ := Mention.standsIn_iff.mp hm
    rw [hnone] at hm
    cases hm
  cases h with
  | done h =>
    refine .done fun m hm => ?_
    have := h m hm
    have := hne m hm
    omega
  | next hin hstart hfirst hrest =>
    refine .next hin (by omega) (fun n hn hle => hfirst n hn ?_) hrest
    have := hne n hn
    omega

/-- A reference starts no earlier than the place from where on it is looked for. -/
theorem Found.le_start {start : Nat} {ms : List Mention}
    (h : Found opening cs start ms) : ∀ m ∈ ms, start ≤ m.start := by
  induction h with
  | done => exact List.forall_mem_nil _
  | @next start m ms _ hstart _ _ ih =>
    refine List.forall_mem_cons.mpr ⟨hstart, fun n hn => ?_⟩
    have := ih n hn
    simp only [Mention.stop] at this
    omega

/-- References that are found are found in order. -/
theorem Found.pairwise_start {start : Nat} {ms : List Mention} (h : Found opening cs start ms) :
    ms.Pairwise fun m n => m.start < n.start := by
  induction h with
  | done => exact .nil
  | @next start m ms _ _ _ hrest ih =>
    refine .cons (fun n hn => ?_) ih
    have := hrest.le_start n hn
    simp only [Mention.stop] at this
    omega

/-- The references among the pieces of a text that starts at a place. -/
def mentions (opening : List Char) : Nat → List Piece → List Mention
  | _, [] => []
  | start, .plain _ :: ps => mentions opening (start + 1) ps
  | start, .reference name :: ps =>
    ⟨start, name⟩ :: mentions opening (Mention.stop opening ⟨start, name⟩) ps

theorem map_text_mentions (start : Nat) (ps : List Piece) :
    (mentions opening start ps).map Mention.text = ps.filterMap fun
      | .reference name => some (String.ofList name)
      | .plain _ => none := by
  induction ps generalizing start with
  | nil => rfl
  | cons p ps ih =>
    cases p with
    | plain c => exact ih _
    | reference name => exact congrArg (String.ofList name :: ·) (ih _)

theorem drop_succ_of_cons {c : Char} {rest : List Char} {start : Nat}
    (h : cs.drop start = c :: rest) : cs.drop (start + 1) = rest := by
  rw [← List.tail_drop, h, List.tail_cons]

theorem drop_stop {m : Mention} {rest : List Char}
    (h : cs.drop m.start = opening ++ m.name ++ '\x7d' :: rest) :
    cs.drop (m.stop opening) = rest := by
  have hlength : m.stop opening = m.start + (opening ++ m.name ++ ['\x7d']).length := by
    simp [Mention.stop, Nat.add_assoc]
  rw [hlength, ← List.drop_drop, h, List.append_cons _ _ rest, List.drop_left]

/-- The references among the pieces of a text are found in it. -/
theorem found_mentions {rest : List Char} {start : Nat} (h : cs.drop start = rest) :
    Found opening cs start (mentions opening start (pieces opening rest)) := by
  fun_induction pieces opening rest generalizing start with
  | case1 rest name more href ih =>
    have hin : Mention.StandsIn opening ⟨start, name⟩ cs :=
      Mention.standsIn_iff.mpr ⟨more, by rw [h, href]⟩
    refine .next hin (Nat.le_refl _) (fun _ _ hle => hle) (ih (drop_stop ?_))
    rw [h, (reference?_eq_some_iff.mp href).2.2]
  | case2 href =>
    refine .done fun m hm => ?_
    -- a reference takes up room, and the text ends before `start`
    have hroom := hm.2.2.length_le
    have hend := List.drop_eq_nil_iff.mp h
    simp only [List.length_append, List.length_drop, List.length_singleton] at hroom
    omega
  | case3 c rest href ih =>
    exact .of_succ (by rw [h, href]) (ih (drop_succ_of_cons h))

/-- What is found from the start of a text is what its pieces say. -/
theorem found_iff {ms : List Mention} :
    Found opening cs 0 ms ↔ ms = mentions opening 0 (pieces opening cs) := by
  have hfound : Found opening cs 0 (mentions opening 0 (pieces opening cs)) := found_mentions rfl
  exact ⟨fun h => h.unique hfound, fun h => h ▸ hfound⟩

end SurveyForms.Text
