import Mathlib.Data.Nat.Find
import SurveyForms.Proofs.DefinedNames

/-! Choice lists whose entries do not stand together. Main statement: the check reports just the
lists that go on behind an entry of another list, each once, at the first row where it does. -/
namespace SurveyForms.Lint

/-- The list goes on at a row: it has an entry further up, and between the two stands an entry of
another list. -/
def Reentered (names : List String) (name : String) (k : Nat) : Prop :=
  ∃ i j other, i < j ∧ j < k ∧ names[i]? = some name ∧ names[k]? = some name ∧
    names[j]? = some other ∧ other ≠ name

structure FirstReentry (names : List String) (name : String) (k : Nat) : Prop where
  reentered : Reentered names name k
  first : ∀ m < k, ¬ Reentered names name m

/-- The findings tell exactly which lists are split among entries of these lists. -/
structure SplitListsFound (sheet : String) (names : List String) (findings : List Finding) :
    Prop where
  /-- A list is reported at the first row at which it goes on, under the number of that row. -/
  exactly : ∀ f, f ∈ findings ↔
    ∃ name k, FirstReentry names name k ∧ f = ⟨sheet, k + 2, name, .splitList⟩
  /-- Each list that goes on somewhere has one finding. -/
  once : ∀ name, (∃ k, Reentered names name k) ↔ ∃! f, f ∈ findings ∧ f.name = name
  warned : ∀ f ∈ findings, f.severity = .warning ∧
    f.message = "choice list " ++ f.name ++ " is defined in multiple places"
  ordered : findings.Pairwise fun f g => f.row < g.row

variable {names : List String} {name : String} {k : Nat}

theorem Reentered.name_eq (h : Reentered names name k) : names[k]? = some name := by
  obtain ⟨-, -, -, -, -, -, hname, -, -⟩ := h
  exact hname

theorem Reentered.exists_first (h : Reentered names name k) :
    ∃ m, FirstReentry names name m := by
  classical
  have hsome : ∃ k, Reentered names name k := ⟨k, h⟩
  exact ⟨Nat.find hsome, Nat.find_spec hsome, fun m hm => Nat.find_min hsome hm⟩

theorem FirstReentry.unique {m : Nat} (hk : FirstReentry names name k)
    (hm : FirstReentry names name m) : k = m := by
  rcases Nat.lt_trichotomy k m with hlt | heq | hgt
  · exact absurd hk.reentered (hm.first k hlt)
  · exact heq
  · exact absurd hm.reentered (hk.first m hgt)

/-- What is known in front of row `n`: the lists met above it, those of them that go on above it,
and the list of the row before. In front of the first row nothing is known of `last`. -/
structure Scanned (names : List String) (n : Nat) (seen reported : List String) (last : String) :
    Prop where
  seen : ∀ name, name ∈ seen ↔ ∃ i < n, names[i]? = some name
  reported : ∀ name, name ∈ reported ↔ ∃ k < n, Reentered names name k
  last : ∀ m, m + 1 = n → names[m]? = some last

theorem scanned_start (names : List String) (last : String) : Scanned names 0 [] [] last :=
  ⟨by simp, by simp, by simp⟩

namespace Scanned

variable {n : Nat} {seen reported : List String} {last : String}

/-- What is known in front of a row decides whether its list goes on there for the first time. -/
theorem firstReentry_iff (h : Scanned names n seen reported last) (hn : names[n]? = some name) :
    name ≠ last ∧ name ∈ seen ∧ name ∉ reported ↔ FirstReentry names name n := by
  rw [h.seen, h.reported]
  constructor
  · rintro ⟨hlast, ⟨i, hi, hname⟩, hnew⟩
    obtain ⟨m, rfl⟩ := Nat.exists_eq_add_one_of_ne_zero (Nat.ne_zero_of_lt hi)
    have hm := h.last m rfl
    have him : i ≠ m := by
      rintro rfl
      exact hlast (Option.some.inj (hname.symm.trans hm))
    refine ⟨⟨i, m, last, by omega, by omega, hname, hn, hm, hlast.symm⟩, fun k hk hreentered => ?_⟩
    exact hnew ⟨k, hk, hreentered⟩
  · rintro ⟨⟨i, j, other, hij, hjn, hi, -, hj, hother⟩, hfirst⟩
    refine ⟨?_, ⟨i, by omega, hi⟩, fun ⟨k, hk, hreentered⟩ => hfirst k hk hreentered⟩
    -- the row before does not have the name, or the list would have gone on there already
    rintro rfl
    obtain ⟨m, rfl⟩ := Nat.exists_eq_add_one_of_ne_zero (Nat.ne_zero_of_lt hjn)
    have hm := h.last m rfl
    have hjm : j ≠ m := by
      rintro rfl
      exact hother (Option.some.inj (hj.symm.trans hm))
    exact hfirst m (by omega) ⟨i, j, other, hij, by omega, hi, hm, hj, hother⟩

/-- Behind a row its list has been met, and it is reported if it goes on there for the first
time. -/
theorem step (h : Scanned names n seen reported last) (hn : names[n]? = some name)
    (reported' : List String) (hreported : ∀ other, other ∈ reported' ↔
      other ∈ reported ∨ other = name ∧ FirstReentry names name n) :
    Scanned names (n + 1) (name :: seen) reported' name where
  seen other := by
    rw [List.mem_cons, h.seen]
    constructor
    · rintro (rfl | ⟨i, hi, hother⟩)
      · exact ⟨n, Nat.lt_succ_self n, hn⟩
      · exact ⟨i, Nat.lt_succ_of_lt hi, hother⟩
    · rintro ⟨i, hi, hother⟩
      rcases Nat.lt_succ_iff_lt_or_eq.mp hi with hi | rfl
      · exact .inr ⟨i, hi, hother⟩
      · exact .inl (Option.some.inj (hother.symm.trans hn))
  reported other := by
    rw [hreported, h.reported]
    constructor
    · rintro (⟨k, hk, hreentered⟩ | ⟨rfl, hfirst⟩)
      · exact ⟨k, Nat.lt_succ_of_lt hk, hreentered⟩
      · exact ⟨n, Nat.lt_succ_self n, hfirst.reentered⟩
    · rintro ⟨k, hk, hreentered⟩
      by_cases hearlier : ∃ m < n, Reentered names other m
      · exact .inl hearlier
      -- the list goes on at row `n` and at none above it
      have hkn : k = n := by
        by_contra hne
        exact hearlier ⟨k, by omega, hreentered⟩
      subst hkn
      obtain rfl : other = name := Option.some.inj (hreentered.name_eq.symm.trans hn)
      exact .inr ⟨rfl, hreentered, fun m hm hreentered => hearlier ⟨m, hm, hreentered⟩⟩
  last m hm := by
    obtain rfl : m = n := Nat.succ.inj hm
    exact hn

end Scanned

/-- The findings of rows that are still to come are the lists that go on there for the first
time. -/
theorem mem_splitLists {sheet : String} {rows : List Row} {n : Nat} {seen reported : List String}
    {last : String} (h : Scanned names n seen reported last)
    (hrows : names.drop n = rows.map (·.text "list_name")) {f : Finding} :
    f ∈ splitLists sheet seen reported last (n + 2) rows ↔
      ∃ name k, n ≤ k ∧ FirstReentry names name k ∧ f = ⟨sheet, k + 2, name, .splitList⟩ := by
  induction rows generalizing n seen reported last with
  | nil =>
    have hend : names.length ≤ n := List.drop_eq_nil_iff.mp hrows
    refine ⟨fun hf => (List.not_mem_nil hf).elim, ?_⟩
    rintro ⟨name, k, hk, hfirst, -⟩
    have hlength := (List.getElem?_eq_some_iff.mp hfirst.reentered.name_eq).1
    omega
  | cons row rows ih =>
    have hn : names[n]? = some (row.text "list_name") := by
      rw [← List.head?_drop, hrows]
      rfl
    have hrest : names.drop (n + 1) = rows.map (·.text "list_name") := by
      rw [← List.tail_drop, hrows]
      rfl
    have hlater {name : String} {k : Nat} (hk : n ≤ k) (hfirst : FirstReentry names name k)
        (hrow : ¬ FirstReentry names (row.text "list_name") n) : n + 1 ≤ k := by
      refine Nat.lt_of_le_of_ne hk ?_
      rintro rfl
      obtain rfl := Option.some.inj (hfirst.reentered.name_eq.symm.trans hn)
      exact hrow hfirst
    simp only [splitLists]
    split
    · next htest =>
      have hfirst := (h.firstReentry_iff hn).mp htest
      have hnext := h.step hn (row.text "list_name" :: reported) fun other => by
        rw [List.mem_cons, or_comm, and_iff_left hfirst]
      rw [List.mem_cons, ih hnext hrest]
      constructor
      · rintro (rfl | ⟨name, k, hk, hreentry, rfl⟩)
        · exact ⟨_, n, Nat.le_refl n, hfirst, rfl⟩
        · exact ⟨name, k, Nat.le_of_succ_le hk, hreentry, rfl⟩
      · rintro ⟨name, k, hk, hreentry, rfl⟩
        rcases Nat.lt_or_eq_of_le hk with hlt | rfl
        · exact .inr ⟨name, k, hlt, hreentry, rfl⟩
        · obtain rfl := Option.some.inj (hreentry.reentered.name_eq.symm.trans hn)
          exact .inl rfl
    · next htest =>
      have hfirst := mt (h.firstReentry_iff hn).mpr htest
      have hnext := h.step hn reported fun other => by simp [hfirst]
      rw [ih hnext hrest]
      constructor
      · rintro ⟨name, k, hk, hreentry, rfl⟩
        exact ⟨name, k, Nat.le_of_succ_le hk, hreentry, rfl⟩
      · rintro ⟨name, k, hk, hreentry, rfl⟩
        exact ⟨name, k, hlater hk hreentry hfirst, hreentry, rfl⟩

theorem le_row_of_mem_splitLists {sheet last : String} {seen reported : List String}
    {number : Nat} {rows : List Row} {f : Finding}
    (h : f ∈ splitLists sheet seen reported last number rows) : number ≤ f.row := by
  induction rows generalizing seen reported last number with
  | nil => cases h
  | cons row rows ih =>
    simp only [splitLists] at h
    split at h
    · rcases List.mem_cons.mp h with rfl | h
      · exact Nat.le_refl number
      · exact Nat.le_of_succ_le (ih h)
    · exact Nat.le_of_succ_le (ih h)

theorem pairwise_splitLists (sheet last : String) (seen reported : List String) (number : Nat)
    (rows : List Row) :
    (splitLists sheet seen reported last number rows).Pairwise fun f g => f.row < g.row := by
  induction rows generalizing seen reported last number with
  | nil => exact .nil
  | cons row rows ih =>
    simp only [splitLists]
    split
    · exact .cons (fun f hf => le_row_of_mem_splitLists hf) (ih _ _ _ _)
    · exact ih _ _ _ _

theorem isOfRow_of_mem_rowProblems {lists before : List String} {row : Row} {problem : Problem}
    (h : problem ∈ rowProblems lists before row) : problem.isOfRow = true := by
  simp only [rowProblems, List.mem_append, List.mem_ite_nil_right, List.mem_ite_nil_left,
    List.mem_singleton] at h
  rcases h with (((⟨_, rfl⟩ | ⟨_, rfl⟩) | ⟨_, rfl⟩) | ⟨_, rfl⟩) | ⟨_, rfl⟩ <;> rfl

theorem problem_ne_splitList_of_mem_checkSurvey {lists : List String} {s : Sheet} {f : Finding}
    (h : f ∈ checkSurvey lists s) : f.problem ≠ .splitList := by
  intro hsplit
  simp only [checkSurvey] at h
  split at h
  · obtain ⟨i, row, _, problem, hproblem, rfl⟩ := mem_checkRows.mp h
    have hrow := isOfRow_of_mem_rowProblems hproblem
    rw [show problem = .splitList from hsplit] at hrow
    cases hrow
  · obtain rfl := List.mem_singleton.mp h
    cases hsplit

/-- Split lists are found on the choices sheet and nowhere else. -/
theorem filter_check_splitList (w : Workbook) :
    (check w).filter (·.problem = .splitList) = checkChoices w.choices := by
  have hsurvey : (checkSurvey (w.choices.rows.map (·.text "list_name")) w.survey).filter
      (·.problem = .splitList) = [] := by
    refine List.filter_eq_nil_iff.mpr fun f hf => ?_
    simpa using problem_ne_splitList_of_mem_checkSurvey hf
  have hsettings : (checkSettings w.settings).filter (·.problem = .splitList) = [] := by
    refine List.filter_eq_nil_iff.mpr fun f hf => ?_
    simp [(of_mem_checkSettings hf).2.2]
  have hchoices : (checkChoices w.choices).filter (·.problem = .splitList) =
      checkChoices w.choices := by
    refine List.filter_eq_self.mpr fun f hf => ?_
    simpa using (of_mem_splitLists hf).2
  rw [check, List.filter_append, List.filter_append, hchoices, hsurvey, hsettings, List.append_nil,
    List.append_nil]

/-- The lists that are reported as split are just those that go on behind an entry of another
list. Each of them has one warning, at the first row where it does, and the warnings stand in the
order of their rows. -/
theorem split_lists_found (w : Workbook) :
    SplitListsFound w.choices.name (w.choices.rows.map (·.text "list_name"))
      ((check w).filter (·.problem = .splitList)) := by
  rw [filter_check_splitList]
  have hexactly (f : Finding) : f ∈ checkChoices w.choices ↔ ∃ name k,
      FirstReentry (w.choices.rows.map (·.text "list_name")) name k ∧
        f = ⟨w.choices.name, k + 2, name, .splitList⟩ := by
    rw [checkChoices, Sheet.firstRow, mem_splitLists (scanned_start _ "") rfl]
    simp only [Nat.zero_le, true_and]
  refine ⟨hexactly, fun name => ⟨?_, ?_⟩, fun f hf => ?_, pairwise_splitLists _ _ _ _ _ _⟩
  · rintro ⟨k, hk⟩
    obtain ⟨m, hm⟩ := hk.exists_first
    refine ⟨_, ⟨(hexactly _).mpr ⟨name, m, hm, rfl⟩, rfl⟩, ?_⟩
    rintro f ⟨hf, rfl⟩
    obtain ⟨other, k', hk', rfl⟩ := (hexactly f).mp hf
    rw [hk'.unique hm]
  · rintro ⟨f, ⟨hf, rfl⟩, -⟩
    obtain ⟨other, k, hk, rfl⟩ := (hexactly f).mp hf
    exact ⟨k, hk.reentered⟩
  · obtain ⟨name, k, -, rfl⟩ := (hexactly f).mp hf
    exact ⟨rfl, rfl⟩

/-- A list without a name is split like any other. -/
example :
    let rows := ["", "a", "", "a", ""].map fun list => Row.ofList [("list_name", list)]
    checkChoices ⟨"choices", ["list_name"], rows⟩ =
      [⟨"choices", 4, "", .splitList⟩, ⟨"choices", 5, "a", .splitList⟩] := by
  decide

end SurveyForms.Lint
