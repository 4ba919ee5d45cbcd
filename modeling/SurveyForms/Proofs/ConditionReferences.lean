import Mathlib.Data.List.ReduceOption
import SurveyForms.Proofs.DefinedNames
import SurveyForms.Proofs.Origins
import SurveyForms.Proofs.Visibility

/-! Variables of conditions. Main statement: the check finds in the relevance of a question the
variables on the left sides of the comparisons around it, as they are written in the sources, one
for one and from the outside in. -/
namespace SurveyForms

open Source (Lexeme Lexes Line comparisonSigns isIdentifier lexeme? reference seen)

namespace Lint

/-! References of a text that is put together from parts. -/

def namesIn (cs : List Char) : List String :=
  (Text.pieces opening cs).filterMap fun
    | .reference name => some (String.ofList name)
    | .plain _ => none

theorem namesIn_of_reference {cs name rest : List Char}
    (h : Text.reference? opening cs = some (name, rest)) :
    namesIn cs = String.ofList name :: namesIn rest := by
  rw [namesIn, Text.pieces]
  split
  · next hfound =>
    cases h.symm.trans hfound
    rfl
  · next hnone => cases h.symm.trans hnone

theorem namesIn_cons {c : Char} {cs : List Char} (h : ¬ opening <+: c :: cs) :
    namesIn (c :: cs) = namesIn cs := by
  have hnone : Text.reference? opening (c :: cs) = none :=
    if_neg (mt List.isPrefixOf_iff_prefix.mp h)
  rw [namesIn, Text.pieces]
  split
  · next hfound => cases hnone.symm.trans hfound
  · rfl

/-- A stretch in which no reference starts is passed over. -/
private theorem namesIn_append {cs rest : List Char}
    (h : ∀ b, b <:+ cs → b ≠ [] → ¬ opening <+: b ++ rest) :
    namesIn (cs ++ rest) = namesIn rest := by
  induction cs with
  | nil => rfl
  | cons c cs ih =>
    have hfirst : ¬ opening <+: c :: (cs ++ rest) := h _ List.suffix_rfl (List.cons_ne_nil c cs)
    rw [List.cons_append, namesIn_cons hfirst]
    exact ih fun b hb => h b (hb.trans (List.suffix_cons c cs))

theorem namesIn_append_of_not_mem {cs : List Char} (h : '$' ∉ cs) (rest : List Char) :
    namesIn (cs ++ rest) = namesIn rest := by
  refine namesIn_append fun b hb hne hstart => ?_
  obtain ⟨c, b, rfl⟩ := List.exists_cons_of_ne_nil hne
  obtain ⟨rfl, -⟩ := List.cons_prefix_cons.mp hstart
  exact h (hb.subset List.mem_cons_self)

/-- A text without an opening, even one that ends in a dollar sign, if no brace follows. -/
theorem namesIn_append_of_not_infix {cs rest : List Char} (h : ¬ opening <:+: cs)
    (hrest : rest.head? ≠ some '\x7b') : namesIn (cs ++ rest) = namesIn rest := by
  refine namesIn_append fun b hb hne hstart => ?_
  obtain ⟨c, b, rfl⟩ := List.exists_cons_of_ne_nil hne
  -- an opening takes up two characters, and the second may be the first of what follows
  cases b with
  | nil =>
    obtain ⟨-, hbrace⟩ := List.cons_prefix_cons.mp hstart
    obtain ⟨more, rfl⟩ := hbrace
    exact hrest rfl
  | cons d b =>
    obtain ⟨hc, hbrace⟩ := List.cons_prefix_cons.mp hstart
    obtain ⟨hd, -⟩ := List.cons_prefix_cons.mp hbrace
    exact h ((List.IsPrefix.isInfix ⟨b, by rw [opening, hc, hd]; rfl⟩).trans hb.isInfix)

theorem namesIn_reference_append {name : String} (h : isIdentifier name) (rest : List Char) :
    namesIn ((reference name).toList ++ rest) = name :: namesIn rest := by
  obtain ⟨c, cs, hname, -, -⟩ := Source.isIdentifier_iff.mp h
  have hclosed : '\x7d' ∉ name.toList := fun hmem =>
    absurd (Source.isIdentRest_of_mem h hmem) (by decide)
  have hfound : Text.reference? opening ((reference name).toList ++ rest) =
      some (name.toList, rest) := by
    refine Text.reference?_eq_some_iff.mpr ⟨by simp [hname], hclosed, ?_⟩
    simp [reference, opening]
  rw [namesIn_of_reference hfound, String.ofList_toList]

/-- A text in which these names are found whatever follows it, an opening brace apart. -/
def Reads (s : String) (names : List String) : Prop :=
  ∀ rest : List Char, rest.head? ≠ some '\x7b' →
    namesIn (s.toList ++ rest) = names ++ namesIn rest

theorem Reads.references_eq {s : String} {names : List String} (h : Reads s names) :
    references s = names := by
  have hnil : namesIn [] = [] := references_empty
  have hend := h [] (by simp)
  rwa [List.append_nil, hnil, List.append_nil] at hend

theorem Reads.both {a b : String} {names more : List String} (ha : Reads a names)
    (hb : Reads b more) : Reads (Scope.both a b) (names ++ more) := by
  intro rest hrest
  have hsplit : (Scope.both a b).toList ++ rest =
      ['('] ++ (a.toList ++ (") and (".toList ++ (b.toList ++ ([')'] ++ rest)))) := by
    simp [Scope.both]
  rw [hsplit, namesIn_append_of_not_mem (by decide), ha _ (by simp),
    namesIn_append_of_not_mem (by decide), hb _ (by simp), namesIn_append_of_not_mem (by decide),
    List.append_assoc]

private theorem reduceOption_cons (operand : Option String) (operands : List (Option String)) :
    (operand :: operands).reduceOption = operand.toList ++ operands.reduceOption := by
  rw [← List.reduceOption_singleton, ← List.reduceOption_append, List.singleton_append]

private theorem reads_foldl {first : String} {names : List String} (h : Reads first names)
    {others : List String} {operands : List (Option String)}
    (hothers : List.Forall₂ (fun s operand => Reads s operand.toList) others operands) :
    Reads (others.foldl Scope.both first) (names ++ operands.reduceOption) := by
  induction hothers generalizing first names with
  | nil => rwa [List.reduceOption_nil, List.append_nil]
  | @cons s operand others operands hs _ ih =>
    rw [reduceOption_cons, ← List.append_assoc]
    exact ih (h.both hs)

/-- A conjunction refers to what its conditions refer to, in their order. -/
theorem references_conjunction {conditions : List String} {operands : List (Option String)}
    (h : List.Forall₂ (fun s operand => Reads s operand.toList) conditions operands) :
    references ((conjunction conditions).getD "") = operands.reduceOption := by
  cases h with
  | nil => exact references_empty
  | @cons s operand others operands hs hothers =>
    rw [reduceOption_cons]
    exact (reads_foldl hs hothers).references_eq

end Lint

/-! Left sides of comparisons. -/

/-- The left side of a comparison as the form has it: a variable, or the answer itself. -/
def leftSide : Option String → String
  | some name => reference name
  | none => "."

/-- A comparison whose value starts no reference. -/
def Condition.IsPlain : Condition → Prop
  | .comparison _ _ value => ¬ Lint.opening <:+: value.toList
  | .literal _ => False

instance : DecidablePred Condition.IsPlain
  | .comparison _ _ value => inferInstanceAs (Decidable (¬ Lint.opening <:+: value.toList))
  | .literal _ => inferInstanceAs (Decidable False)

namespace Source.Lexeme

/-- A lexeme that stands for the left side of a comparison. In the braces of a variable there may
be blanks around its name; the dot may be quoted. -/
def Names (l : Lexeme) : Option String → Prop
  | some name => isIdentifier name ∧ ∃ before after : List Char,
      (∀ b ∈ before, Text.isPlainBlank b) ∧ (∀ b ∈ after, Text.isPlainBlank b) ∧
        l = ⟨.varRef, '$' :: '\x7b' :: before ++ name.toList ++ after ++ ['\x7d']⟩
  | none => l.value = "."

theorem Names.value_eq {l : Lexeme} {operand : Option String} (h : l.Names operand) :
    l.value = leftSide operand := by
  cases operand with
  | none => exact h
  | some name =>
    obtain ⟨hname, before, after, hbefore, hafter, rfl⟩ := h
    have hkept : name.toList.filter (!Text.isBlank ·) = name.toList :=
      List.filter_eq_self.mpr fun c hc => by
        simpa using not_isBlank_of_isIdentRest (isIdentRest_of_mem hname hc)
    have hdropped {blanks : List Char} (h : ∀ b ∈ blanks, Text.isPlainBlank b) :
        blanks.filter (!Text.isBlank ·) = [] :=
      List.filter_eq_nil_iff.mpr fun b hb => by simpa using isBlank_of_isPlainBlank (h b hb)
    have hmark : ['\x7d'].filter (!Text.isBlank ·) = ['\x7d'] := by decide
    have hraw : ('$' :: '\x7b' :: before ++ name.toList ++ after ++ ['\x7d']).filter
        (!Text.isBlank ·) = (reference name).toList := by
      rw [List.filter_append, List.filter_append, List.filter_append, hkept, hmark,
        hdropped hafter, List.filter_cons_of_pos (by decide), List.filter_cons_of_pos (by decide),
        hdropped hbefore]
      simp [reference]
    rw [leftSide, ← String.ofList_toList (s := reference name), ← hraw]
    rfl

/-- Every left side stands for a variable or the dot. -/
theorem exists_names {l : Lexeme} (hself : lexeme? l.raw = some l)
    (h : l.value ≠ "." → l.cls = .varRef) : ∃ operand, l.Names operand := by
  by_cases hdot : l.value = "."
  · exact ⟨none, hdot⟩
  have hcls := h hdot
  cases shape_of_lexeme? hself with
  | varRef hbody =>
    obtain ⟨before, c, more, after, rfl, hbefore, hc, hmore, hafter⟩ := hbody
    refine ⟨some (String.ofList (c :: more)), ?_, before, after, hbefore, hafter, ?_⟩
    · exact isIdentifier_iff.mpr ⟨c, more, String.toList_ofList, hc, hmore⟩
    · simp
  | comment | text | number | ident | punct | blank | pair | sign => cases hcls

theorem mem_comparisonSigns {l : Lexeme} (hself : lexeme? l.raw = some l)
    (hcls : l.cls = .operator) : l.value ∈ comparisonSigns := by
  cases shape_of_lexeme? hself with
  | pair hc | sign hc => rcases hc with rfl | rfl | rfl <;> decide
  | comment | varRef | text | number | ident | punct | blank => cases hcls

end Source.Lexeme

/-- A comparison of a left side with a value that starts no reference refers to the left side. -/
theorem Lint.reads_comparison {operand : Option String}
    (hname : ∀ name ∈ operand, isIdentifier name) {sign value : String}
    (hsign : sign ∈ comparisonSigns) (hvalue : ¬ opening <:+: value.toList) :
    Reads (Condition.comparison (leftSide operand) sign value).expression operand.toList := by
  intro rest hrest
  have hsigns : ∀ sign ∈ comparisonSigns, '$' ∉ (" " ++ sign ++ " ").toList := by decide
  have hsplit : (Condition.comparison (leftSide operand) sign value).expression.toList ++ rest =
      (leftSide operand).toList ++ ((" " ++ sign ++ " ").toList ++ (value.toList ++ rest)) := by
    simp [Condition.expression]
  have hbehind :
      namesIn ((" " ++ sign ++ " ").toList ++ (value.toList ++ rest)) = namesIn rest := by
    rw [namesIn_append_of_not_mem (hsigns sign hsign), namesIn_append_of_not_infix hvalue hrest]
  rw [hsplit]
  cases operand with
  | none =>
    rw [leftSide, namesIn_append_of_not_mem (by decide), hbehind]
    rfl
  | some name =>
    rw [leftSide, namesIn_reference_append (hname name rfl), hbehind]
    rfl

namespace Grammar

/-- A line that reads as a condition with this left side: the second lexeme of those that the
grammar sees. -/
def Asks (line : List Char) (c : Condition) (operand : Option String) : Prop :=
  parseLine surveyLine line = .ok (.conditional c) ∧
    ∃ ls left, Lexes line ls [] ∧ (seen ls)[1]? = some left ∧ left.Names operand

private theorem of_passes_operand {left : String} {t : Source.Token}
    (h : (Slot.operand left).Passes t) : t.value = left ∧ (left ≠ "." → t.cls = .varRef) := by
  unfold Slot.operand at h
  split at h
  · next hdot => exact ⟨h.1.trans hdot.symm, fun hne => absurd hdot hne⟩
  · exact ⟨h.1, fun _ => List.mem_singleton.mp (h.2 rfl)⟩

/-- What the grammar sees of a line that reads as a comparison: a word, the left side, the sign. -/
private theorem seen_comparison {line : List Char} {left sign value : String}
    (h : parseLine surveyLine line = .ok (.conditional (.comparison left sign value))) :
    ∃ ls, Lexes line ls [] ∧ ∃ word l s rest, seen ls = word :: l :: s :: rest ∧
      l.value = left ∧ (left ≠ "." → l.cls = .varRef) ∧ s.value = sign ∧ s.cls = .operator := by
  obtain ⟨ts, hts, hfills⟩ := forall₂_of_parseLine fills_surveyLine (congrArg Except.toOption h)
  obtain ⟨ls, hls, rfl⟩ := Source.tokens?_eq_some_iff.mp hts
  have hseen := Source.forall₂_tokensFrom 1 ls
  refine ⟨ls, hls, ?_⟩
  generalize Source.tokensFrom 1 ls = ts at hfills hseen
  generalize seen ls = found at hseen
  obtain _ | ⟨_, _ | ⟨hleft, _ | ⟨hsign, _⟩⟩⟩ := hfills
  obtain _ | ⟨_, _ | ⟨⟨hlclass, hlvalue⟩, _ | ⟨⟨hsclass, hsvalue⟩, _⟩⟩⟩ := hseen
  obtain ⟨hvalue, hclass⟩ := of_passes_operand hleft
  exact ⟨_, _, _, _, rfl, hlvalue.trans hvalue, fun hdot => hlclass.trans (hclass hdot),
    hsvalue.trans hsign.1, hsclass.trans (List.mem_singleton.mp (hsign.2 rfl))⟩

/-- A line that reads as a comparison has a left side. -/
theorem exists_asks {line : List Char} {left sign value : String}
    (h : parseLine surveyLine line = .ok (.conditional (.comparison left sign value))) :
    ∃ operand, Asks line (.comparison left sign value) operand := by
  obtain ⟨ls, hls, word, l, s, rest, hseen, rfl, hclass, -, -⟩ := seen_comparison h
  have hl : l ∈ ls := (Source.mem_seen.mp (by simp [hseen])).1
  obtain ⟨operand, hoperand⟩ := Lexeme.exists_names (hls.self_of_mem l hl) hclass
  exact ⟨operand, h, ls, l, hls, by simp [hseen], hoperand⟩

theorem Asks.reads {line : List Char} {c : Condition} {operand : Option String}
    (h : Asks line c operand) (hplain : c.IsPlain) :
    Lint.Reads c.expression operand.toList := by
  obtain ⟨hparse, ls, l, hls, hsecond, hnames⟩ := h
  cases c with
  | literal value => cases hplain
  | comparison left sign value =>
    obtain ⟨ls', hls', word, l', s, rest, hseen, rfl, -, rfl, hcls⟩ := seen_comparison hparse
    -- a line is lexed in one way, so what is seen second there is what the condition was made of
    obtain ⟨rfl, -⟩ := hls.unique hls'
    have hs : s ∈ ls := (Source.mem_seen.mp (by simp [hseen])).1
    obtain rfl : l' = l := by simpa [hseen] using hsecond
    rw [hnames.value_eq]
    refine Lint.reads_comparison (fun name hname => ?_)
      (Lexeme.mem_comparisonSigns (hls.self_of_mem s hs) hcls) hplain
    cases hname
    exact hnames.1

end Grammar

/-! Conditions of a form. -/

/-- A condition with its left side, as a line of a survey text that the form is made from has
it. -/
def Sources.Asks (s : Sources) (name src : String) (c : Condition) (operand : Option String) :
    Prop :=
  ∃ file text, s.Uses name src .survey file text ∧
    ∃ l ∈ Line.ofSource (Source.foldContinuations text), Grammar.Asks l.text c operand

/-- The condition of a block that a step goes into. -/
def FormStep.test : FormStep → Option Condition
  | .within (.conditional c) => some c
  | _ => none

/-- The conditions of the blocks that a way went into since it last entered a group. -/
def pendingTests (way : List FormStep) : List Condition :=
  (way.rtakeWhile (!·.entersGroup)).filterMap FormStep.test

theorem pendingConditions_eq (way : List FormStep) :
    pendingConditions way = (pendingTests way).map Condition.expression := by
  rw [pendingConditions, pendingTests, List.map_filterMap]
  refine List.filterMap_congr fun step hstep => ?_
  have hpasses := List.mem_rtakeWhile_imp hstep
  cases step with
  | required => rfl
  | within part =>
    cases part with
    | conditional | included => rfl
    | group => cases hpasses

variable {s : Sources} {name src : String}

theorem FormSection.IsFrom.exists_asks {left sign value : String}
    (h : (FormSection.conditional (.comparison left sign value)).IsFrom s name src) :
    ∃ operand, s.Asks name src (.comparison left sign value) operand := by
  generalize hpart : FormSection.conditional (.comparison left sign value) = part at h
  cases h with
  | included => cases hpart
  | @header f header hf hh =>
    obtain ⟨file, text, huses, hread⟩ := hf
    obtain ⟨l, hl, hline⟩ := (Forest.each_iff.mp (Survey.each_read hread)).2 header hh
    cases header with
    | group => cases hpart
    | conditional pos c =>
      cases hpart
      obtain ⟨operand, hasks⟩ := Grammar.exists_asks hline
      exact ⟨operand, file, text, huses, l, hl, hasks⟩

/-- Pending conditions stand on lines of the texts that the form is made from. -/
private theorem exists_asks_of_mem_pendingTests {way : List FormStep}
    (hway : ∀ step ∈ way, step.Each (FormSection.IsFrom s name src)) {c : Condition}
    (hc : c ∈ pendingTests way) (hplain : c.IsPlain) : ∃ operand, s.Asks name src c operand := by
  obtain ⟨step, hstep, htest⟩ := List.mem_filterMap.mp hc
  have hfrom := hway step ((List.rtakeWhile_suffix _ way).subset hstep)
  cases step with
  | required => cases htest
  | within part =>
    cases part with
    | group | included => cases htest
    | conditional c' =>
      cases htest
      cases c with
      | literal => cases hplain
      | comparison => exact hfrom.exists_asks

theorem Sources.Asks.reads {c : Condition} {operand : Option String} (h : s.Asks name src c operand)
    (hplain : c.IsPlain) : Lint.Reads c.expression operand.toList := by
  obtain ⟨file, text, -, l, -, hasks⟩ := h
  exact hasks.reads hplain

/-- The check sees the variables that the conditions of a question mention. These are the
conditions of the blocks around it up to its innermost group; if all of them are comparisons with
values that start no reference, and the question has no condition of its own, then what its
relevance refers to are the variables on the left sides, from the outside in and as often as they
stand there. -/
theorem Form.condition_variables_found {now : Moment} {form : Form}
    (h : Form.CompiledFrom s now name src form) :
    (∃ tree, s.ResolvedText name src tree) ∧ ∀ tree, s.ResolvedText name src tree →
      form.survey = (tree.occurrences []).map Occurrence.row ∧
      ∀ o ∈ tree.occurrences [], ∀ q, o.entry = .question q → pairCondition q.params = none →
        (∀ c ∈ pendingTests o.way, c.IsPlain) →
          (∃ operands, List.Forall₂ (s.Asks name src) (pendingTests o.way) operands) ∧
          ∀ operands, List.Forall₂ (s.Asks name src) (pendingTests o.way) operands →
            Lint.references (o.row.text Scope.relevanceKey) = operands.reduceOption := by
  obtain ⟨tree, htree, rfl⟩ := Form.exists_resolvedText_of_ofText h.result_ofText
  refine ⟨⟨tree, htree⟩, fun other hother => ?_⟩
  obtain rfl := htree.unique hother
  refine ⟨tree.survey_expand now [], fun o ho q hq hown hplain => ⟨?_, fun operands hasks => ?_⟩⟩
  · have hway := (FormTree.each_occurrences htree.each (List.forall_mem_nil _) o ho).2
    choose! operand hasks using fun c hc => exists_asks_of_mem_pendingTests hway hc (hplain c hc)
    exact ⟨_, List.forall₂_map_right_iff.mpr (List.forall₂_same.mpr hasks)⟩
  · have hconditions : o.conditions = (pendingTests o.way).map Condition.expression := by
      rw [Occurrence.conditions, hq, FormEntry.ownCondition, hown, Option.toList_none,
        List.append_nil, pendingConditions_eq]
    rw [Row.text, o.row_relevance (by simp [hq]), hconditions]
    refine Lint.references_conjunction (List.forall₂_map_left_iff.mpr ?_)
    exact ((List.forall₂_and_left _ _).mpr ⟨hplain, hasks⟩).imp fun c operand h => h.2.reads h.1

/-- A question below three conditions in a group with a fourth; the innermost stands in a file. -/
def testedSource : String :=
  "group g if $\x7bz\x7d = 1:\n  if . > 1:\n    if $\x7b a \x7d = \"x$\": # note\n" ++
    "      @include p N 2"

def testedFiles : FileSet :=
  .ofList [("/p", "if $\x7bb\x7d != $\x7b!N\x7d:\n  q text:")]

def testedForm : Form where
  survey :=
    [.ofList [("type", "begin group"), ("name", "g"), ("relevance", "$\x7bz\x7d = 1")],
      .ofList [("type", "text"), ("name", "q"),
        ("relevance", "((. > 1) and ($\x7ba\x7d = x$)) and ($\x7bb\x7d != 2)")],
      .ofList [("type", "end group"), ("name", "g")]]
  choices := []
  settings := none

def testedConditions : List Condition :=
  [.comparison "." ">" "1", .comparison (reference "a") "=" "x$",
    .comparison (reference "b") "!=" "2"]

theorem testedForm_variables_found :
    ∃ row ∈ testedForm.survey, ∃ operands,
      List.Forall₂ (testedFiles.sources.Asks "/form" testedSource) testedConditions operands ∧
      Lint.references (row.text Scope.relevanceKey) = operands.reduceOption ∧
      operands.reduceOption = ["a", "b"] := by
  let g : Group :=
    ⟨⟨"/form", 1, 1⟩, .group, "g", none, [], some (.comparison (reference "z") "=" "1")⟩
  let q : Question := ⟨⟨"/p", 2, 3⟩, "q", ["text"], none, []⟩
  let survey : Survey := .block (.group g)
    (.block (.conditional ⟨"/form", 2, 3⟩ (.comparison "." ">" "1"))
      (.block (.conditional ⟨"/form", 3, 5⟩ (.comparison (reference "a") "=" "x$"))
        (.leaf (.command ⟨⟨"/form", 4, 7⟩, "include", "p", ["N", "2"]⟩) .nil) .nil) .nil) .nil
  let tree : FormTree := .block (.group g)
    (.block (.conditional (.comparison "." ">" "1"))
      (.block (.conditional (.comparison (reference "a") "=" "x$"))
        (.block .included
          (.block (.conditional (.comparison (reference "b") "!=" "2"))
            (.leaf (.question q) .nil) .nil) .nil) .nil) .nil) .nil
  have hcompiles : (Form.ofText testedFiles.sources ⟨0, 0⟩ "/form" testedSource).result =
      .ok testedForm := eq_ok_of_toOption (by decide +kernel)
  have hread : Survey.ofSource "/form" testedSource = .ok survey :=
    eq_ok_of_toOption (by decide +kernel)
  have htree : (FormTree.ofSurvey testedFiles.sources ["/form"] survey).result = .ok tree :=
    eq_ok_of_toOption (by decide +kernel)
  let o : Occurrence := ⟨[.within (.group g), .within (.conditional (.comparison "." ">" "1")),
    .within (.conditional (.comparison (reference "a") "=" "x$")), .within .included,
    .within (.conditional (.comparison (reference "b") "!=" "2"))], .question q⟩
  have ho : o ∈ tree.occurrences [] := by decide +kernel
  have hplain : ∀ c ∈ pendingTests o.way, c.IsPlain := by decide +kernel
  obtain ⟨-, hall⟩ := Form.condition_variables_found (.text hcompiles)
  obtain ⟨hrows, hfound⟩ := hall tree ⟨survey, hread, Survey.resolves_of_ofSurvey _ _ _ _ htree⟩
  obtain ⟨⟨operands, hasks⟩, hreferences⟩ := hfound o ho q rfl rfl hplain
  refine ⟨o.row, ?_, operands, hasks, hreferences operands hasks, ?_⟩
  · rw [hrows]
    exact List.mem_map_of_mem ho
  · rw [← hreferences operands hasks]
    decide +kernel

end SurveyForms
