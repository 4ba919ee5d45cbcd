import SurveyForms.Proofs.Blocks
import SurveyForms.Proofs.ChoiceRows
import SurveyForms.Proofs.Layout

/-! Where the parts of a form come from. Main statement: whatever stands in the tree of a form,
included files and choices in their places, is a statement of a text that the form is made from;
and statements are read from single lines. -/
namespace SurveyForms

open Source (Line)

namespace Forest

variable {P : α → Prop} {Q : β → Prop}

/-- What holds of all statements without a body and of all headers. -/
def Each (P : α → Prop) (Q : β → Prop) : Forest α β → Prop
  | .nil => True
  | .leaf a rest => P a ∧ rest.Each P Q
  | .block h body rest => Q h ∧ body.Each P Q ∧ rest.Each P Q

/-- The headers in source order, those inside blocks in their places. -/
def headers : Forest α β → List β
  | .nil => []
  | .leaf _ rest => rest.headers
  | .block h body rest => h :: (body.headers ++ rest.headers)

theorem each_iff {f : Forest α β} :
    f.Each P Q ↔ (∀ a ∈ f.leaves, P a) ∧ ∀ h ∈ f.headers, Q h := by
  induction f with
  | nil => simp [Each, leaves, headers]
  | leaf a rest ih => rw [Each, ih, leaves, headers, List.forall_mem_cons, and_assoc]
  | block h body rest ihb ihr =>
    rw [Each, ihb, ihr, leaves, headers, List.forall_mem_cons, List.forall_mem_append,
      List.forall_mem_append]
    tauto

theorem each_mem (f : Forest α β) : f.Each (· ∈ f.leaves) (· ∈ f.headers) :=
  each_iff.mpr ⟨fun _ => id, fun _ => id⟩

theorem Each.append {f g : Forest α β} (hf : f.Each P Q) (hg : g.Each P Q) : (f ++ g).Each P Q := by
  induction f with
  | nil => exact hg
  | leaf a rest ih => exact ⟨hf.1, ih hf.2⟩
  | block h body rest _ ihr => exact ⟨hf.1, hf.2.1, ihr hf.2.2⟩

theorem Each.imp {P' : α → Prop} {Q' : β → Prop} {f : Forest α β} (h : f.Each P Q)
    (hP : ∀ a, P a → P' a) (hQ : ∀ b, Q b → Q' b) : f.Each P' Q' := by
  rw [each_iff] at h ⊢
  exact ⟨fun a ha => hP a (h.1 a ha), fun b hb => hQ b (h.2 b hb)⟩

end Forest

/-- What holds of all that a line may contribute, with a body below it or without. -/
def Entry.Each (P : α → Prop) (Q : β → Prop) : Entry α β → Prop
  | .leaf a => P a
  | .header h bodiless _ => Q h ∧ ∀ a ∈ bodiless, P a

namespace LineReader

variable {reader : LineReader α β} {P : α → Prop} {Q : β → Prop}

/-- What holds of all that the lines of a block contribute holds of its statements. -/
theorem each_of_reads {col : Nat} {ls : List Line} {f : Forest α β}
    (hcomment : ∀ l ∈ ls, P (reader.comment l))
    (hentry : ∀ l ∈ ls, ∀ e, (reader.entry l).toOption = some e → e.Each P Q)
    (hf : reader.Reads col ls f) : f.Each P Q := by
  have hinner (p : Line → Bool) {ls : List Line} {R : Line → Prop} (h : ∀ l ∈ ls, R l) :
      ∀ l ∈ ls.takeWhile p, R l := fun l hl => h l (List.takeWhile_subset _ hl)
  have hafter (p : Line → Bool) {ls : List Line} {R : Line → Prop} (h : ∀ l ∈ ls, R l) :
      ∀ l ∈ ls.dropWhile p, R l := fun l hl => h l ((List.dropWhile_suffix p).subset hl)
  induction hf with
  | nil => trivial
  | comment _ _ ih =>
    obtain ⟨hl, hls⟩ := List.forall_mem_cons.mp hcomment
    exact ⟨hl, ih hls (List.forall_mem_cons.mp hentry).2⟩
  | leaf _ he _ ih =>
    obtain ⟨hl, hls⟩ := List.forall_mem_cons.mp hentry
    exact ⟨hl _ (congrArg Except.toOption he), ih (List.forall_mem_cons.mp hcomment).2 hls⟩
  | block _ he _ _ _ ihbody ihrest =>
    have hcomment := (List.forall_mem_cons.mp hcomment).2
    obtain ⟨hl, hls⟩ := List.forall_mem_cons.mp hentry
    exact ⟨(hl _ (congrArg Except.toOption he)).1, ihbody (hinner _ hcomment) (hinner _ hls),
      ihrest (hafter _ hcomment) (hafter _ hls)⟩
  | bodiless _ he _ _ _ _ ihrest =>
    have hcomment := (List.forall_mem_cons.mp hcomment).2
    obtain ⟨hl, hls⟩ := List.forall_mem_cons.mp hentry
    exact ⟨(hl _ (congrArg Except.toOption he)).2 _ rfl,
      ihrest (hafter _ hcomment) (hafter _ hls)⟩

theorem each_of_forest {file src : String} {f : Forest α β}
    (hcomment : ∀ l ∈ Line.ofSource src, P (reader.comment l))
    (hentry : ∀ l ∈ Line.ofSource src, ∀ e, (reader.entry l).toOption = some e → e.Each P Q)
    (hf : reader.forest file src = .ok f) : f.Each P Q :=
  each_of_reads hcomment hentry ((reads_iff file).mpr hf)

end LineReader

/-- The statements of a survey text are read from lines of it. A header line with nothing below it
may have been read as a question. -/
theorem Survey.each_read {file text : String} {f : Survey}
    (h : Survey.ofSource file text = .ok f) :
    f.Each
      (fun leaf => ∀ line ∈ leaf.line?, ∃ l ∈ Line.ofSource (Source.foldContinuations text),
        Grammar.parseLine Grammar.surveyLine l.text = .ok line ∨
          Grammar.parseLine Grammar.questionLine l.text = .ok line)
      (fun header => ∃ l ∈ Line.ofSource (Source.foldContinuations text),
        Grammar.parseLine Grammar.surveyLine l.text = .ok header.line) := by
  have hforest : (surveyReader file).forest file (Source.foldContinuations text) = .ok f := h
  refine LineReader.each_of_forest (fun l _ => ?_) (fun l hl e he => ?_) hforest
  · rintro _ ⟨⟩
  simp only [surveyReader] at he
  cases hline : Grammar.parseLine Grammar.surveyLine l.text with
  | error d => rw [hline] at he; cases he
  | ok line =>
    rw [hline] at he
    cases line with
    | command | question =>
      cases he
      rintro _ ⟨⟩
      exact ⟨l, hl, .inl hline⟩
    | conditional =>
      cases he
      refine ⟨⟨l, hl, hline⟩, ?_⟩
      rintro _ ⟨⟩
    | group =>
      cases he
      refine ⟨⟨l, hl, hline⟩, fun a ha => ?_⟩
      unfold bodilessQuestion at ha
      split at ha
      · split at ha
        · next hquestion =>
          cases ha
          rintro _ ⟨⟩
          exact ⟨l, hl, .inr hquestion⟩
        · cases ha
      · cases ha

namespace Sources

/-- The texts that a form is made from, each with its file: the text of the survey, and the text
that stands for a command of such a text. -/
inductive Uses (s : Sources) (name src : String) : Dialect → String → String → Prop
  | survey : Uses s name src .survey name src
  | command {d d' : Dialect} {file text text' : String} {cs : List Command} {c : Command}
      {bindings : Row} (h : Uses s name src d file text) (hread : d.commands file text = .ok cs)
      (hc : c ∈ cs) (hrequest : c.request d = .ok (some (d', bindings)))
      (hsrc : s.Supplies c text') : Uses s name src d' c.target text'

/-- A survey text that a form is made from, as it was read. -/
def UsesSurvey (s : Sources) (name src : String) (f : Survey) : Prop :=
  ∃ file text, s.Uses name src .survey file text ∧ Survey.ofSource file text = .ok f

/-- A choices text that a form is made from, as it was read. -/
def UsesChoices (s : Sources) (name src : String) (f : Choices) : Prop :=
  ∃ file text, s.Uses name src .choices file text ∧ Choices.ofText file text = .ok f

end Sources

variable {s : Sources} {name src : String}

theorem Sources.UsesSurvey.command {f : Survey} (h : s.UsesSurvey name src f) {c : Command}
    (hc : .command c ∈ f.leaves) {d : Dialect} {bindings : Row} {text : String}
    (hrequest : c.request .survey = .ok (some (d, bindings))) (hsrc : s.Supplies c text) :
    s.Uses name src d c.target text := by
  obtain ⟨file, src', huses, hread⟩ := h
  exact huses.command (Dialect.commands_survey hread) (List.mem_filterMap.mpr ⟨_, hc, rfl⟩)
    hrequest hsrc

theorem Sources.UsesChoices.included {f : Choices} (h : s.UsesChoices name src f) {c : Command}
    (hc : .command c ∈ f.leaves) (hname : c.name = "include") {text : String} {file : Choices}
    (hsrc : s.Supplies c text) (hfile : Choices.ofText c.target text = .ok file) :
    s.UsesChoices name src file := by
  obtain ⟨path, src', huses, hread⟩ := h
  obtain ⟨bindings, _, hbindings, _⟩ := id hsrc
  have hrequest : c.request .choices = .ok (some (.choices, bindings)) := by
    rw [Command.request, if_pos hname, hbindings]
    rfl
  exact ⟨_, _, huses.command (Dialect.commands_choices hread)
    (List.mem_filterMap.mpr ⟨_, hc, rfl⟩) hrequest hsrc, hfile⟩

/-- An entry that is one of a choices text that the form is made from. -/
def Choice.IsFrom (s : Sources) (name src : String) (c : Choice) : Prop :=
  ∃ f : Choices, s.UsesChoices name src f ∧ .choice c ∈ f.leaves

/-- A list that is one of a choices text that the form is made from. -/
def ChoiceList.IsFrom (s : Sources) (name src : String) (l : ChoiceList) : Prop :=
  ∃ f : Choices, s.UsesChoices name src f ∧ l ∈ f.headers

/-- What a statement of a survey text gives that the form is made from. -/
inductive FormItem.IsFrom (s : Sources) (name src : String) : FormItem → Prop
  | question {f : Survey} {q : Question} (hf : s.UsesSurvey name src f)
      (hq : .question q ∈ f.leaves) : IsFrom s name src (.question q)
  | required {f : Survey} {c : Command} (hf : s.UsesSurvey name src f)
      (hc : .command c ∈ f.leaves) : IsFrom s name src (.required c.first)
  | settings {f : Survey} {c : Command} {settings : FormSettings} (hf : s.UsesSurvey name src f)
      (hc : .command c ∈ f.leaves) (h : c.formSettings = .ok settings) :
      IsFrom s name src (.settings settings)
  | choices {tree : ChoiceTree} (h : tree.Each (Choice.IsFrom s name src)
      (ChoiceList.IsFrom s name src)) : IsFrom s name src (.choices tree)

/-- A header of a survey text that the form is made from, or the boundary of an included file. -/
inductive FormSection.IsFrom (s : Sources) (name src : String) : FormSection → Prop
  | header {f : Survey} {h : SurveyHeader} (hf : s.UsesSurvey name src f) (hh : h ∈ f.headers) :
      IsFrom s name src h.part
  | included : IsFrom s name src .included

private theorem Choices.Resolves.each {choices : Choices} {tree : ChoiceTree}
    (h : choices.Resolves s tree) {whole : Choices} (hwhole : s.UsesChoices name src whole)
    (hpart : choices.Each (· ∈ whole.leaves) (· ∈ whole.headers)) :
    tree.Each (Choice.IsFrom s name src) (ChoiceList.IsFrom s name src) := by
  induction h generalizing whole with
  | nil => trivial
  | comment _ ih => exact ih hwhole hpart.2
  | choice _ ih => exact ⟨⟨whole, hwhole, hpart.1⟩, ih hwhole hpart.2⟩
  | list _ _ ihb iht =>
    exact ⟨⟨whole, hwhole, hpart.1⟩, ihb hwhole hpart.2.1, iht hwhole hpart.2.2⟩
  | included hname hsrc hfile _ _ ihb iht =>
    have hused := hwhole.included hpart.1 hname hsrc hfile
    exact (ihb hused (Forest.each_mem _)).append (iht hwhole hpart.2)

/-- Part of a survey text stands for a tree of statements of texts that the form is made from. -/
private theorem Survey.Resolves.each {survey : Survey} {tree : FormTree}
    (h : survey.Resolves s tree) {whole : Survey} (hwhole : s.UsesSurvey name src whole)
    (hpart : survey.Each (· ∈ whole.leaves) (· ∈ whole.headers)) :
    tree.Each (FormItem.IsFrom s name src) (FormSection.IsFrom s name src) := by
  -- On the resolution. The text around the statements changes where a file is put in.
  induction h generalizing whole with
  | nil => trivial
  | comment _ ih => exact ih hwhole hpart.2
  | question _ ih => exact ⟨.question hwhole hpart.1, ih hwhole hpart.2⟩
  | form _ hsettings _ ih => exact ⟨.settings hwhole hpart.1 hsettings, ih hwhole hpart.2⟩
  | required _ _ _ ih => exact ⟨.required hwhole hpart.1, ih hwhole hpart.2⟩
  | @choices c text file entries _ _ hname hsrc hfile hentries _ ih =>
    obtain ⟨bindings, _, hbindings, _⟩ := id hsrc
    have hrequest : c.request .survey = .ok (some (.choices, bindings)) := by
      simp only [Command.request, hname, hbindings, Except.map]
    have hused : s.UsesChoices name src file :=
      ⟨_, _, hwhole.command hpart.1 hrequest hsrc, hfile⟩
    exact ⟨.choices (hentries.each hused (Forest.each_mem _)), ih hwhole hpart.2⟩
  | @included c text file _ _ _ hname hsrc hfile _ _ ihb iht =>
    obtain ⟨bindings, _, hbindings, _⟩ := id hsrc
    have hrequest : c.request .survey = .ok (some (.survey, bindings)) := by
      simp only [Command.request, hname, hbindings, Except.map]
    have hused : s.UsesSurvey name src file :=
      ⟨_, _, hwhole.command hpart.1 hrequest hsrc, hfile⟩
    exact ⟨.included, ihb hused (Forest.each_mem _), iht hwhole hpart.2⟩
  | block _ _ ihb iht =>
    exact ⟨.header hwhole hpart.1, ihb hwhole hpart.2.1, iht hwhole hpart.2.2⟩

/-- All parts of the tree of a form come from the texts that the form is made from. -/
theorem Sources.ResolvedText.each {tree : FormTree} (h : s.ResolvedText name src tree) :
    tree.Each (FormItem.IsFrom s name src) (FormSection.IsFrom s name src) := by
  obtain ⟨survey, hread, hresolves⟩ := h
  exact hresolves.each ⟨name, src, .survey, hread⟩ survey.each_mem

/-! The rows of a tree are made from its parts. -/

section Rows

variable {P : FormItem → Prop} {Q : FormSection → Prop}

/-- What an entry is made from. -/
def FormEntry.Each (P : FormItem → Prop) (Q : FormSection → Prop) : FormEntry → Prop
  | .question q => P (.question q)
  | .opening g | .closing g => Q (.group g)

/-- A step into a part. -/
def FormStep.Each (Q : FormSection → Prop) : FormStep → Prop
  | .required _ => True
  | .within part => Q part

/-- The entries of a tree and the steps on the way to them are parts of the tree. -/
theorem FormTree.each_occurrences {tree : FormTree} (h : tree.Each P Q) {way : List FormStep}
    (hway : ∀ step ∈ way, step.Each Q) :
    ∀ o ∈ tree.occurrences way, o.entry.Each P Q ∧ ∀ step ∈ o.way, step.Each Q := by
  induction tree generalizing way with
  | nil => exact List.forall_mem_nil _
  | leaf item rest ih =>
    obtain ⟨hitem, hrest⟩ := h
    cases item with
    | question q => exact List.forall_mem_cons.mpr ⟨⟨hitem, hway⟩, ih hrest hway⟩
    | required value =>
      exact ih hrest (List.forall_mem_append.mpr ⟨hway, List.forall_mem_singleton.mpr trivial⟩)
    | settings f | choices c => exact ih hrest hway
  | block part body rest ihb ihr =>
    obtain ⟨hpart, hbody, hrest⟩ := h
    have hinner : ∀ step ∈ way ++ [.within part], step.Each Q :=
      List.forall_mem_append.mpr ⟨hway, List.forall_mem_singleton.mpr hpart⟩
    cases part with
    | conditional condition | included =>
      exact List.forall_mem_append.mpr ⟨ihb hbody hinner, ihr hrest hway⟩
    | group g =>
      exact List.forall_mem_append.mpr
        ⟨List.forall_mem_cons.mpr ⟨⟨hpart, hway⟩, ihb hbody hinner⟩,
          List.forall_mem_cons.mpr ⟨⟨hpart, hway⟩, ihr hrest hway⟩⟩

theorem FormTree.each_choiceTrees {tree : FormTree} (h : tree.Each P Q) :
    ∀ c ∈ tree.choiceTrees, P (.choices c) := by
  induction tree with
  | nil => exact List.forall_mem_nil _
  | leaf item rest ih =>
    obtain ⟨hitem, hrest⟩ := h
    cases item with
    | choices c => exact List.forall_mem_cons.mpr ⟨hitem, ih hrest⟩
    | question q | required value | settings f => exact ih hrest
  | block part body rest ihb ihr =>
    exact List.forall_mem_append.mpr ⟨ihb h.2.1, ihr h.2.2⟩

theorem ChoiceTree.each_entries {P : Choice → Prop} {Q : ChoiceList → Prop} {tree : ChoiceTree}
    (h : tree.Each P Q) {lists : List ChoiceList} (hlists : ∀ l ∈ lists, Q l) :
    ∀ e ∈ tree.entries lists, P e.choice ∧ ∀ l ∈ e.lists, Q l := by
  induction tree generalizing lists with
  | nil => exact List.forall_mem_nil _
  | leaf c rest ih => exact List.forall_mem_cons.mpr ⟨⟨h.1, hlists⟩, ih h.2 hlists⟩
  | block l body rest ihb ihr =>
    obtain ⟨hlist, hbody, hrest⟩ := h
    have hinner : ∀ l' ∈ lists ++ [l], Q l' :=
      List.forall_mem_append.mpr ⟨hlists, List.forall_mem_singleton.mpr hlist⟩
    exact List.forall_mem_append.mpr ⟨ihb hbody hinner, ihr hrest hlists⟩

end Rows
end SurveyForms
