import SurveyForms.Proofs.Renaming

/-! Forms of renamed files. Main result: compiling files under other names gives the same form, or
the same error at the same place of the renamed file. -/
namespace SurveyForms

open Session (Met Step Reaches step_of_run)

def ChoiceTree.renamed (tree : ChoiceTree) (f : String → String) : ChoiceTree :=
  tree.map (·.renamed f) (·.renamed f)

def FormItem.renamed (item : FormItem) (f : String → String) : FormItem :=
  match item with
  | .question q => .question (q.renamed f)
  | .required value => .required value
  | .settings given => .settings given
  | .choices tree => .choices (tree.renamed f)

def FormSection.renamed (part : FormSection) (f : String → String) : FormSection :=
  match part with
  | .conditional condition => .conditional condition
  | .group g => .group (g.renamed f)
  | .included => .included

def FormTree.renamed (tree : FormTree) (f : String → String) : FormTree :=
  tree.map (·.renamed f) (·.renamed f)

section

variable (f : String → String)

theorem ChoiceTree.rows_renamed (tree : ChoiceTree) (scope : Scope) :
    (tree.renamed f).rows scope = tree.rows scope := by
  induction tree generalizing scope with
  | nil => rfl
  | leaf c rest ih => exact congrArg (c.row scope :: ·) (ih scope)
  | block l body rest ihbody ihrest =>
    exact congrArg₂ (· ++ ·) (ihbody (l.scope scope)) (ihrest scope)

/-- The rows of a form do not tell which files they come from. -/
theorem FormTree.expand_renamed (tree : FormTree) (now : Moment) (scope : Scope) :
    (tree.renamed f).expand now scope = tree.expand now scope := by
  induction tree generalizing scope with
  | nil => rfl
  | leaf item rest ih =>
    cases item with
    | question q => exact congrArg (Form.append ⟨[q.row scope], [], none⟩) (ih scope)
    | required value => exact ih _
    | settings given => exact congrArg (Form.append ⟨[], [], _⟩) (ih scope)
    | choices choices =>
      show Form.append ⟨[], (choices.renamed f).rows ∅, none⟩ _ = _
      rw [choices.rows_renamed]
      exact congrArg (Form.append _) (ih scope)
  | block part body rest ihbody ihrest =>
    cases part with
    | conditional condition => exact congrArg₂ Form.append (ihbody _) (ihrest scope)
    | group g =>
      refine congrArg (Form.append ⟨[g.openingRow scope], [], none⟩) ?_
      exact congrArg₂ Form.append (ihbody _) (congrArg (Form.append _) (ihrest scope))
    | included =>
      refine congrArg₂ Form.append ?_ (ihrest scope)
      exact congrArg (fun form : Form => { form with settings := none }) (ihbody scope)

theorem Forest.map_append (g : α → γ) (h : β → δ) (a b : Forest α β) :
    (a ++ b).map g h = a.map g h ++ b.map g h := by
  induction a with
  | nil => rfl
  | leaf s rest ih => exact congrArg (Forest.leaf (g s)) ih
  | block s body rest _ ih => exact congrArg (Forest.block (h s) _) ih

end

variable {s s' : Sources} {f : String → String} {here : String → Prop}

/-- A session that does not fail, and whose commands keep to their files. -/
structure Session.Sound (s : Sources) (f : String → String) (here : String → Prop) (a : Session) :
    Prop where
  met : ∀ c, Met s a c → c.Renames f here
  unfailing : ∀ b e, Reaches s a b → b.next s ≠ some (.error e)

theorem Session.step_leave (q : String) (chain : List String) (c : Command) (rest : List Task) :
    Step s ⟨q :: chain, .leave c :: rest⟩ ⟨chain, rest⟩ := rfl

namespace Session.Sound

theorem of_reaches {a b : Session} (ha : a.Sound s f here) (hreach : Reaches s a b) :
    b.Sound s f here := by
  refine ⟨fun c hc => ?_, fun c e hc => ha.unfailing c e (hreach.trans hc)⟩
  obtain ⟨d, chain, rest, r, hb, hrequest⟩ := hc
  exact ha.met c ⟨d, chain, rest, r, hreach.trans hb, hrequest⟩

/-- Where nothing fails, a command opens its file and the commands of the file come next. -/
theorem opens {chain : List String} {d d' : Dialect} {c : Command} {rest : List Task}
    (ha : Session.Sound s f here ⟨chain, .command d c :: rest⟩) {bindings : Row}
    (hrequest : c.request d = .ok (some (d', bindings))) {text src : String} {cs : List Command}
    (htext : s.text c.target = .ok text)
    (hsubst : Source.substitute c.target text bindings = .ok src)
    (hcs : d'.commands c.target src = .ok cs) :
    Reaches s ⟨chain, .command d c :: rest⟩
      ⟨s.canonical c.target :: chain, cs.map (.command d') ++ .leave c :: rest⟩ := by
  have hopen : s.canonical c.target ∉ chain := by
    intro hopen
    have hfails : ∃ e, (Task.command d c).run s chain = .error e := by
      simp only [Task.run, hrequest, if_pos hopen]
      exact ⟨_, rfl⟩
    obtain ⟨e, hrun⟩ := hfails
    exact ha.unfailing _ (e.passed rest) .refl (by simp only [next, hrun])
  have hcommand : (Task.command d c).run s chain =
      .ok (s.canonical c.target :: chain, [.load d' c bindings, .leave c]) := by
    simp only [Task.run, hrequest, if_neg hopen]
  have hload : (Task.load d' c bindings).run s (s.canonical c.target :: chain) =
      .ok (s.canonical c.target :: chain, cs.map (.command d')) := by
    simp only [Task.run, htext, hsubst, hcs]
  exact (Relation.ReflTransGen.single (step_of_run hcommand rest)).tail
    (step_of_run hload (.leave c :: rest))

end Session.Sound

theorem Sources.Supplies.renamed (h : s.Renames s' f here) {c : Command} (hc : c.Renames f here)
    {src : String} (hsrc : s.Supplies c src) : s'.Supplies (c.renamed f) src := by
  obtain ⟨bindings, text, hbindings, htext, hsubst⟩ := hsrc
  refine ⟨bindings, text, ?_, ?_, ?_⟩
  · exact (c.bindings_renamed f c.others).trans (congrArg (Except.mapError _) hbindings)
  · rw [hc.renamed, h.text hc.target, htext]
    rfl
  · rw [hc.renamed, Source.substitute_renamed, hsubst]
    rfl

/-- A command is done by doing those of its file, and the renamed command stands for the same
text. -/
theorem Session.Sound.visits (h : s.Renames s' f here) {chain : List String} {d d' : Dialect}
    {c : Command} {rest : List Task}
    (ha : Session.Sound s f here ⟨chain, .command d c :: rest⟩)
    (hrequest : c.request d = (c.bindings c.others).map fun bindings => some (d', bindings))
    {src : String} {cs : List Command} (hsrc : s.Supplies c src)
    (hcs : d'.commands c.target src = .ok cs) {P : Prop}
    (hfile : ∀ inner, Session.Sound s f here ⟨inner, cs.map (.command d') ++ .leave c :: rest⟩ →
      Reaches s ⟨inner, cs.map (.command d') ++ .leave c :: rest⟩ ⟨inner, .leave c :: rest⟩ ∧ P) :
    (c.Renames f here ∧ s'.Supplies (c.renamed f) src) ∧
      Reaches s ⟨chain, .command d c :: rest⟩ ⟨chain, rest⟩ ∧ P := by
  obtain ⟨bindings, text, hbindings, htext, hsubst⟩ := id hsrc
  have hrequest : c.request d = .ok (some (d', bindings)) := by
    rw [hrequest, hbindings]
    rfl
  have hc : c.Renames f here := ha.met c ⟨_, _, _, _, .refl, hrequest⟩
  have hopens := ha.opens hrequest htext hsubst hcs
  obtain ⟨hreach, hP⟩ := hfile _ (ha.of_reaches hopens)
  exact ⟨⟨hc, hsrc.renamed h hc⟩, (hopens.trans hreach).tail (step_leave _ _ _ _), hP⟩

/-- The session of a choices source that is resolved does its commands, and the renamed source is
resolved to the renamed tree. -/
theorem Choices.Resolves.renamed (h : s.Renames s' f here) {choices : Choices}
    {tree : ChoiceTree} (hres : choices.Resolves s tree) (chain : List String)
    (rest : List Task)
    (hsound : Session.Sound s f here ⟨chain, choices.commands.map (.command .choices) ++ rest⟩) :
    Reaches s ⟨chain, choices.commands.map (.command .choices) ++ rest⟩ ⟨chain, rest⟩ ∧
      (choices.renamed f).Resolves s' (tree.renamed f) := by
  induction hres generalizing chain rest with
  | nil => exact ⟨.refl, .nil⟩
  | comment _ ih => exact (ih chain rest hsound).imp_right .comment
  | choice _ ih => exact (ih chain rest hsound).imp_right .choice
  | @list l body tail inner tree _ _ ihbody ihtail =>
    rw [Choices.commands_block, List.map_append, List.append_assoc] at hsound ⊢
    obtain ⟨hreach, hinner⟩ := ihbody chain _ hsound
    obtain ⟨hreach', htree⟩ := ihtail chain rest (hsound.of_reaches hreach)
    exact ⟨hreach.trans hreach', .list hinner htree⟩
  | @included c src file tail inner tree hname hsrc hfile _ _ ihbody ihtail =>
    have hrequest : c.request .choices =
        (c.bindings c.others).map fun bindings => some (.choices, bindings) := if_pos hname
    obtain ⟨⟨hc, hsrc'⟩, hreach, hinner⟩ :=
      hsound.visits h hrequest hsrc (Dialect.commands_choices hfile) fun chain =>
        ihbody chain _
    obtain ⟨hreach', htree⟩ := ihtail chain rest (hsound.of_reaches hreach)
    have hfile' := Choices.renamed_of_ofText f hfile
    rw [← hc.renamed] at hfile'
    refine ⟨hreach.trans hreach', ?_⟩
    rw [ChoiceTree.renamed, Forest.map_append]
    exact .included hname hsrc' hfile' hinner htree

/-- The same for surveys. -/
theorem Survey.Resolves.renamed (h : s.Renames s' f here) {survey : Survey} {tree : FormTree}
    (hres : survey.Resolves s tree) (chain : List String) (rest : List Task)
    (hsound : Session.Sound s f here ⟨chain, survey.commands.map (.command .survey) ++ rest⟩) :
    Reaches s ⟨chain, survey.commands.map (.command .survey) ++ rest⟩ ⟨chain, rest⟩ ∧
      (survey.renamed f).Resolves s' (tree.renamed f) := by
  induction hres generalizing chain rest with
  | nil => exact ⟨.refl, .nil⟩
  | comment _ ih => exact (ih chain rest hsound).imp_right .comment
  | question _ ih => exact (ih chain rest hsound).imp_right .question
  | @form c given tail tree hname hsettings _ ih =>
    have hrun : (Task.command .survey c).run s chain = .ok (chain, []) := by
      simp only [Task.run, Command.request, hname, hsettings]
      rfl
    have hstep := step_of_run hrun ((Survey.commands tail).map (.command .survey) ++ rest)
    obtain ⟨hreach, htree⟩ := ih chain rest (hsound.of_reaches (.single hstep))
    have hsettings' : (c.renamed f).formSettings = .ok given :=
      (c.formSettings_renamed f).trans (congrArg (Except.mapError _) hsettings)
    exact ⟨hreach.head hstep, .form hname hsettings' htree⟩
  | @required c tail tree hname honly _ ih =>
    have hrun : (Task.command .survey c).run s chain = .ok (chain, []) := by
      simp [Task.run, Command.request, hname, honly]
    have hstep := step_of_run hrun ((Survey.commands tail).map (.command .survey) ++ rest)
    obtain ⟨hreach, htree⟩ := ih chain rest (hsound.of_reaches (.single hstep))
    exact ⟨hreach.head hstep, .required hname honly htree⟩
  | @choices c src file entries tail tree hname hsrc hfile hentries _ ih =>
    have hrequest : c.request .survey =
        (c.bindings c.others).map fun bindings => some (.choices, bindings) := by
      simp only [Command.request, hname]
    obtain ⟨⟨hc, hsrc'⟩, hreach, hinner⟩ :=
      hsound.visits h hrequest hsrc (Dialect.commands_choices hfile) fun chain =>
        hentries.renamed h chain _
    obtain ⟨hreach', htree⟩ := ih chain rest (hsound.of_reaches hreach)
    have hfile' := Choices.renamed_of_ofText f hfile
    rw [← hc.renamed] at hfile'
    exact ⟨hreach.trans hreach', .choices hname hsrc' hfile' hinner htree⟩
  | @included c src file tail inner tree hname hsrc hfile _ _ ihbody ihtail =>
    have hrequest : c.request .survey =
        (c.bindings c.others).map fun bindings => some (.survey, bindings) := by
      simp only [Command.request, hname]
    obtain ⟨⟨hc, hsrc'⟩, hreach, hinner⟩ :=
      hsound.visits h hrequest hsrc (Dialect.commands_survey hfile) fun chain =>
        ihbody chain _
    obtain ⟨hreach', htree⟩ := ihtail chain rest (hsound.of_reaches hreach)
    have hfile' := Survey.renamed_of_ofSource f hfile
    rw [← hc.renamed] at hfile'
    exact ⟨hreach.trans hreach', .included hname hsrc' hfile' hinner htree⟩
  | @block header body tail inner tree _ _ ihbody ihtail =>
    rw [Survey.commands_block, List.map_append, List.append_assoc] at hsound ⊢
    obtain ⟨hreach, hinner⟩ := ihbody chain _ hsound
    obtain ⟨hreach', htree⟩ := ihtail chain rest (hsound.of_reaches hreach)
    have hpart : (header.renamed f).part = header.part.renamed f := by cases header <;> rfl
    refine ⟨hreach.trans hreach', ?_⟩
    have hblock := Survey.Resolves.block (h := header.renamed f) hinner htree
    rwa [hpart] at hblock

/-- Two errors of the same kind at the same line and column of corresponding files: within files
that the same commands opened, a file has the same kind of fault or cannot be read for the same
kind of reason. -/
inductive CompileError.Corresponds (R : String → String → Prop) :
    CompileError → CompileError → Prop
  | located {file file' : String} {line col : Nat} {fault fault' : Fault} (hfile : R file file')
      (hkind : fault'.kind = fault.kind) :
      Corresponds R (.located ⟨⟨file, line, col⟩, fault⟩) (.located ⟨⟨file', line, col⟩, fault'⟩)
  | unreadable {path path' : String} {cause cause' : FileError} (hpath : R path path')
      (hmissing : cause'.isMissing = cause.isMissing) :
      Corresponds R (.unreadable path cause) (.unreadable path' cause')
  | within {c : Command} {file' : String} {e e' : CompileError} (hfile : R c.pos.file file')
      (h : Corresponds R e e') :
      Corresponds R (.within c e) (.within (c.renamed fun _ => file') e')

namespace CompileError

theorem through_renamed (e : CompileError) (cs : List Command) :
    (e.through cs).renamed f = (e.renamed f).through (cs.map (·.renamed f)) := by
  induction cs with
  | nil => rfl
  | cons c cs ih => exact congrArg (CompileError.within (c.renamed f)) ih

private theorem Of.corresponds {file : String} {e : CompileError} (h : e.Of file)
    (hfile : here file) : e.Corresponds (fun a b => here a ∧ b = f a) (e.renamed f) := by
  cases h with
  | unreadable cause =>
    have hmissing : (cause.renamed f).isMissing = cause.isMissing := by
      cases cause with
      | failed action path cause => cases cause <;> rfl
      | unknownFile path => rfl
      | readOnly => rfl
    exact .unreadable ⟨hfile, rfl⟩ hmissing
  | @fault d h =>
    have hkind : (d.fault.renamed f).kind = d.fault.kind := by cases d.fault <;> rfl
    subst h
    exact .located ⟨hfile, rfl⟩ hkind

/-- An error passed on by commands that keep to their files corresponds to the renamed one. -/
theorem corresponds_through {name file : String} {e : CompileError} {cs : List Command}
    (hleads : Leads name cs file) (he : e.Of file) (hname : here name)
    (hcs : ∀ c ∈ cs, c.Renames f here) :
    (e.through cs).Corresponds (fun a b => here a ∧ b = f a) ((e.through cs).renamed f) := by
  induction hleads with
  | here file => exact he.corresponds hname
  | @into c cs file _ ih =>
    obtain ⟨hc, hcs⟩ := List.forall_mem_cons.mp hcs
    exact .within ⟨hname, rfl⟩ (ih he hc.target hcs)

end CompileError

namespace Form

private theorem ofFile_error_renamed (h : s.Renames s' f here) {path : String} (hpath : here path)
    (hmeets : ∀ c, s.Meets path c → here c.pos.file → c.Renames f here) {now : Moment}
    {e : CompileError} (he : (Form.ofFile s now path).result = .error e) :
    (Form.ofFile s' now (f path)).result = .error (e.renamed f) ∧
      e.Corresponds (fun a b => here a ∧ b = f a) (e.renamed f) := by
  obtain ⟨chain, cs, inner, hfails, rfl⟩ := (ofFile_error_iff s now path e).mp he
  obtain ⟨hfails', hcs⟩ := hfails.renamed h hpath hmeets
  obtain ⟨file, hleads, hinner⟩ := hfails.traced.place
  refine ⟨(ofFile_error_iff s' now _ _).mpr ⟨_, _, _, hfails', ?_⟩, ?_⟩
  · exact inner.through_renamed cs
  · exact CompileError.corresponds_through hleads hinner hpath hcs

/-- The session of a file that compiles does not fail. -/
private theorem sound_of_ofFile (h : s.Renames s' f here) {path : String} (hpath : here path)
    (hmeets : ∀ c, s.Meets path c → here c.pos.file → c.Renames f here) {now : Moment} {form : Form}
    (hform : (Form.ofFile s now path).result = .ok form) {src : String} {survey : Survey}
    (htext : s.text path = .ok src) (hsurvey : Survey.ofSource path src = .ok survey) :
    (Session.start s path survey).Sound s f here := by
  have hkept : (Session.start s path survey).Kept s f here := Session.kept_start hpath hsurvey
  constructor
  · exact hkept.renames h fun c hc => hmeets c ⟨src, survey, htext, hsurvey, hc⟩
  · intro b e hreach hfailed
    obtain ⟨t, rest, inner, hagenda, hrun, _⟩ := (Session.Stops.failed hfailed).task
    have hfails : FailsAt s path (s.text path) _ _ _ :=
      .task htext hsurvey hreach hagenda hrun
    rw [(ofFile_error_iff s now path _).mpr ⟨_, _, _, hfails, rfl⟩] at hform
    cases hform

private theorem ofFile_ok_renamed (h : s.Renames s' f here) {path : String} (hpath : here path)
    (hmeets : ∀ c, s.Meets path c → here c.pos.file → c.Renames f here) {now : Moment} {form : Form}
    (hform : (Form.ofFile s now path).result = .ok form) :
    (Form.ofFile s' now (f path)).result = .ok form := by
  obtain ⟨tree, ⟨src, survey, htext, hsurvey, hres⟩, rfl⟩ := exists_resolved_of_ofFile hform
  have hkept : (Session.start s path survey).Kept s f here := Session.kept_start hpath hsurvey
  have hsound := sound_of_ofFile h hpath hmeets hform htext hsurvey
  have hstart : Session.start s path survey =
      ⟨[s.canonical path], survey.commands.map (.command .survey) ++ []⟩ := by
    rw [List.append_nil]
    rfl
  rw [hstart] at hsound
  obtain ⟨hreach, hres'⟩ := hres.renamed h _ [] hsound
  rw [← hstart] at hreach hsound
  have htext' : s'.text (f path) = .ok src := by
    rw [h.text hpath, htext]
    rfl
  have hsurvey' := Survey.renamed_of_ofSource f hsurvey
  -- the renamed files have no fault either, so there is a form
  have houtcome : (Form.ofFile s' now (f path)).outcome = .ok () := by
    obtain ⟨last, hlast, hstop⟩ := session_of_ofText s' now hsurvey'
    obtain ⟨_, hreach'⟩ := hkept.run h (fun c hc _ => hsound.met c hc) hreach
    rw [← Session.start_renamed h hpath] at hreach'
    rw [outcome_ofFile, htext']
    exact (hstop.unique hlast hreach' (.done rfl)).2
  cases hresult : (Form.ofFile s' now (f path)).result with
  | error e =>
    rw [Logged.outcome, hresult] at houtcome
    cases houtcome
  | ok form' =>
    obtain ⟨tree', htree', rfl⟩ := exists_resolved_of_ofFile hresult
    obtain rfl := htree'.unique ⟨src, _, htext', hsurvey', hres'⟩
    rw [FormTree.expand_renamed]

/-- Files under other names are compiled to the same form, or to the same error with its files
renamed. -/
theorem ofFile_renamed (h : s.Renames s' f here) {path : String} (hpath : here path)
    (hmeets : ∀ c, s.Meets path c → here c.pos.file → c.Renames f here) (now : Moment) :
    (∀ form, (Form.ofFile s now path).result = .ok form ↔
      (Form.ofFile s' now (f path)).result = .ok form) ∧
    ∀ e, (Form.ofFile s now path).result = .error e →
      (Form.ofFile s' now (f path)).result = .error (e.renamed f) ∧
        e.Corresponds (fun a b => here a ∧ b = f a) (e.renamed f) := by
  refine ⟨fun form => ⟨ofFile_ok_renamed h hpath hmeets, fun hform => ?_⟩,
    fun e => ofFile_error_renamed h hpath hmeets⟩
  cases hresult : (Form.ofFile s now path).result with
  | error e =>
    rw [(ofFile_error_renamed h hpath hmeets hresult).1] at hform
    cases hform
  | ok form' => exact (ofFile_ok_renamed h hpath hmeets hresult).symm.trans hform

end Form
end SurveyForms
