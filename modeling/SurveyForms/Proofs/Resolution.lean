import SurveyForms.Form.Resolve

/-! What it means for a tree to be a source with every named file in its place, said without the
chain of open files, the log or any bound on the nesting. Compiling gives that tree and no other.
Nothing is said here about sources that are refused. -/
namespace SurveyForms

/-- The file that a command names, found from the file that holds the command. -/
def Command.target (c : Command) : String := Path.resolve (Path.directory c.pos.file) c.first

/-- `src` is the text that stands for a command: the file it names, with the pairs among its
further arguments put in. -/
def Sources.Supplies (s : Sources) (c : Command) (src : String) : Prop :=
  ∃ bindings text, c.bindings c.others = .ok bindings ∧ s.text c.target = .ok text ∧
    Source.substitute c.target text bindings = .ok src

/-- A choices source and the entries it stands for, included files in their places. -/
inductive Choices.Resolves (s : Sources) : Choices → ChoiceTree → Prop
  | nil : Resolves s .nil .nil
  | comment {pos : Position} {text : String} {rest : Choices} {tree : ChoiceTree}
      (htail : Resolves s rest tree) : Resolves s (.leaf (.comment pos text) rest) tree
  | choice {c : Choice} {rest : Choices} {tree : ChoiceTree} (htail : Resolves s rest tree) :
      Resolves s (.leaf (.choice c) rest) (.leaf c tree)
  | list {l : ChoiceList} {body rest : Choices} {inner tree : ChoiceTree}
      (hbody : Resolves s body inner) (htail : Resolves s rest tree) :
      Resolves s (.block l body rest) (.block l inner tree)
  | included {c : Command} {src : String} {file rest : Choices} {inner tree : ChoiceTree}
      (hname : c.name = "include") (hsrc : s.Supplies c src)
      (hfile : Choices.ofText c.target src = .ok file) (hbody : Resolves s file inner)
      (htail : Resolves s rest tree) : Resolves s (.leaf (.command c) rest) (inner ++ tree)

/-- A survey source and the form tree it stands for. Comments leave nothing behind, an included
file is a part of its own, and a choices command holds the entries of its file. -/
inductive Survey.Resolves (s : Sources) : Survey → FormTree → Prop
  | nil : Resolves s .nil .nil
  | comment {pos : Position} {text : String} {rest : Survey} {tree : FormTree}
      (htail : Resolves s rest tree) : Resolves s (.leaf (.comment pos text) rest) tree
  | question {q : Question} {rest : Survey} {tree : FormTree} (htail : Resolves s rest tree) :
      Resolves s (.leaf (.question q) rest) (.leaf (.question q) tree)
  | form {c : Command} {f : FormSettings} {rest : Survey} {tree : FormTree}
      (hname : c.name = "form") (hsettings : c.formSettings = .ok f)
      (htail : Resolves s rest tree) :
      Resolves s (.leaf (.command c) rest) (.leaf (.settings f) tree)
  | required {c : Command} {rest : Survey} {tree : FormTree} (hname : c.name = "required")
      (honly : c.others = []) (htail : Resolves s rest tree) :
      Resolves s (.leaf (.command c) rest) (.leaf (.required c.first) tree)
  | choices {c : Command} {src : String} {file : Choices} {entries : ChoiceTree} {rest : Survey}
      {tree : FormTree} (hname : c.name = "choices") (hsrc : s.Supplies c src)
      (hfile : Choices.ofText c.target src = .ok file) (hentries : file.Resolves s entries)
      (htail : Resolves s rest tree) :
      Resolves s (.leaf (.command c) rest) (.leaf (.choices entries) tree)
  | included {c : Command} {src : String} {file rest : Survey} {inner tree : FormTree}
      (hname : c.name = "include") (hsrc : s.Supplies c src)
      (hfile : Survey.ofSource c.target src = .ok file) (hbody : Resolves s file inner)
      (htail : Resolves s rest tree) :
      Resolves s (.leaf (.command c) rest) (.block .included inner tree)
  | block {h : SurveyHeader} {body rest : Survey} {inner tree : FormTree}
      (hbody : Resolves s body inner) (htail : Resolves s rest tree) :
      Resolves s (.block h body rest) (.block h.part inner tree)

/-- The tree of the survey file at a path. -/
def Sources.Resolved (s : Sources) (path : String) (tree : FormTree) : Prop :=
  ∃ src survey, s.text path = .ok src ∧ Survey.ofSource path src = .ok survey ∧
    survey.Resolves s tree

private theorem bind_ok {ε α β : Type} {x : Except ε α} {f : α → Except ε β} {b : β} :
    x.bind f = .ok b ↔ ∃ a, x = .ok a ∧ f a = .ok b := by
  cases x <;> simp [Except.bind]

theorem eq_ok_of_toOption {ε α : Type} {x : Except ε α} {a : α} (h : x.toOption = some a) :
    x = .ok a := by
  cases x with
  | error e => simp [Except.toOption] at h
  | ok b => simpa [Except.toOption] using h

private theorem mapError_ok {ε δ α : Type} {x : Except ε α} {f : ε → δ} {a : α} :
    x.mapError f = .ok a ↔ x = .ok a := by
  cases x with
  | error e => constructor <;> intro h <;> cases h
  | ok b => constructor <;> (intro h; cases h; rfl)

private theorem diagnose_ok {α : Type} {x : Except Diagnostic α} {a : α} :
    (Compiling.diagnose x).result = .ok a ↔ x = .ok a := mapError_ok

private theorem fault_ok {α : Type} {pos : Position} {fault : Fault} {a : α} :
    (Compiling.fault pos fault : Compiling α).result ≠ .ok a := by
  simp [Compiling.fault, Logged.fail]

/-- A command whose file is put in its place names a file that is not open and can be read, and
what follows sees its text under a longer chain. -/
private theorem inclusion_ok {s : Sources} {chain : List String} {c : Command} {bindings : Row}
    {α : Type} {next : (path src : String) → (opened : List String) →
      s.unopened opened < s.unopened chain → Compiling α} {a : α}
    (h : (s.inclusion chain c bindings next).result = .ok a) :
    ∃ text src smaller, s.text c.target = .ok text ∧
      Source.substitute c.target text bindings = .ok src ∧
      (next c.target src (s.canonical c.target :: chain) smaller).result = .ok a := by
  unfold Sources.inclusion at h
  simp only [Logged.result_bind, Logged.write, Except.bind] at h
  split at h
  · exact absurd h fault_ok
  · next hopen =>
    simp only [Logged.mapError, mapError_ok, Logged.result_bind, Except.bind] at h
    split at h
    · simp [Logged.fail] at h
    · next text hread =>
      obtain ⟨src, hsrc, ha⟩ := bind_ok.mp (Logged.result_bind _ _ ▸ h)
      exact ⟨text, src, _, hread, diagnose_ok.mp hsrc, ha⟩

private theorem resolve_choices_ok {s : Sources} {command : Command → Compiling ChoiceTree}
    (hcommand : ∀ c inner rest tree, (command c).result = .ok inner →
      Choices.Resolves s rest tree → Choices.Resolves s (.leaf (.command c) rest) (inner ++ tree))
    {choices : Choices} {tree : ChoiceTree}
    (h : (choices.resolve command).result = .ok tree) : choices.Resolves s tree := by
  induction choices generalizing tree with
  | nil =>
    obtain rfl : Forest.nil = tree := by simpa [Choices.resolve] using h
    exact .nil
  | leaf statement rest ih =>
    cases statement with
    | comment pos text => exact .comment (ih h)
    | command c =>
      simp only [Choices.resolve, Logged.result_bind, bind_ok, Logged.result_pure,
        Except.ok.injEq] at h
      obtain ⟨inner, hinner, rest', hrest, rfl⟩ := h
      exact hcommand c inner rest rest' hinner (ih hrest)
    | choice c =>
      simp only [Choices.resolve, Logged.result_bind, bind_ok, Logged.result_pure,
        Except.ok.injEq] at h
      obtain ⟨rest', hrest, rfl⟩ := h
      exact .choice (ih hrest)
  | block l body rest ihb ihr =>
    simp only [Choices.resolve, Logged.result_bind, bind_ok, Logged.result_pure,
      Except.ok.injEq] at h
    obtain ⟨inner, hinner, rest', hrest, rfl⟩ := h
    exact .list (ihb hinner) (ihr hrest)

private theorem resolve_survey_ok {s : Sources} {command : Command → Compiling FormTree}
    (hcommand : ∀ c inner rest tree, (command c).result = .ok inner →
      Survey.Resolves s rest tree → Survey.Resolves s (.leaf (.command c) rest) (inner ++ tree))
    {survey : Survey} {tree : FormTree}
    (h : (survey.resolve command).result = .ok tree) : survey.Resolves s tree := by
  induction survey generalizing tree with
  | nil =>
    obtain rfl : Forest.nil = tree := by simpa [Survey.resolve] using h
    exact .nil
  | leaf statement rest ih =>
    cases statement with
    | comment pos text => exact .comment (ih h)
    | command c =>
      simp only [Survey.resolve, Logged.result_bind, bind_ok, Logged.result_pure,
        Except.ok.injEq] at h
      obtain ⟨inner, hinner, rest', hrest, rfl⟩ := h
      exact hcommand c inner rest rest' hinner (ih hrest)
    | question q =>
      simp only [Survey.resolve, Logged.result_bind, bind_ok, Logged.result_pure,
        Except.ok.injEq] at h
      obtain ⟨rest', hrest, rfl⟩ := h
      exact .question (ih hrest)
  | block header body rest ihb ihr =>
    simp only [Survey.resolve, Logged.result_bind, bind_ok, Logged.result_pure,
      Except.ok.injEq] at h
    obtain ⟨inner, hinner, rest', hrest, rfl⟩ := h
    exact .block (ihb hinner) (ihr hrest)

/-- The tree of a choices source does not depend on the chain that it was built under. -/
theorem Choices.resolves_of_ofChoices (s : Sources) (chain : List String) (choices : Choices)
    (tree : ChoiceTree) (h : (ChoiceTree.ofChoices s chain choices).result = .ok tree) :
    choices.Resolves s tree := by
  rw [ChoiceTree.ofChoices] at h
  refine resolve_choices_ok (fun c inner rest tree hc htail => ?_) h
  split at hc
  · next hname =>
    obtain ⟨bindings, hbindings, hc⟩ := bind_ok.mp (Logged.result_bind _ _ ▸ hc)
    obtain ⟨text, src, smaller, htext, hsrc, hc⟩ := inclusion_ok hc
    obtain ⟨file, hfile, hc⟩ := bind_ok.mp (Logged.result_bind _ _ ▸ hc)
    have hinner := resolves_of_ofChoices s (s.canonical c.target :: chain) file inner hc
    exact .included hname ⟨bindings, text, diagnose_ok.mp hbindings, htext, hsrc⟩
      (diagnose_ok.mp hfile) hinner htail
  · exact absurd hc fault_ok
termination_by s.unopened chain

/-- The tree of a survey source does not depend on the chain that it was built under. -/
theorem Survey.resolves_of_ofSurvey (s : Sources) (chain : List String) (survey : Survey)
    (tree : FormTree) (h : (FormTree.ofSurvey s chain survey).result = .ok tree) :
    survey.Resolves s tree := by
  rw [FormTree.ofSurvey] at h
  refine resolve_survey_ok (fun c inner rest tree hc htail => ?_) h
  split at hc
  · next hname =>
    obtain ⟨f, hf, hc⟩ := bind_ok.mp (Logged.result_bind _ _ ▸ hc)
    obtain rfl : Forest.leaf (.settings f) .nil = inner := by simpa using hc
    exact .form hname (diagnose_ok.mp hf) htail
  · next hname =>
    obtain ⟨bindings, hbindings, hc⟩ := bind_ok.mp (Logged.result_bind _ _ ▸ hc)
    obtain ⟨text, src, smaller, htext, hsrc, hc⟩ := inclusion_ok hc
    obtain ⟨file, hfile, hc⟩ := bind_ok.mp (Logged.result_bind _ _ ▸ hc)
    obtain ⟨entries, hentries, hc⟩ := bind_ok.mp (Logged.result_bind _ _ ▸ hc)
    obtain rfl : Forest.leaf (.choices entries) .nil = inner := by simpa using hc
    exact .choices hname ⟨bindings, text, diagnose_ok.mp hbindings, htext, hsrc⟩
      (diagnose_ok.mp hfile) (Choices.resolves_of_ofChoices s _ file entries hentries) htail
  · next hname =>
    obtain ⟨bindings, hbindings, hc⟩ := bind_ok.mp (Logged.result_bind _ _ ▸ hc)
    obtain ⟨text, src, smaller, htext, hsrc, hc⟩ := inclusion_ok hc
    obtain ⟨file, hfile, hc⟩ := bind_ok.mp (Logged.result_bind _ _ ▸ hc)
    obtain ⟨body, hbody, hc⟩ := bind_ok.mp (Logged.result_bind _ _ ▸ hc)
    obtain rfl : Forest.block .included body .nil = inner := by simpa using hc
    have hbody := resolves_of_ofSurvey s (s.canonical c.target :: chain) file body hbody
    exact .included hname ⟨bindings, text, diagnose_ok.mp hbindings, htext, hsrc⟩
      (diagnose_ok.mp hfile) hbody htail
  · next hname =>
    split at hc
    · next honly =>
      obtain rfl : Forest.leaf (.required c.first) .nil = inner := by simpa using hc
      exact .required hname (List.isEmpty_iff.mp honly) htail
    · exact absurd hc fault_ok
  · exact absurd hc fault_ok
termination_by s.unopened chain

/-- A command stands for one text at most. -/
theorem Sources.Supplies.unique {s : Sources} {c : Command} {a b : String}
    (ha : s.Supplies c a) (hb : s.Supplies c b) : a = b := by
  obtain ⟨bindings, text, hbind, htext, hsrc⟩ := ha
  obtain ⟨bindings', text', hbind', htext', hsrc'⟩ := hb
  obtain rfl := Except.ok.inj (hbind.symm.trans hbind')
  obtain rfl := Except.ok.inj (htext.symm.trans htext')
  exact Except.ok.inj (hsrc.symm.trans hsrc')

theorem Choices.Resolves.unique {s : Sources} {choices : Choices} {a b : ChoiceTree}
    (ha : choices.Resolves s a) (hb : choices.Resolves s b) : a = b := by
  induction ha generalizing b with
  | nil => cases hb; rfl
  | comment _ ih =>
    cases hb with
    | comment htail => exact ih htail
  | choice _ ih =>
    cases hb with
    | choice htail => rw [ih htail]
  | list _ _ ihb iht =>
    cases hb with
    | list hbody htail => rw [ihb hbody, iht htail]
  | included _ hsrc hfile _ _ ihb iht =>
    cases hb with
    | included _ hsrc' hfile' hbody htail =>
      obtain rfl := hsrc.unique hsrc'
      obtain rfl := Except.ok.inj (hfile.symm.trans hfile')
      rw [ihb hbody, iht htail]

/-- A survey source stands for one tree at most. -/
theorem Survey.Resolves.unique {s : Sources} {survey : Survey} {a b : FormTree}
    (ha : survey.Resolves s a) (hb : survey.Resolves s b) : a = b := by
  induction ha generalizing b with
  | nil => cases hb; rfl
  | comment _ ih =>
    cases hb with
    | comment htail => exact ih htail
  | question _ ih =>
    cases hb with
    | question htail => rw [ih htail]
  | form hname hsettings _ ih =>
    cases hb with
    | form _ hsettings' htail =>
      rw [Except.ok.inj (hsettings.symm.trans hsettings'), ih htail]
    | required hother | choices hother | included hother => simp [hname] at hother
  | required hname _ _ ih =>
    cases hb with
    | required _ _ htail => rw [ih htail]
    | form hother | choices hother | included hother => simp [hname] at hother
  | choices hname hsrc hfile hentries _ ih =>
    cases hb with
    | choices _ hsrc' hfile' hentries' htail =>
      obtain rfl := hsrc.unique hsrc'
      obtain rfl := Except.ok.inj (hfile.symm.trans hfile')
      rw [hentries.unique hentries', ih htail]
    | form hother | required hother | included hother => simp [hname] at hother
  | included hname hsrc hfile _ _ ihb iht =>
    cases hb with
    | included _ hsrc' hfile' hbody htail =>
      obtain rfl := hsrc.unique hsrc'
      obtain rfl := Except.ok.inj (hfile.symm.trans hfile')
      rw [ihb hbody, iht htail]
    | form hother | required hother | choices hother => simp [hname] at hother
  | block _ _ ihb iht =>
    cases hb with
    | block hbody htail => rw [ihb hbody, iht htail]

theorem Sources.Resolved.unique {s : Sources} {path : String} {a b : FormTree}
    (ha : s.Resolved path a) (hb : s.Resolved path b) : a = b := by
  obtain ⟨src, survey, hsrc, hsurvey, ha⟩ := ha
  obtain ⟨src', survey', hsrc', hsurvey', hb⟩ := hb
  obtain rfl := Except.ok.inj (hsrc.symm.trans hsrc')
  obtain rfl := Except.ok.inj (hsurvey.symm.trans hsurvey')
  exact ha.unique hb

/-- The tree of a survey text under a name. -/
def Sources.ResolvedText (s : Sources) (name src : String) (tree : FormTree) : Prop :=
  ∃ survey, Survey.ofSource name src = .ok survey ∧ survey.Resolves s tree

theorem Sources.ResolvedText.unique {s : Sources} {name src : String} {a b : FormTree}
    (ha : s.ResolvedText name src a) (hb : s.ResolvedText name src b) : a = b := by
  obtain ⟨survey, hsurvey, ha⟩ := ha
  obtain ⟨survey', hsurvey', hb⟩ := hb
  obtain rfl := Except.ok.inj (hsurvey.symm.trans hsurvey')
  exact ha.unique hb

/-- Whether a text compiles does not depend on the clock: it fails with one error, or it stands for
a tree, whose expansion from an empty scope is the form. -/
theorem Form.result_ofText_cases (s : Sources) (name src : String) :
    (∃ e, ∀ now, (Form.ofText s now name src).result = .error e) ∨
      ∃ tree, s.ResolvedText name src tree ∧
        ∀ now, (Form.ofText s now name src).result = .ok (tree.expand now ∅) := by
  cases hsurvey : Survey.ofSource name src with
  | error fault =>
    refine .inl ⟨.located fault, fun now => ?_⟩
    rw [Form.ofText, Logged.result_bind, hsurvey]
    rfl
  | ok survey =>
    have hresult (now : Moment) : (Form.ofText s now name src).result =
        (FormTree.ofSurvey s [s.canonical name] survey).result.map (·.expand now ∅) := by
      rw [Form.ofText, Logged.result_bind, hsurvey]
      change (FormTree.ofSurvey s [s.canonical name] survey >>= _).result = _
      rw [Logged.result_bind]
      cases (FormTree.ofSurvey s [s.canonical name] survey).result <;> rfl
    cases htree : (FormTree.ofSurvey s [s.canonical name] survey).result with
    | error e => exact .inl ⟨e, fun now => by rw [hresult, htree]; rfl⟩
    | ok tree =>
      refine .inr ⟨tree, ⟨survey, hsurvey, ?_⟩, fun now => by rw [hresult, htree]; rfl⟩
      exact Survey.resolves_of_ofSurvey s _ survey tree htree

/-- A form that compiles is the expansion of the tree of its text. -/
theorem Form.exists_resolvedText_of_ofText {s : Sources} {now : Moment} {name src : String}
    {form : Form} (h : (Form.ofText s now name src).result = .ok form) :
    ∃ tree, s.ResolvedText name src tree ∧ form = tree.expand now ∅ := by
  rcases result_ofText_cases s name src with ⟨e, herror⟩ | ⟨tree, htree, hok⟩
  · cases (herror now).symm.trans h
  · exact ⟨tree, htree, Except.ok.inj (h.symm.trans (hok now))⟩

/-- A file is compiled like its text. -/
theorem Form.result_ofFile (s : Sources) (now : Moment) (path : String) :
    (Form.ofFile s now path).result = match s.text path with
      | .error cause => .error (.unreadable path cause)
      | .ok src => (Form.ofText s now path src).result := by
  rw [Form.ofFile, Logged.result_bind]
  cases s.text path <;> rfl

/-- A form that compiles is the expansion of the tree of its file, from an empty scope. -/
theorem Form.exists_resolved_of_ofFile {s : Sources} {now : Moment} {path : String} {form : Form}
    (h : (Form.ofFile s now path).result = .ok form) :
    ∃ tree, s.Resolved path tree ∧ form = tree.expand now ∅ := by
  rw [result_ofFile] at h
  split at h
  · cases h
  · next src hsrc =>
    obtain ⟨tree, ⟨survey, hsurvey, htree⟩, hform⟩ := exists_resolvedText_of_ofText h
    exact ⟨tree, ⟨src, survey, hsrc, hsurvey, htree⟩, hform⟩

/-- What holds of the expansion of every resolved tree holds of a form that compiles, whose file
has exactly one tree. -/
theorem Form.forall_resolved_of_ofFile {s : Sources} {now : Moment} {path : String} {form : Form}
    {P : FormTree → Form → Prop} (h : (Form.ofFile s now path).result = .ok form)
    (hP : ∀ tree, P tree (tree.expand now ∅)) :
    (∃ tree, s.Resolved path tree) ∧ ∀ tree, s.Resolved path tree → P tree form := by
  obtain ⟨tree, htree, rfl⟩ := exists_resolved_of_ofFile h
  refine ⟨⟨tree, htree⟩, fun other hother => ?_⟩
  obtain rfl := htree.unique hother
  exact hP tree

/-- A form that compiles, from a text under a name or from the file of that name. -/
inductive Form.CompiledFrom (s : Sources) (now : Moment) (name src : String) (form : Form) : Prop
  | text (h : (Form.ofText s now name src).result = .ok form)
  | file (hsrc : s.text name = .ok src) (h : (Form.ofFile s now name).result = .ok form)

theorem Form.CompiledFrom.result_ofText {s : Sources} {now : Moment} {name src : String}
    {form : Form} (h : Form.CompiledFrom s now name src form) :
    (Form.ofText s now name src).result = .ok form := by
  cases h with
  | text h => exact h
  | file hsrc h => rwa [result_ofFile, hsrc] at h

end SurveyForms
