import SurveyForms.Proofs.ChoiceRows

/-! The settings of a form come from the last form command of its own file, and the clock is seen
in the version of that command alone. Form commands of included files are checked and otherwise
count for nothing. -/
namespace SurveyForms

/-- The form commands of a survey source in order, those inside blocks in their places. Files
that it includes are not looked at. -/
def Survey.formCommands (f : Survey) : List Command := f.commands.filter (·.name = "form")

/-- The settings of a tree in order, those inside blocks in their places, those of included files
left out. -/
def FormTree.ownSettings : FormTree → List FormSettings
  | .nil => []
  | .leaf (.settings f) rest => f :: ownSettings rest
  | .leaf (.question _) rest | .leaf (.required _) rest | .leaf (.choices _) rest =>
    ownSettings rest
  | .block .included _ rest => ownSettings rest
  | .block (.conditional _) body rest | .block (.group _) body rest =>
    ownSettings body ++ ownSettings rest

/-- The last form command of a survey source leaves its version to the clock. -/
def Survey.TakesVersionFromClock (name src : String) : Prop :=
  ∃ survey c, Survey.ofSource name src = .ok survey ∧ survey.formCommands.getLast? = some c ∧
    c.args[1]? = some FormSettings.autoVersion

/-- Two compilations that end alike: with one error, or with forms that differ at most in the
version among their settings, and in that only if `clocked` holds. -/
inductive Form.AlikeButVersion (clocked : Prop) :
    Except CompileError Form → Except CompileError Form → Prop
  | failed (e : CompileError) : AlikeButVersion clocked (.error e) (.error e)
  | compiled {a b : Form} (survey : a.survey = b.survey) (choices : a.choices = b.choices)
      (settings : a.settings = b.settings ∨ clocked ∧ ∃ r r', a.settings = some r ∧
        b.settings = some r' ∧ ∀ key, key ≠ "version" → r.get? key = r'.get? key) :
      AlikeButVersion clocked (.ok a) (.ok b)

private theorem settings_append (a b : Form) :
    (a.append b).settings = b.settings.or a.settings := by
  rw [Form.append]
  cases b.settings <;> rfl

/-- Later settings replace earlier ones, and those of included files are dropped. -/
theorem FormTree.settings_expand (now : Moment) (scope : Scope) (tree : FormTree) :
    (tree.expand now scope).settings = tree.ownSettings.getLast?.map (FormSettings.row now) := by
  -- On the tree. What stands behind counts before what stands in front, as in `getLast?`.
  induction tree generalizing scope with
  | nil => rfl
  | leaf item rest ih =>
    cases item with
    | question q | choices c => rw [expand, settings_append, Option.or_none, ih]; rfl
    | required value => exact ih _
    | settings f =>
      rw [expand, settings_append, ih, ownSettings, List.getLast?_cons]
      cases (FormTree.ownSettings rest).getLast? <;> rfl
  | block part body rest ihb ihr =>
    cases part with
    | conditional condition =>
      rw [expand, settings_append, ihb, ihr, ownSettings, List.getLast?_append, Option.map_or]
    | group g =>
      simp only [expand, settings_append, ihb, ihr, ownSettings, List.getLast?_append,
        Option.map_or, Option.or_none]
    | included => rw [expand, settings_append, Option.or_none, ihr]; rfl

theorem Survey.formCommands_block (h : SurveyHeader) (body rest : Survey) :
    Survey.formCommands (.block h body rest) =
      Survey.formCommands body ++ Survey.formCommands rest := by
  rw [formCommands, Survey.commands_block, List.filter_append]
  rfl

/-- The settings of a resolved survey are those of its own form commands, in order. -/
theorem Survey.Resolves.ownSettings {s : Sources} {survey : Survey} {tree : FormTree}
    (h : survey.Resolves s tree) :
    List.Forall₂ (fun c f => Command.formSettings c = .ok f) survey.formCommands
      tree.ownSettings := by
  have hskip {c : Command} {rest : Survey} (hname : c.name ≠ "form") :
      Survey.formCommands (.leaf (.command c) rest) = Survey.formCommands rest :=
    List.filter_cons_of_neg (by simpa using hname)
  induction h with
  | nil => exact .nil
  | comment _ ih => exact ih
  | question _ ih => exact ih
  | @form c f rest tree hname hsettings _ ih =>
    have hcons : Survey.formCommands (.leaf (.command c) rest) =
        c :: Survey.formCommands rest := List.filter_cons_of_pos (by simpa using hname)
    rw [hcons]
    exact .cons hsettings ih
  | required hname _ _ ih | choices hname _ _ _ _ ih | included hname _ _ _ _ _ ih =>
    rw [hskip (by simp [hname])]
    exact ih
  | @block header body rest inner tree _ _ ihb iht =>
    rw [Survey.formCommands_block]
    cases header <;> exact List.rel_append ihb iht

private theorem getLast?_of_forall₂ {α β : Type} {R : α → β → Prop} {as : List α} {bs : List β}
    (h : List.Forall₂ R as bs) {a : α} (ha : as.getLast? = some a) :
    ∃ b, bs.getLast? = some b ∧ R a b := by
  rw [List.getLast?_eq_head?_reverse] at ha ⊢
  have hreverse := List.rel_reverse h
  revert ha hreverse
  cases as.reverse with
  | nil => simp
  | cons a' as =>
    intro ha hreverse
    obtain ⟨b, bs', hab, -, hbs⟩ := List.forall₂_cons_left_iff.mp hreverse
    cases ha
    exact ⟨b, by rw [hbs]; rfl, hab⟩

/-- The version of a form command is its second argument. -/
theorem Command.version_of_formSettings {c : Command} {f : FormSettings}
    (h : c.formSettings = .ok f) : c.args[1]? = some f.version := by
  unfold formSettings at h
  split at h
  · next id version title extra hargs =>
    rw [hargs]
    cases hbindings : c.bindings extra with
    | error e => rw [hbindings] at h; cases h
    | ok row => rw [hbindings] at h; cases h; rfl
  · cases h

/-- The clock is seen in the version only. -/
theorem FormSettings.row_get? (f : FormSettings) (now now' : Moment) {key : String}
    (hkey : key ≠ "version") : (f.row now).get? key = (f.row now').get? key := by
  rw [row, row, Row.get?_insert, Row.get?_insert, if_neg hkey, if_neg hkey]

theorem FormSettings.row_of_ne_auto {f : FormSettings} (h : f.version ≠ autoVersion)
    (now now' : Moment) : f.row now = f.row now' := by
  rw [row, row, if_neg h, if_neg h]

/-- The settings of an expanded survey are those of its last form command. -/
theorem Survey.Resolves.settings_expand {s : Sources} {survey : Survey} {tree : FormTree}
    (h : survey.Resolves s tree) (now : Moment) :
    ((tree.expand now ∅).settings = none ↔ survey.formCommands = []) ∧
      ∀ c, survey.formCommands.getLast? = some c →
        ∃ f, c.formSettings = .ok f ∧ (tree.expand now ∅).settings = some (f.row now) := by
  rw [FormTree.settings_expand, Option.map_eq_none_iff, List.getLast?_eq_none_iff]
  refine ⟨?_, fun c hc => ?_⟩
  · rw [← List.length_eq_zero_iff, ← List.length_eq_zero_iff, h.ownSettings.length_eq]
  · obtain ⟨f, hf, hsettings⟩ := getLast?_of_forall₂ h.ownSettings hc
    exact ⟨f, hsettings, by rw [hf]; rfl⟩

/-- A tree expanded at two moments gives forms that differ in a version from the clock alone. -/
theorem Sources.ResolvedText.alikeButVersion {s : Sources} {name src : String} {tree : FormTree}
    (h : s.ResolvedText name src tree) (now now' : Moment) :
    Form.AlikeButVersion (Survey.TakesVersionFromClock name src) (.ok (tree.expand now ∅))
      (.ok (tree.expand now' ∅)) := by
  obtain ⟨survey, hsurvey, hresolves⟩ := h
  obtain ⟨hnone, hsome⟩ := hresolves.settings_expand now
  obtain ⟨hnone', hsome'⟩ := hresolves.settings_expand now'
  refine .compiled ((tree.survey_expand now []).trans (tree.survey_expand now' []).symm)
    (by rw [tree.choices_expand, tree.choices_expand]) ?_
  cases hlast : survey.formCommands.getLast? with
  | none =>
    have hempty := List.getLast?_eq_none_iff.mp hlast
    exact .inl ((hnone.mpr hempty).trans (hnone'.mpr hempty).symm)
  | some c =>
    obtain ⟨f, hf, hsettings⟩ := hsome c hlast
    obtain ⟨f', hf', hsettings'⟩ := hsome' c hlast
    obtain rfl := Except.ok.inj (hf.symm.trans hf')
    rw [hsettings, hsettings']
    by_cases hauto : f.version = FormSettings.autoVersion
    · have hversion := Command.version_of_formSettings hf
      rw [hauto] at hversion
      exact .inr ⟨⟨survey, c, hsurvey, hlast, hversion⟩, _, _, rfl, rfl,
        fun key hkey => f.row_get? now now' hkey⟩
    · exact .inl (by rw [FormSettings.row_of_ne_auto hauto now now'])

theorem Form.AlikeButVersion.mono {p q : Prop} {x y : Except CompileError Form}
    (h : Form.AlikeButVersion p x y) (hpq : p → q) : Form.AlikeButVersion q x y := by
  cases h with
  | failed e => exact .failed e
  | compiled hsurvey hchoices hsettings =>
    exact .compiled hsurvey hchoices (hsettings.imp_right fun h => ⟨hpq h.1, h.2⟩)

theorem Form.alikeButVersion_ofText (s : Sources) (name src : String) (now now' : Moment) :
    Form.AlikeButVersion (Survey.TakesVersionFromClock name src)
      (Form.ofText s now name src).result (Form.ofText s now' name src).result := by
  rcases result_ofText_cases s name src with ⟨e, herror⟩ | ⟨tree, htree, hok⟩
  · rw [herror, herror]
    exact .failed e
  · rw [hok, hok]
    exact htree.alikeButVersion now now'

/-- The settings of a form are made from the form command that is last in its own file, at
whatever depth, and there are none if the file has no form command; what included files hold does
not count. The clock has no part in anything else: at any two moments the same files fail with
the same error or give forms that differ at most in the version, and in that only if the last
form command leaves it to the clock. -/
theorem Form.settings_from_last_form_command (s : Sources) (name : String) :
    (∀ src now form, Form.CompiledFrom s now name src form →
      ∃ survey, Survey.ofSource name src = .ok survey ∧
        (form.settings = none ↔ survey.formCommands = []) ∧
        ∀ c, survey.formCommands.getLast? = some c →
          ∃ f, c.formSettings = .ok f ∧ form.settings = some (f.row now)) ∧
    ∀ now now',
      (∀ src, Form.AlikeButVersion (Survey.TakesVersionFromClock name src)
        (Form.ofText s now name src).result (Form.ofText s now' name src).result) ∧
      Form.AlikeButVersion (∃ src, s.text name = .ok src ∧ Survey.TakesVersionFromClock name src)
        (Form.ofFile s now name).result (Form.ofFile s now' name).result := by
  refine ⟨fun src now form h => ?_, fun now now' => ⟨fun src => ?_, ?_⟩⟩
  · obtain ⟨tree, ⟨survey, hsurvey, hresolves⟩, rfl⟩ :=
      exists_resolvedText_of_ofText h.result_ofText
    exact ⟨survey, hsurvey, hresolves.settings_expand now⟩
  · exact alikeButVersion_ofText s name src now now'
  · rw [result_ofFile, result_ofFile]
    cases hsrc : s.text name with
    | error cause => exact .failed _
    | ok src => exact (alikeButVersion_ofText s name src now now').mono fun h => ⟨src, rfl, h⟩

theorem nestedForm_settings_from_last_form_command :
    (∃ survey c f, Survey.ofSource "/form" nestedSource = .ok survey ∧
      survey.formCommands.getLast? = some c ∧ c.formSettings = .ok f ∧
      nestedForm.settings = some (f.row ⟨0, 0⟩)) ∧
    ∀ now, Form.AlikeButVersion (Survey.TakesVersionFromClock "/form" nestedSource) (.ok nestedForm)
      (Form.ofText nestedFiles.sources now "/form" nestedSource).result := by
  obtain ⟨hlast, hclock⟩ := Form.settings_from_last_form_command nestedFiles.sources "/form"
  obtain ⟨survey, hsurvey, hnone, hsome⟩ :=
    hlast nestedSource ⟨0, 0⟩ nestedForm (.text nestedForm_compiles)
  refine ⟨?_, fun now => ?_⟩
  · cases hc : survey.formCommands.getLast? with
    | none => cases hnone.mpr (List.getLast?_eq_none_iff.mp hc)
    | some c =>
      obtain ⟨f, hf, hsettings⟩ := hsome c hc
      exact ⟨survey, c, f, hsurvey, hc, hf, hsettings⟩
  · have htwo := (hclock ⟨0, 0⟩ now).1 nestedSource
    rwa [nestedForm_compiles] at htwo

end SurveyForms
