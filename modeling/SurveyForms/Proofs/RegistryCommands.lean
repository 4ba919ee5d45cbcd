import SurveyForms.Proofs.Jobs
import SurveyForms.Proofs.RegistryFiles

/-! What the commands of a project do to its registry. A compile adds one build, if the registry is
there and the workbook is written; every other command keeps the builds. -/
namespace SurveyForms

def Content.isRegistry : Content → Bool
  | .registry _ => true
  | _ => false

namespace Project

open Job Registry

/-- At the path of the registry there is nothing but a registry, if anything. -/
def Quiet (registry : String) (t : FileTree) : Prop :=
  ∀ content ∈ t.find? (t.locate registry), content.isRegistry

instance (registry : String) (t : FileTree) : Decidable (Quiet registry t) :=
  inferInstanceAs (Decidable (∀ content ∈ t.find? (t.locate registry), _))

/-- The registry holds these builds, if nothing else has come to its place. -/
def Keeps (registry : String) (bs : List Build) (t : FileTree) : Prop :=
  Quiet registry t → Kept t registry bs

/-- A directory or a workbook has come to the place of the registry. -/
def Usurped (registry : String) (t : FileTree) : Prop :=
  ∃ content, t.find? (t.locate registry) = some content ∧
    (content = .directory ∨ ∃ book, content = .book book)

variable {registry : String} {bs : List Build} {w : World} {t t' : FileTree}

theorem Usurped.keeps (h : Usurped registry t) : Keeps registry bs t := by
  obtain ⟨content, hfind, hcontent⟩ := h
  intro hquiet
  have hregistry := hquiet content hfind
  obtain rfl | ⟨book, rfl⟩ := hcontent <;> cases hregistry

/-- What has come to the place of a registry cannot be opened and stays. -/
theorem Usurped.openAt (h : Usurped registry t) (hordinary : Ordinary registry) :
    ∃ t' e, Registry.openAt t registry = (t', .error e) ∧ Usurped registry t' := by
  obtain ⟨content, hfind, hcontent⟩ := h
  rcases openFile_of_found hfind with hopen | ⟨hdirectory, hopen⟩
  · rw [hordinary.openAt_eq, hopen]
    exact ⟨t, .unopenable, rfl, content, hfind, hcontent⟩
  · obtain ⟨book, rfl⟩ := hcontent.resolve_left hdirectory
    rw [hordinary.openAt_eq, hopen]
    refine ⟨_, .notRegistry, rfl, .book book, ?_, .inr ⟨book, rfl⟩⟩
    have hroot : t.locate registry ≠ [] := by
      intro hroot
      rw [hroot] at hfind
      cases hfind
    exact (t.find?_put hroot _ _).trans (if_pos rfl)

/-- Whatever else is written, the registry stays. -/
theorem Keeps.of_writes {names : List String} {content : Content}
    (h : Kept t registry bs) (hwrites : t.Writes names content t')
    (hcontent : content.isRegistry = false) : Keeps registry bs t' := by
  intro hquiet
  refine h.of_find? (hwrites.wellFormed h.wellFormed) hwrites.home ?_
  refine hwrites.find?_other fun heq => ?_
  have hregistry := hquiet content (by rw [hwrites.locate, heq]; exact hwrites.find?_self)
  rw [hcontent] at hregistry
  cases hregistry

theorem ends_ignoreRegistry (h : Kept w.files registry bs) :
    (ignoreRegistry registry).Leaves w (Keeps registry bs) := by
  unfold ignoreRegistry
  refine .bind (ends_files fun w₁ hw₁ => ?_)
  rw [← hw₁] at h ⊢
  extract_lets write
  have hwrite (old : Option String) (w' : World) (hw' : w'.files = w₁.files) :
      (write old).Leaves w' (Keeps registry bs) := by
    rw [← hw'] at h
    unfold write
    split
    extract_lets say
    split
    · refine .bind (ends_check (fun t ht w₂ _ => ?_) fun _ _ _ => h)
      refine .bind (ends_setFiles fun w₃ hw₃ => ends_print ?_)
      rw [hw₃]
      rw [← hw'] at ht
      exact .of_writes h (FileTree.writes_of_writeFile h.wellFormed ht).1 rfl
    · exact ends_print fun _ => h
  clear_value write
  split
  · exact .bind (ends_pure (hwrite _))
  · split
    · exact .bind (ends_pure (hwrite _))
    · exact ends_throw fun _ => h

theorem kept_or_usurped_of_extends (h : Kept t registry bs) (hextends : t.Extends t') :
    Kept t' registry bs ∨ Usurped registry t' := by
  rcases hextends.found (t.locate registry) with hsame | ⟨_, hdirectory⟩
  · exact .inl (h.of_find? hextends.wellFormed hextends.home hsame)
  · have hlocate : t'.locate registry = t.locate registry := by
      unfold FileTree.locate
      rw [hextends.home]
    exact .inr ⟨.directory, hlocate ▸ hdirectory, .inl rfl⟩

/-- A registry is opened with its builds, or it is not there and cannot be made. -/
theorem ends_openRegistry_of_kept (hordinary : Ordinary registry) (h : Kept w.files registry bs)
    {done : Registry → FileTree → Prop} {failed : FileTree → Prop}
    (hopened : ∀ t', Opened w.files registry bs (t', .ok (ofBuilds bs)) → done (ofBuilds bs) t')
    (hrefused : w.files.find? (w.files.locate registry) = none → failed w.files) :
    (openRegistry registry).Ends w done failed := by
  generalize hopen : openAt w.files registry = result
  have hcases := h.opened hordinary
  rw [hopen] at hcases
  cases hcases with
  | refused hnone =>
    exact ends_openRegistry hopen (fun r hr => by cases hr) fun _ _ => hrefused hnone
  | opened hkept hshort hthere habsent =>
    refine ends_openRegistry hopen (fun r hr => ?_) fun e he => by cases he
    cases hr
    exact hopened _ (.opened hkept hshort hthere habsent)

/-- Setting up a registry changes none of its builds. -/
theorem ends_init (hordinary : Ordinary registry) (h : Kept w.files registry bs) :
    (Project.init registry).Leaves w (Keeps registry bs) := by
  unfold Project.init
  extract_lets dir rest
  have hrest (w' : World) (h' : Kept w'.files registry bs ∨ Usurped registry w'.files) :
      (rest ()).Leaves w' (Keeps registry bs) := by
    refine .bind (ends_files fun w₁ hw₁ => ?_)
    rw [← hw₁] at h'
    extract_lets existed
    refine .bind ?_
    rcases h' with hkept | husurped
    · refine ends_openRegistry_of_kept hordinary hkept (fun t' hopened w₂ hw₂ => ?_)
        fun _ _ => hkept
      refine .bind (ends_print fun w₃ hw₃ => ends_ignoreRegistry ?_)
      rw [hw₃, hw₂]
      exact hopened.kept
    · obtain ⟨t', e, hopen, husurped'⟩ := husurped.openAt hordinary
      exact ends_openRegistry hopen (fun r hr => by cases hr) fun _ _ => husurped'.keeps
  clear_value rest dir
  split
  · refine .bind (ends_files fun w₁ hw₁ => ?_)
    extract_lets existed
    have hextends := FileTree.extends_makeDirectories h.wellFormed dir
    split
    next made failure hmake =>
    rw [hmake] at hextends
    refine .bind (ends_setFiles fun w₂ hw₂ => ?_)
    -- a directory on the way may have come to the very place of the registry
    have hmade := kept_or_usurped_of_extends h hextends
    rw [← hw₂] at hmade
    split
    · exact ends_throw (hmade.elim (fun hkept _ => hkept) Usurped.keeps)
    · exact .bind (ends_print fun w₃ hw₃ => hrest w₃ (hw₃ ▸ hmade))
  · exact hrest w (.inl h)

/-- Checking a workbook changes no file. -/
theorem ends_examine {path : String} {done : List Lint.Finding → FileTree → Prop}
    {failed : FileTree → Prop}
    (hok : ∀ book, Workbook.load w.files path = .ok book → done (Lint.check book) w.files)
    (herror : ∀ e, Workbook.load w.files path = .error e → failed w.files) :
    (examine path).Ends w done failed := by
  unfold examine printFindings
  refine .bind (ends_files fun w₁ hw₁ => ?_)
  refine .bind (ends_check (fun book hbook w₂ hw₂ => ?_) fun e he => hw₁ ▸ herror e he)
  extract_lets findings
  refine .bind (.bind (ends_print fun w₃ hw₃ => ends_print fun w₄ hw₄ => ?_))
  refine ends_pure ?_
  rw [hw₄, hw₃, hw₂, hw₁]
  exact hok book hbook

theorem ends_lint {path : String} {P : FileTree → Prop} (h : P w.files) :
    (Project.lint path).Leaves w P := by
  unfold Project.lint
  refine .bind (ends_examine (fun book _ w₁ hw₁ => ?_) fun _ _ => h)
  rw [← hw₁] at h
  split
  · exact ends_throw h
  · exact ends_pure h

theorem ends_outline {source : String} {now : Moment} {P : FileTree → Prop} (h : P w.files) :
    (outline source now).Leaves w P := by
  unfold outline
  exact .bind (ends_compile (fun _ _ w₁ hw₁ => ends_print (hw₁ ▸ h)) fun _ _ => h)

/-- Listing builds changes none of them. -/
theorem ends_history {form : String} (hordinary : Ordinary registry)
    (h : Kept w.files registry bs) :
    (history registry form).Leaves w (Keeps registry bs) := by
  unfold history builds
  refine .bind (ends_files fun w₁ hw₁ => ?_)
  rw [← hw₁] at h
  extract_lets list
  split
  · exact ends_throw fun _ => h
  refine .bind (.bind ?_)
  refine ends_openRegistry_of_kept hordinary h (fun t' hopened w₂ hw₂ => ?_) fun _ _ => h
  have hkept : Kept w₂.files registry bs := hw₂ ▸ hopened.kept
  refine ends_check (fun found _ w₃ hw₃ => ends_print fun _ => ?_) fun _ _ _ => hkept
  rwa [hw₃]

variable {o : CompileOptions} {now : Moment}

def CompileOptions.build (o : CompileOptions) (now : Moment) (settings : Row) (form : Form)
    (findings : List Lint.Finding) : Build :=
  ⟨o.source, o.target, settings.text "form_id", settings.text "version", form.survey.length,
    form.choices.length, (Lint.counts findings).1, (Lint.counts findings).2, now.unix⟩

def CompileOptions.findings (o : CompileOptions) (saved : FileTree) : List Lint.Finding :=
  if o.lint then ((Workbook.load saved o.target).toOption.map Lint.check).getD [] else []

/-- The build of a compile that gets past writing its workbook. -/
def CompileOptions.written? (o : CompileOptions) (now : Moment) (t : FileTree) : Option Build := do
  let form ← (Form.ofFile t.sources now o.source).result.toOption
  let settings ← form.settings
  match (Workbook.ofRows form.survey form.choices settings).save t o.target with
  | (saved, none) => some (o.build now settings form (o.findings saved))
  | (_, some _) => none

/-- The build that a compile adds to its registry. -/
def CompileOptions.added? (o : CompileOptions) (now : Moment) (t : FileTree) : Option Build :=
  if (t.find? (t.locate o.registry)).isSome then o.written? now t else none

theorem CompileOptions.findings_of_load {saved : FileTree} {loaded : Workbook}
    (h : Workbook.load saved o.target = .ok loaded) :
    o.findings saved = if o.lint then Lint.check loaded else [] := by
  rw [findings, h]
  rfl

/-- A workbook that can be loaded is checked, if asked to, and what was found is handed on. -/
theorem ends_checked {loaded : Workbook} {next : List Lint.Finding → Job Unit}
    {P : FileTree → Prop} (hload : Workbook.load w.files o.target = .ok loaded)
    (hnext : ∀ w', w'.files = w.files → (next (o.findings w.files)).Leaves w' P) :
    (if o.lint then do
      let findings ← examine o.target
      next findings
    else do
      let findings ← pure []
      next findings).Leaves w P := by
  rw [CompileOptions.findings_of_load hload] at hnext
  split
  · next hlint =>
    rw [if_pos hlint] at hnext
    refine .bind (ends_examine (fun loaded' hloaded w₁ hw₁ => ?_) fun e he => ?_)
    · cases hload.symm.trans hloaded
      exact hnext w₁ hw₁
    · cases hload.symm.trans he
  · next hlint =>
    rw [if_neg hlint] at hnext
    exact .bind (ends_pure hnext)

theorem CompileOptions.added?_of_settings {form : Form} {settings : Row}
    (hform : (Form.ofFile t.sources now o.source).result = .ok form)
    (hsettings : form.settings = some settings) :
    o.added? now t = if (t.find? (t.locate o.registry)).isSome then
      match (Workbook.ofRows form.survey form.choices settings).save t o.target with
      | (saved, none) => some (o.build now settings form (o.findings saved))
      | (_, some _) => none
    else none := by
  rw [added?, written?, hform]
  simp only [Except.toOption, Option.bind_eq_bind, Option.bind_some, hsettings]

/-- A build is recorded in a registry that is there. -/
theorem ends_recordBuild (hordinary : Ordinary o.registry) (h : Kept w.files o.registry bs)
    (settings : Row) (form : Form) (findings : List Lint.Finding) :
    (recordBuild o now settings form findings).Leaves w fun t =>
      Kept t o.registry (bs ++ if (w.files.find? (w.files.locate o.registry)).isSome then
        [o.build now settings form findings] else []) := by
  unfold recordBuild addBuild
  refine .bind (ends_files fun w₁ hw₁ => ?_)
  rw [← hw₁] at h ⊢
  cases h.holds with
  | nothing hnone =>
    simp only [hnone, Option.isSome_none, Bool.false_eq_true, if_false, List.append_nil]
    split
    · exact ends_log h
    next hpresent =>
    -- where a registry can be made its absence is noticed, so here it cannot
    refine .bind (.bind (ends_openRegistry_of_kept hordinary h (fun t' hopened => ?_) fun _ => h))
    cases hopened with
    | opened _ _ _ habsent => exact absurd (habsent hnone) hpresent
  | registry hshort hfind =>
    have hpresent := h.isAbsent_of_registry hordinary hshort hfind
    simp only [hfind, Option.isSome_some, if_true, hpresent, Bool.false_eq_true, if_false]
    refine .bind (.bind (ends_openRegistry_of_kept hordinary h (fun t' hopened w₂ hw₂ => ?_)
      fun hnone => ?_))
    · cases hopened with
      | opened hkept _ hthere _ =>
        rw [record_ofBuilds]
        refine .bind (ends_check (fun recorded hrecorded w₃ hw₃ => ?_) fun _ he => by cases he)
        cases hrecorded
        refine .bind (ends_files fun w₄ hw₄ => .bind (ends_setFiles fun w₅ hw₅ => ?_))
        refine ends_pure fun w₆ hw₆ => ends_log ?_
        rw [hw₆, hw₅, hw₃, hw₂, hordinary.keep_eq]
        exact hkept.put_registry hshort (hkept.wellFormed.find?_dropLast hthere) _
    · rw [hnone] at hfind
      cases hfind

/-- What has come to the place of a registry stays when a build is to be recorded. -/
theorem ends_recordBuild_of_usurped (hordinary : Ordinary o.registry)
    (h : Usurped o.registry w.files) (settings : Row) (form : Form)
    (findings : List Lint.Finding) : (recordBuild o now settings form findings).Leaves w
      (Usurped o.registry) := by
  unfold recordBuild addBuild
  refine .bind (ends_files fun w₁ hw₁ => ?_)
  rw [← hw₁] at h ⊢
  split
  · exact ends_log h
  · obtain ⟨t', e, hopen, h'⟩ := h.openAt hordinary
    exact .bind (.bind (ends_openRegistry hopen (fun r hr => by cases hr) fun _ _ => h'))

/-- A source that does not compile or has no settings. -/
def CompileOptions.Unready (o : CompileOptions) (now : Moment) (t : FileTree) : Prop :=
  ∀ form, (Form.ofFile t.sources now o.source).result = .ok form → form.settings = none

instance : Decidable (o.Unready now t) :=
  match h : (Form.ofFile t.sources now o.source).result with
  | .error _ => isTrue fun _ hform => by cases h.symm.trans hform
  | .ok form => decidable_of_iff (form.settings = none)
    ⟨fun hnone _ hform => by cases h.symm.trans hform; exact hnone, fun hunready => hunready form h⟩

theorem CompileOptions.Unready.written? (h : o.Unready now t) : o.written? now t = none := by
  unfold CompileOptions.written?
  cases hform : (Form.ofFile t.sources now o.source).result with
  | error e => rfl
  | ok form => simp [Except.toOption, h form hform]

/-- Without settings nothing is written. -/
theorem ends_compile_of_unready (h : o.Unready now w.files) {P : FileTree → Prop}
    (hP : P w.files) : (Project.compile o now).Leaves w P := by
  unfold Project.compile
  refine .bind (ends_compile (fun form hform w₁ hw₁ => ?_) fun _ _ => hP)
  rw [h form hform]
  refine ends_throw ?_
  rwa [hw₁]

/-- Once the workbook is written, the build is recorded in a registry that was there. -/
private theorem ends_recordBuild_of_writes (hordinary : Ordinary o.registry) {book : Book}
    (h : Kept t o.registry bs) (hwrites : t.Writes (t.locate o.target) (.book book) w.files)
    (settings : Row) (form : Form) (findings : List Lint.Finding) :
    (recordBuild o now settings form findings).Leaves w
      (Keeps o.registry (bs ++ if (t.find? (t.locate o.registry)).isSome then
        [o.build now settings form findings] else [])) := by
  by_cases hplace : t.locate o.registry = t.locate o.target
  · have husurped : Usurped o.registry w.files :=
      ⟨.book book, by rw [hwrites.locate, hplace]; exact hwrites.find?_self, .inr ⟨book, rfl⟩⟩
    exact (ends_recordBuild_of_usurped hordinary husurped settings form findings).imp
      (fun _ _ => Usurped.keeps) fun _ => Usurped.keeps
  · have hsame := hwrites.find?_other hplace
    have hkept : Kept w.files o.registry bs :=
      h.of_find? (hwrites.wellFormed h.wellFormed) hwrites.home hsame
    rw [← hsame, ← hwrites.locate]
    exact (ends_recordBuild hordinary hkept settings form findings).imp
      (fun _ _ hkept' _ => hkept') fun _ hkept' _ => hkept'

/-- Of a compile, the registry keeps the build if it was there and the workbook is written, also
if the compile then fails for what was found in the workbook. -/
theorem ends_compile_of_settings (hordinary : Ordinary o.registry) (h : Kept w.files o.registry bs)
    {form : Form} {settings : Row}
    (hform : (Form.ofFile w.files.sources now o.source).result = .ok form)
    (hsettings : form.settings = some settings) :
    (Project.compile o now).Leaves w (Keeps o.registry (bs ++ (o.added? now w.files).toList)) := by
  have hsaved := Workbook.saved (w := .ofRows form.survey form.choices settings) h.wellFormed rfl
    o.target
  have hadded := CompileOptions.added?_of_settings hform hsettings
  unfold Project.compile
  refine .bind (ends_compile (fun form' hform' w₁ hw₁ => ?_) fun e he => ?_)
  · cases hform.symm.trans hform'
    rw [hsettings]
    refine .bind (ends_files fun w₂ hw₂ => ?_)
    rw [hw₁]
    generalize Workbook.save w.files o.target _ = result at hsaved hadded ⊢
    refine .bind (ends_setFiles fun w₃ hw₃ => ?_)
    extract_lets record finish
    cases hsaved with
    | refused e =>
      refine ends_throw fun _ => ?_
      rw [hadded, ite_self, Option.toList_none, List.append_nil, hw₃]
      exact h
    | emptied e hwrites =>
      refine ends_throw ?_
      rw [hadded, ite_self, Option.toList_none, List.append_nil, hw₃]
      exact .of_writes h hwrites rfl
    | @written t' book loaded hwrites hload =>
      have hrecord (w' : World) (hw' : w'.files = t') : (record (o.findings t')).Leaves w'
          (Keeps o.registry (bs ++ (o.added? now w.files).toList)) := by
        subst hw'
        rw [hadded, apply_ite Option.toList]
        refine .bind ((ends_recordBuild_of_writes hordinary h hwrites _ _ _).imp ?_ fun _ => id)
        intro _ t hkeeps w₁ hw₁
        rw [← hw₁] at hkeeps
        split
        · exact ends_throw hkeeps
        · exact ends_pure hkeeps
      refine .bind (ends_print fun w₄ hw₄ => .bind (ends_log fun w₅ hw₅ => ?_))
      have hw₅ : w₅.files = t' := by rw [hw₅, hw₄, hw₃]
      subst hw₅
      exact ends_checked hload hrecord
  · cases hform.symm.trans he

theorem ends_compile_of_kept (hordinary : Ordinary o.registry) (h : Kept w.files o.registry bs) :
    (Project.compile o now).Leaves w (Keeps o.registry (bs ++ (o.added? now w.files).toList)) := by
  by_cases hready : o.Unready now w.files
  · refine ends_compile_of_unready hready fun _ => ?_
    rw [CompileOptions.added?, hready.written?, ite_self, Option.toList_none, List.append_nil]
    exact h
  · simp only [CompileOptions.Unready, not_forall] at hready
    obtain ⟨form, hform, hsettings⟩ := hready
    obtain ⟨settings, hsettings⟩ := Option.ne_none_iff_exists'.mp hsettings
    exact ends_compile_of_settings hordinary h hform hsettings

end Project
end SurveyForms
