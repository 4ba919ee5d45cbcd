import SurveyForms.Project.Basic

/-! What jobs do to the files of a project, one rule for each way to build a job. What a job
prints and logs has no part in it. -/
namespace SurveyForms.Job

/-- The world that a job leaves, whether it fails or not. -/
def after (x : Job α) (w : World) : World :=
  match x w with
  | .ok _ w' => w'
  | .error _ w' => w'

/-- A job ends with a value and files as `done` says, or fails with files as `failed` says. -/
structure Ends (x : Job α) (w : World) (done : α → FileTree → Prop) (failed : FileTree → Prop) :
    Prop where
  result : match x w with
    | .ok a w' => done a w'.files
    | .error _ w' => failed w'.files

/-- A job leaves such files, whether it fails or not. -/
abbrev Leaves (x : Job α) (w : World) (P : FileTree → Prop) : Prop := x.Ends w (fun _ => P) P

variable {w : World} {done : α → FileTree → Prop} {failed : FileTree → Prop}

theorem Leaves.after {x : Job α} {P : FileTree → Prop} (h : x.Leaves w P) :
    P (x.after w).files := by
  have hresult := h.result
  unfold Job.after
  split at hresult <;> exact hresult

theorem Ends.imp {x : Job α} {done' : α → FileTree → Prop} {failed' : FileTree → Prop}
    (h : x.Ends w done failed) (hdone : ∀ a t, done a t → done' a t)
    (hfailed : ∀ t, failed t → failed' t) : x.Ends w done' failed' := by
  have hresult := h.result
  refine ⟨?_⟩
  split at hresult
  · exact hdone _ _ hresult
  · exact hfailed _ hresult

theorem Ends.bind {x : Job β} {f : β → Job α}
    (h : x.Ends w (fun b t => ∀ w', w'.files = t → (f b).Ends w' done failed) failed) :
    (x >>= f).Ends w done failed := by
  have hfirst := h.result
  refine ⟨?_⟩
  change match EStateM.bind x f w with
    | .ok a w' => done a w'.files
    | .error _ w' => failed w'.files
  unfold EStateM.bind
  split at hfirst
  · next b w' heq =>
    rw [heq]
    exact (hfirst w' rfl).result
  · next e w' heq =>
    rw [heq]
    exact hfirst

/-- The rest of a job goes on where its first part has ended. -/
theorem bind_of_ok {x : Job β} {f : β → Job α} {b : β} {w' : World} (h : x w = .ok b w') :
    (x >>= f) w = f b w' := by
  change EStateM.bind x f w = _
  unfold EStateM.bind
  rw [h]

theorem ends_pure {a : α} (h : done a w.files) : (pure a : Job α).Ends w done failed :=
  ⟨h⟩

theorem ends_throw {e : Failure} (h : failed w.files) : (throw e : Job α).Ends w done failed :=
  ⟨h⟩

theorem ends_check {wrap : ε → Failure} {x : Except ε α} (hok : ∀ a, x = .ok a → done a w.files)
    (herror : ∀ e, x = .error e → failed w.files) : (check wrap x).Ends w done failed := by
  cases x with
  | ok a => exact ⟨hok a rfl⟩
  | error e => exact ⟨herror e rfl⟩

section Unit

variable {done : Unit → FileTree → Prop}

theorem ends_modify {f : World → World} (h : done () (f w).files) :
    (modify f : Job Unit).Ends w done failed :=
  ⟨h⟩

theorem ends_setFiles {t : FileTree} (h : done () t) : (setFiles t).Ends w done failed :=
  ⟨h⟩

theorem ends_print {text : String} (h : done () w.files) : (print text).Ends w done failed :=
  ⟨h⟩

theorem ends_log {level : LogLevel} {message : String} {fields : List (String × String)}
    (h : done () w.files) : (log level message fields).Ends w done failed :=
  ⟨h⟩

end Unit

theorem ends_files {done : FileTree → FileTree → Prop} (h : done w.files w.files) :
    files.Ends w done failed :=
  ⟨h⟩

theorem ends_openRegistry {done : Registry → FileTree → Prop} {path : String} {t : FileTree}
    {result : Except Registry.OpenError Registry}
    (hopen : Registry.openAt w.files path = (t, result)) (hok : ∀ r, result = .ok r → done r t)
    (herror : ∀ e, result = .error e → failed t) : (openRegistry path).Ends w done failed := by
  unfold openRegistry
  refine .bind (ends_files fun w₁ _ => ?_)
  rw [hopen]
  refine .bind (ends_setFiles fun w₂ hw₂ => ends_check (fun r hr => ?_) fun e he => ?_)
  · exact hw₂ ▸ hok r hr
  · exact hw₂ ▸ herror e he

/-- Compiling leaves the files as they are. -/
theorem ends_compile {done : Form → FileTree → Prop} {now : Moment} {source : String}
    (hok : ∀ form, (Form.ofFile w.files.sources now source).result = .ok form →
      done form w.files)
    (herror : ∀ e, (Form.ofFile w.files.sources now source).result = .error e →
      failed w.files) : (Job.compile now source).Ends w done failed := by
  unfold Job.compile
  refine .bind (ends_files fun w₁ hw₁ => .bind (ends_modify fun w₂ hw₂ => ?_))
  have hsame : w₂.files = w.files := hw₂.trans hw₁
  refine ends_check (fun form hform => ?_) fun e he => ?_
  · exact hsame ▸ hok form hform
  · exact hsame ▸ herror e he

end SurveyForms.Job
