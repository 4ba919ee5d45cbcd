import SurveyForms.Proofs.Columns
import SurveyForms.Proofs.Session

/-! Statements that follow each other. Main statement: a block of statements expands to what its
front part expands to, followed by what the rest expands to. All that the rest sees of the front
part is the last `required` among its own statements. -/
namespace SurveyForms

namespace Logged

private theorem bind_assoc (x : Logged ε α) (f : α → Logged ε β) (g : β → Logged ε γ) :
    x >>= f >>= g = x >>= fun a => f a >>= g := by
  change (x.bind f).bind g = x.bind fun a => (f a).bind g
  obtain ⟨log, result⟩ := x
  cases result with
  | error e => rfl
  | ok a =>
    simp only [bind]
    cases (f a).result with
    | error e => rfl
    | ok b => simp only [List.append_assoc]

private theorem pure_bind (a : α) (f : α → Logged ε β) : pure a >>= f = f a := rfl

private theorem bind_pure (x : Logged ε α) : x >>= pure = x := by
  obtain ⟨log, result⟩ := x
  cases result with
  | error e => rfl
  | ok a => exact congrArg (Logged.mk · _) (List.append_nil log)

instance : LawfulMonad (Logged ε) :=
  LawfulMonad.mk' (m := Logged ε) bind_pure pure_bind bind_assoc

/-- What follows a computation matters only for the value that the computation has. -/
theorem bind_congr_of_result {x : Logged ε α} {f g : α → Logged ε β}
    (h : ∀ a, x.result = .ok a → f a = g a) : x >>= f = x >>= g := by
  obtain ⟨log, result⟩ := x
  cases result with
  | error e => rfl
  | ok a =>
    change Logged.bind _ f = Logged.bind _ g
    simp only [bind, h a rfl]

theorem mapError_map (f : ε → δ) (g : α → β) (x : Logged ε α) :
    mapError f (g <$> x) = g <$> mapError f x := by
  obtain ⟨log, result⟩ := x
  cases result <;> rfl

end Logged

namespace Forest

def ownLeaves : Forest α β → List α
  | .nil => []
  | .leaf a rest => a :: rest.ownLeaves
  | .block _ _ rest => rest.ownLeaves

theorem nil_append (g : Forest α β) : (.nil : Forest α β) ++ g = g := rfl

theorem leaf_append (a : α) (f g : Forest α β) : .leaf a f ++ g = .leaf a (f ++ g) := rfl

theorem block_append (h : β) (body f g : Forest α β) :
    .block h body f ++ g = .block h body (f ++ g) := rfl

theorem append_assoc (f g h : Forest α β) : f ++ g ++ h = f ++ (g ++ h) := by
  induction f with
  | nil => rfl
  | leaf a f ih => rw [leaf_append, leaf_append, leaf_append, ih]
  | block b body f _ ih => rw [block_append, block_append, block_append, ih]

end Forest

namespace Form

theorem append_assoc (a b c : Form) : (a.append b).append c = a.append (b.append c) := by
  simp only [append, List.append_assoc, Option.orElse_eq_orElse, Option.orElse_eq_or,
    Option.or_assoc]

theorem empty_append (a : Form) : empty.append a = a := by
  simp [append, empty]

theorem append_empty (a : Form) : a.append empty = a := by
  simp [append, empty]

end Form

namespace FormTree

def scopeBehind (scope : Scope) : FormTree → Scope
  | .nil => scope
  | .leaf (.required value) rest => scopeBehind (scope.insert "required" value) rest
  | .leaf _ rest => scopeBehind scope rest
  | .block _ _ rest => scopeBehind scope rest

/-- A tree behind another one is expanded in the scope that the other one leaves. -/
theorem expand_append (now : Moment) (scope : Scope) (a b : FormTree) :
    expand now scope (a ++ b) =
      (expand now scope a).append (expand now (scopeBehind scope a) b) := by
  induction a generalizing scope with
  | nil => exact (Form.empty_append _).symm
  | leaf item rest ih =>
    rw [Forest.leaf_append]
    cases item with
    | required value => exact ih _
    | question q => rw [expand, expand, ih, Form.append_assoc]; rfl
    | settings f => rw [expand, expand, ih, Form.append_assoc]; rfl
    | choices c => rw [expand, expand, ih, Form.append_assoc]; rfl
  | block part body rest _ ih =>
    rw [Forest.block_append]
    cases part with
    | conditional condition => rw [expand, expand, ih, Form.append_assoc]; rfl
    | group g => rw [expand, expand, ih]; simp only [Form.append_assoc]; rfl
    | included => rw [expand, expand, ih, Form.append_assoc]; rfl

end FormTree

/-- What is made of an included file may as well be made inside the inclusion. -/
theorem Sources.map_inclusion (s : Sources) (chain : List String) (c : Command) (bindings : Row)
    (f : α → β) (next : (path src : String) → (opened : List String) →
      s.unopened opened < s.unopened chain → Compiling α) :
    f <$> s.inclusion chain c bindings next =
      s.inclusion chain c bindings fun path src opened smaller =>
        f <$> next path src opened smaller := by
  unfold inclusion
  simp only [map_bind]
  refine bind_congr fun _ => ?_
  split
  · rfl
  rw [← Logged.mapError_map, map_bind]
  refine congrArg _ (bind_congr fun _ => ?_)
  split
  · rfl
  · exact map_bind _ _ _

namespace Survey

/-- The commands of a block itself. What stands inside its blocks does not count. -/
def ownCommands (survey : Survey) : List Command :=
  survey.ownLeaves.filterMap SurveyLeaf.command?

/-- The argument of the last `required` among the commands of a block itself. -/
def lastRequired (survey : Survey) : Option String :=
  (survey.ownCommands.filter (·.name = "required")).getLast?.map (·.first)

def scopeBehind (scope : Scope) (survey : Survey) : Scope :=
  match survey.lastRequired with
  | some value => scope.insert "required" value
  | none => scope

/-- The form that statements stand for, with a scope in force in front of them and these files
open. -/
def expand (s : Sources) (now : Moment) (chain : List String) (scope : Scope) (survey : Survey) :
    Compiling Form := do
  return FormTree.expand now scope (← FormTree.ofSurvey s chain survey)

theorem resolve_append (command : Command → Compiling FormTree) (a b : Survey) :
    resolve command (a ++ b) = do
      let front ← resolve command a
      let rest ← resolve command b
      return front ++ rest := by
  induction a with
  | nil => exact (bind_pure (resolve command b)).symm
  | leaf statement rest ih =>
    rw [Forest.leaf_append]
    cases statement with
    | comment pos text => exact ih
    | command c => simp only [resolve, ih, bind_assoc, pure_bind, Forest.append_assoc]
    | question q => simp only [resolve, ih, bind_assoc, pure_bind, Forest.leaf_append]
  | block h body rest _ ih =>
    rw [Forest.block_append]
    simp only [resolve, ih, bind_assoc, pure_bind, Forest.block_append]

theorem scopeBehind_required (scope : Scope) {c : Command} (h : c.name = "required")
    (rest : Survey) : scopeBehind scope (.leaf (.command c) rest) =
      scopeBehind (scope.insert "required" c.first) rest := by
  have hlast : lastRequired (.leaf (.command c) rest) = some (rest.lastRequired.getD c.first) := by
    simp only [lastRequired, ownCommands, Forest.ownLeaves, List.filterMap_cons,
      SurveyLeaf.command?, List.filter_cons, h, decide_true, if_true, List.getLast?_cons,
      Option.map_some]
    cases List.getLast? _ <;> rfl
  rw [scopeBehind, hlast, scopeBehind]
  cases rest.lastRequired with
  | none => rfl
  | some value =>
    refine Row.ext_get? fun key => ?_
    simp only [Option.getD_some, Row.get?_insert]
    split <;> rfl

/-- A statement other than a `required` command does not count. -/
theorem scopeBehind_leaf (scope : Scope) {statement : SurveyLeaf}
    (h : ∀ c, statement.command? = some c → c.name ≠ "required") (rest : Survey) :
    scopeBehind scope (.leaf statement rest) = scopeBehind scope rest := by
  have hlast : lastRequired (.leaf statement rest) = rest.lastRequired := by
    simp only [lastRequired, ownCommands, Forest.ownLeaves, List.filterMap_cons]
    cases hc : statement.command? with
    | none => rfl
    | some c => rw [List.filter_cons_of_neg (by simpa using h c hc)]
  rw [scopeBehind, scopeBehind, hlast]

/-- A source and its tree leave the same scope: files put in place of commands leave no trace. -/
theorem Resolves.scopeBehind_eq {s : Sources} {survey : Survey} {tree : FormTree}
    (h : survey.Resolves s tree) (scope : Scope) :
    FormTree.scopeBehind scope tree = scopeBehind scope survey := by
  induction h generalizing scope with
  | nil => rfl
  | comment _ ih => exact ih scope
  | question _ ih => exact ih scope
  | block _ _ _ ih => exact ih scope
  | required hname _ _ ih =>
    rw [scopeBehind_required scope hname]
    exact ih _
  | form hname _ _ ih | choices hname _ _ _ _ ih | included hname _ _ _ _ _ ih =>
    rw [scopeBehind_leaf scope (by rintro c ⟨⟩; simp [hname])]
    exact ih scope

/-- Expansion goes from front to back. -/
theorem expand_append (s : Sources) (now : Moment) (chain : List String) (scope : Scope)
    (a b : Survey) : expand s now chain scope (a ++ b) = do
      let front ← expand s now chain scope a
      let rest ← expand s now chain (scopeBehind scope a) b
      return front.append rest := by
  have hresolve : FormTree.ofSurvey s chain (a ++ b) = do
      let front ← FormTree.ofSurvey s chain a
      let rest ← FormTree.ofSurvey s chain b
      return front ++ rest := by
    rw [FormTree.ofSurvey.eq_1 s chain (a ++ b), FormTree.ofSurvey.eq_1 s chain a,
      FormTree.ofSurvey.eq_1 s chain b]
    exact resolve_append _ a b
  simp only [expand, hresolve, bind_assoc, pure_bind]
  refine Logged.bind_congr_of_result fun tree htree => ?_
  have hscope := (resolves_of_ofSurvey s chain a tree htree).scopeBehind_eq scope
  simp only [FormTree.expand_append, hscope]

/-- A block becomes a part of its own. -/
theorem ofSurvey_block (s : Sources) (chain : List String) (h : SurveyHeader) (body : Survey) :
    FormTree.ofSurvey s chain (.block h body .nil) =
      (.block h.part · .nil) <$> FormTree.ofSurvey s chain body := by
  rw [FormTree.ofSurvey.eq_1 s chain (.block _ _ _), FormTree.ofSurvey.eq_1 s chain body]
  simp only [resolve, bind_pure_comp, map_pure]

/-- A condition holds for its block only. -/
theorem expand_conditional (s : Sources) (now : Moment) (chain : List String) (scope : Scope)
    (pos : Position) (condition : Condition) (body : Survey) :
    expand s now chain scope (.block (.conditional pos condition) body .nil) =
      expand s now chain
        (scope.merge (Row.ofList [(Scope.relevanceKey, condition.expression)])) body := by
  simp only [expand, ofSurvey_block, bind_map_left, SurveyHeader.part, FormTree.expand,
    Form.append_empty]

/-- A group's pairs hold for its rows only. -/
theorem expand_group (s : Sources) (now : Moment) (chain : List String) (scope : Scope)
    (g : Group) (body : Survey) :
    expand s now chain scope (.block (.group g) body .nil) = do
      let inner ← expand s now chain (g.bodyScope scope) body
      return Form.append ⟨[g.openingRow scope], [], none⟩
        (inner.append ⟨[g.closingRow], [], none⟩) := by
  simp only [expand, ofSurvey_block, bind_map_left, bind_assoc, pure_bind, SurveyHeader.part,
    FormTree.expand, Form.append_empty]

/-- A file is expanded in the scope of the command that names it, and gives no settings. -/
theorem expand_include (s : Sources) (now : Moment) (chain : List String) (scope : Scope)
    {c : Command} (h : c.name = "include") :
    expand s now chain scope (.leaf (.command c) .nil) = (do
      let bindings ← Compiling.diagnose (c.bindings c.others)
      s.inclusion chain c bindings fun path src opened _ => do
        let file ← Compiling.diagnose (Survey.ofSource path src)
        let inner ← expand s now opened scope file
        return { inner with settings := none }) := by
  rw [expand, FormTree.ofSurvey.eq_1 s chain (.leaf _ _), resolve]
  simp only [h, resolve, bind_assoc, pure_bind]
  refine bind_congr fun bindings => ?_
  rw [bind_pure_comp, Sources.map_inclusion]
  simp only [map_bind, map_pure, expand, bind_assoc, pure_bind, Forest.block_append,
    Forest.nil_append, FormTree.expand, Form.append_empty]

/-- The statements of a survey text are expanded from an empty scope, with the text alone open. -/
theorem ofText_eq_expand (s : Sources) (now : Moment) (name src : String) :
    Form.ofText s now name src = (do
      let survey ← Compiling.diagnose (Survey.ofSource name src)
      let form ← expand s now [s.canonical name] ∅ survey
      Logged.write .debug "compiled"
        [("file", name), ("survey", toString form.survey.length),
          ("choices", toString form.choices.length)]
      return form) := by
  simp only [Form.ofText, expand, bind_assoc, pure_bind]

/-- Expansion is compositional and does not leak. If the front part of some statements fails, all
of them fail with its error. Otherwise they give what the front part gives, followed by what the
rest gives in the scope that the last `required` among the front part's own statements sets; and
the files that are open behind the front part are those that were open before it. -/
theorem expand_compositional (s : Sources) (now : Moment) (chain : List String) (scope : Scope)
    (a b : Survey) :
    (∀ e, (expand s now chain scope a).result = .error e →
      (expand s now chain scope (a ++ b)).result = .error e) ∧
    ∀ front, (expand s now chain scope a).result = .ok front →
      (expand s now chain scope (a ++ b)).result =
          (expand s now chain (scopeBehind scope a) b).result.map front.append ∧
        ∀ later, Session.Reaches s ⟨chain, a.commands.map (.command .survey) ++ later⟩
          ⟨chain, later⟩ := by
  have hresult : (expand s now chain scope (a ++ b)).result =
      (expand s now chain scope a).result.bind fun front =>
        (expand s now chain (scopeBehind scope a) b).result.map front.append := by
    rw [expand_append, Logged.result_bind]
    refine congrArg _ (funext fun front => ?_)
    rw [Logged.result_bind]
    cases (expand s now chain (scopeBehind scope a) b).result <;> rfl
  refine ⟨fun e he => by rw [hresult, he]; rfl, fun front hfront => ⟨?_, fun later => ?_⟩⟩
  · rw [hresult, hfront]
    rfl
  · refine (executes_ofSurvey s chain a).ok ?_ later
    have hexpand : (expand s now chain scope a).outcome =
        (FormTree.ofSurvey s chain a).outcome := Logged.outcome_bind_pure _ _
    rw [← hexpand, Logged.outcome, hfront]
    rfl

end Survey

end SurveyForms
