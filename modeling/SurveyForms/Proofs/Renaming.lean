import SurveyForms.Proofs.BlockViews
import SurveyForms.Proofs.IncludePath

/-! Files under other names. If files are renamed and every command that is met still leads to its
file, compiling goes the same way: the form is the same, and an error is the same with the files
renamed. -/
namespace SurveyForms

open Source (Line)

/-! What holds positions, with its file renamed. -/

def Position.renamed (p : Position) (f : String → String) : Position := { p with file := f p.file }

def Fault.renamed (fault : Fault) (f : String → String) : Fault :=
  match fault with
  | .cycle files => .cycle (files.map f)
  | fault => fault

def Diagnostic.renamed (d : Diagnostic) (f : String → String) : Diagnostic :=
  ⟨d.pos.renamed f, d.fault.renamed f⟩

def Command.renamed (c : Command) (f : String → String) : Command :=
  { c with pos := c.pos.renamed f }

def Question.renamed (q : Question) (f : String → String) : Question :=
  { q with pos := q.pos.renamed f }

def Group.renamed (g : Group) (f : String → String) : Group := { g with pos := g.pos.renamed f }

def Choice.renamed (c : Choice) (f : String → String) : Choice := { c with pos := c.pos.renamed f }

def ChoiceList.renamed (l : ChoiceList) (f : String → String) : ChoiceList :=
  { l with pos := l.pos.renamed f }

def SurveyLeaf.renamed (a : SurveyLeaf) (f : String → String) : SurveyLeaf :=
  match a with
  | .comment pos text => .comment (pos.renamed f) text
  | .command c => .command (c.renamed f)
  | .question q => .question (q.renamed f)

def SurveyHeader.renamed (h : SurveyHeader) (f : String → String) : SurveyHeader :=
  match h with
  | .conditional pos c => .conditional (pos.renamed f) c
  | .group g => .group (g.renamed f)

def ChoicesLeaf.renamed (a : ChoicesLeaf) (f : String → String) : ChoicesLeaf :=
  match a with
  | .comment pos text => .comment (pos.renamed f) text
  | .command c => .command (c.renamed f)
  | .choice c => .choice (c.renamed f)

def Survey.renamed (survey : Survey) (f : String → String) : Survey :=
  survey.map (·.renamed f) (·.renamed f)

def Choices.renamed (choices : Choices) (f : String → String) : Choices :=
  choices.map (·.renamed f) (·.renamed f)

/-! Reading a source under another name. -/

/-- Two readers that differ in the name of the file. -/
structure LineReader.Renames (r r' : LineReader α β) (f : String → String) (g : α → α)
    (h : β → β) : Prop where
  comment : ∀ l, r'.comment l = g (r.comment l)
  isComment : ∀ a, r'.isComment (g a) = r.isComment a
  entry : ∀ l, r'.entry l = both (·.renamed f) (Entry.map g h) (r.entry l)

theorem LineReader.Renames.block {r r' : LineReader α β} {f : String → String} {g : α → α}
    {h : β → β} (hr : r.Renames r' f g h) (file : String) (col : Nat) (ls : List Line) :
    r'.block (f file) col ls = both (·.renamed f) (Forest.map g h) (r.block file col ls) := by
  let v : View α β Diagnostic α β := ⟨r, file, (·.renamed f), g, h⟩
  let v' : View α β Diagnostic α β := ⟨r', f file, id, id, id⟩
  have hplain {γ : Type} (k : γ → γ) (hk : ∀ c, k c = c) (x : Except Diagnostic γ) :
      both id k x = x := by
    cases x with
    | error d => rfl
    | ok c => rw [both_ok, hk]
  have htwins (l : Line) : View.Twins v v' l l := by
    refine ⟨rfl, fun _ => (hr.comment l).symm, ?_, fun fault hfault => ?_⟩
    · exact ((hplain _ Entry.map_id _).trans (hr.entry l)).symm
    · cases fault <;> first | rfl | cases hfault
  have hlines : List.Forall₂ Eq ls ls := List.forall₂_same.mpr fun _ _ => rfl
  have hsame : View.SameComments v v' := fun a a' ha => by
    obtain rfl : a' = g a := ha
    exact hr.isComment a
  have halike := View.block_eq_of_aligned hsame
    (View.aligned_of_forall₂ hlines (fun l l' hl => ⟨hl ▸ rfl, hl ▸ htwins l⟩) col)
  exact (halike.trans (hplain _ Forest.map_id _)).symm

private theorem Fault.renamed_of_isOfLine {fault : Fault} (h : fault.isOfLine)
    (f : String → String) : fault.renamed f = fault := by
  cases fault <;> first | rfl | cases h

private theorem bodilessQuestion_renamed (pos : Position) (f : String → String) (l : Line)
    (label : Option String) (params : List Param) (condition : Option Condition) :
    bodilessQuestion (pos.renamed f) l label params condition =
      (bodilessQuestion pos l label params condition).map (·.renamed f) := by
  unfold bodilessQuestion
  split
  · split <;> rfl
  · rfl

private theorem surveyReader_renames (file : String) (f : String → String) :
    (surveyReader file).Renames (surveyReader (f file)) f (·.renamed f) (·.renamed f) := by
  refine ⟨fun _ => rfl, fun a => by cases a <;> rfl, fun l => ?_⟩
  simp only [surveyReader]
  cases hline : Grammar.parseLine Grammar.surveyLine l.text with
  | error e =>
    have hfault := Fault.renamed_of_isOfLine (Grammar.parseLine_isOfLine hline) f
    show Except.error (Diagnostic.mk ⟨f file, l.number, e.1⟩ e.2) =
      .error ⟨⟨f file, l.number, e.1⟩, e.2.renamed f⟩
    rw [hfault]
  | ok line =>
    cases line with
    | group kind name label params condition =>
      have hbodiless :=
        bodilessQuestion_renamed ⟨file, l.number, l.col⟩ f l label params condition
      exact congrArg (fun bodiless => Except.ok (Entry.header _ bodiless _)) hbodiless
    | command name first others => rfl
    | conditional condition => rfl
    | question name type label params => rfl

private theorem choicesReader_renames (file : String) (f : String → String) :
    (choicesReader file).Renames (choicesReader (f file)) f (·.renamed f) (·.renamed f) := by
  refine ⟨fun _ => rfl, fun a => by cases a <;> rfl, fun l => ?_⟩
  simp only [choicesReader]
  cases hline : Grammar.parseLine Grammar.choicesLine l.text with
  | error e =>
    have hfault := Fault.renamed_of_isOfLine (Grammar.parseLine_isOfLine hline) f
    show Except.error (Diagnostic.mk ⟨f file, l.number, e.1⟩ e.2) =
      .error ⟨⟨f file, l.number, e.1⟩, e.2.renamed f⟩
    rw [hfault]
  | ok line => cases line <;> rfl

theorem Survey.ofSource_renamed (f : String → String) (file src : String) :
    Survey.ofSource (f file) src = both (·.renamed f) (·.renamed f) (Survey.ofSource file src) :=
  (surveyReader_renames file f).block file _ _

theorem Choices.ofText_renamed (f : String → String) (file src : String) :
    Choices.ofText (f file) src = both (·.renamed f) (·.renamed f) (Choices.ofText file src) :=
  (choicesReader_renames file f).block file _ _

theorem Survey.renamed_of_ofSource (f : String → String) {file src : String} {survey : Survey}
    (h : Survey.ofSource file src = .ok survey) :
    Survey.ofSource (f file) src = .ok (survey.renamed f) := by
  rw [Survey.ofSource_renamed, h]
  rfl

theorem Choices.renamed_of_ofText (f : String → String) {file src : String} {choices : Choices}
    (h : Choices.ofText file src = .ok choices) :
    Choices.ofText (f file) src = .ok (choices.renamed f) := by
  rw [Choices.ofText_renamed, h]
  rfl

theorem Source.substitute_renamed (f : String → String) (file src : String) (bindings : Row) :
    Source.substitute (f file) src bindings =
      (Source.substitute file src bindings).mapError (·.renamed f) := by
  unfold Source.substitute
  split <;> rfl

private theorem Forest.leaves_map (g : α → γ) (h : β → δ) (forest : Forest α β) :
    (forest.map g h).leaves = forest.leaves.map g := by
  induction forest with
  | nil => rfl
  | leaf a rest ih => rw [Forest.map, leaves, leaves, List.map_cons, ih]
  | block b body rest ihbody ihrest =>
    rw [Forest.map, leaves, leaves, List.map_append, ihbody, ihrest]

theorem Survey.commands_renamed (survey : Survey) (f : String → String) :
    (survey.renamed f).commands = survey.commands.map (·.renamed f) := by
  rw [commands, commands, renamed, Forest.leaves_map, List.filterMap_map, List.map_filterMap]
  congr 1
  funext a
  cases a <;> rfl

theorem Choices.commands_renamed (choices : Choices) (f : String → String) :
    (choices.renamed f).commands = choices.commands.map (·.renamed f) := by
  rw [commands, commands, renamed, Forest.leaves_map, List.filterMap_map, List.map_filterMap]
  congr 1
  funext a
  cases a <;> rfl

theorem Dialect.commands_renamed (d : Dialect) (f : String → String) (file src : String) :
    d.commands (f file) src = both (·.renamed f) (·.map (·.renamed f)) (d.commands file src) := by
  cases d with
  | survey =>
    rw [commands, commands, Survey.ofSource_renamed]
    cases Survey.ofSource file src with
    | error e => rfl
    | ok survey => exact congrArg Except.ok (survey.commands_renamed f)
  | choices =>
    rw [commands, commands, Choices.ofText_renamed]
    cases Choices.ofText file src with
    | error e => rfl
    | ok choices => exact congrArg Except.ok (choices.commands_renamed f)

namespace Command

variable (c : Command) (f : String → String)

theorem pairs_renamed (args : List String) :
    (c.renamed f).pairs args = (c.pairs args).mapError (·.renamed f) := by
  fun_induction c.pairs args with
  | case1 => rfl
  | case2 last => rfl
  | case3 key value rest ih =>
    rw [pairs, ih]
    cases c.pairs rest <;> rfl

theorem bindings_renamed (args : List String) :
    (c.renamed f).bindings args = (c.bindings args).mapError (·.renamed f) := by
  unfold bindings
  rw [pairs_renamed]
  cases c.pairs args <;> rfl

theorem formSettings_renamed :
    (c.renamed f).formSettings = c.formSettings.mapError (·.renamed f) := by
  have hargs : (c.renamed f).args = c.args := rfl
  unfold formSettings
  rw [hargs]
  split
  · next id version title extra _ =>
    rw [bindings_renamed]
    cases c.bindings extra <;> rfl
  · rfl

/-- What a command asks for does not depend on the name of its file. -/
theorem request_renamed (d : Dialect) :
    (c.renamed f).request d = (c.request d).mapError (·.renamed f) := by
  have hname : (c.renamed f).name = c.name := rfl
  have hothers : (c.renamed f).others = c.others := rfl
  have hargs : (c.renamed f).args = c.args := rfl
  cases d with
  | survey =>
    simp only [request, hname, hothers, hargs, formSettings_renamed, bindings_renamed]
    split
    · cases c.formSettings <;> rfl
    · cases c.bindings c.others <;> rfl
    · cases c.bindings c.others <;> rfl
    · split <;> rfl
    · rfl
  | choices =>
    simp only [request, hname, hothers, bindings_renamed]
    split
    · cases c.bindings c.others <;> rfl
    · rfl

end Command

/-! Doing the commands of a survey with its files renamed. -/

def FileError.renamed (e : FileError) (f : String → String) : FileError :=
  match e with
  | .unknownFile path => .unknownFile (f path)
  | .failed action path cause => .failed action (f path) cause
  | .readOnly => .readOnly

def CompileError.renamed (e : CompileError) (f : String → String) : CompileError :=
  match e with
  | .located d => .located (d.renamed f)
  | .unreadable path cause => .unreadable (f path) (cause.renamed f)
  | .within c inner => .within (c.renamed f) (inner.renamed f)

def Task.renamed (t : Task) (f : String → String) : Task :=
  match t with
  | .command d c => .command d (c.renamed f)
  | .load d c bindings => .load d (c.renamed f) bindings
  | .leave c => .leave (c.renamed f)

def Session.renamed (a : Session) (f : String → String) : Session :=
  ⟨a.chain.map f, a.agenda.map (·.renamed f)⟩

/-- Files under other names: those that are `here` have the same texts and are told apart in the
same way. -/
structure Sources.Renames (s s' : Sources) (f : String → String) (here : String → Prop) :
    Prop where
  canonical : ∀ {p}, here p → s'.canonical (f p) = f (s.canonical p)
  apart : ∀ {p q}, here p → here q → f (s.canonical p) = f (s.canonical q) →
    s.canonical p = s.canonical q
  text : ∀ {p}, here p → s'.text (f p) = (s.text p).mapError (·.renamed f)

/-- A command that leads from a file that is `here` to another, and in the renamed file to the
renamed other. -/
structure Command.Renames (c : Command) (f : String → String) (here : String → Prop) : Prop where
  file : here c.pos.file
  target : here c.target
  renamed : (c.renamed f).target = f c.target

/-- What is known of a task before it is done. -/
def Task.Kept (f : String → String) (here : String → Prop) : Task → Prop
  | .command _ c => here c.pos.file
  | .load _ c _ => c.Renames f here
  | .leave c => c.Renames f here

section

variable {s s' : Sources} {f : String → String} {here : String → Prop}

private theorem mem_map_iff {chain : List String} {q : String}
    (hapart : ∀ p ∈ chain, f p = f q → p = q) : f q ∈ chain.map f ↔ q ∈ chain := by
  constructor
  · intro h
    obtain ⟨p, hp, heq⟩ := List.mem_map.mp h
    exact hapart p hp heq ▸ hp
  · exact List.mem_map_of_mem

private theorem takeWhile_map {chain : List String} {q : String}
    (hapart : ∀ p ∈ chain, f p = f q → p = q) :
    (chain.map f).takeWhile (· ≠ f q) = (chain.takeWhile (· ≠ q)).map f := by
  induction chain with
  | nil => rfl
  | cons p chain ih =>
    obtain ⟨hp, hchain⟩ := List.forall_mem_cons.mp hapart
    by_cases heq : p = q
    · simp [heq]
    · have hne : f p ≠ f q := fun h => heq (hp h)
      simp only [List.map_cons, List.takeWhile_cons, ne_eq, heq, hne, not_false_eq_true,
        decide_true, if_true, ih hchain]

/-- A task of the renamed files does what the task does. -/
theorem Task.run_renamed (h : s.Renames s' f here) {chain : List String}
    (hchain : ∀ q ∈ chain, ∃ p, here p ∧ s.canonical p = q) {t : Task} (ht : t.Kept f here)
    (hmet : ∀ d c r, t = .command d c → c.request d = .ok (some r) → c.Renames f here) :
    (t.renamed f).run s' (chain.map f) =
      both (·.renamed f) (fun x => (x.1.map f, x.2.map (·.renamed f))) (t.run s chain) := by
  cases t with
  | leave c => exact congrArg (fun chain => Except.ok (chain, [])) List.map_tail.symm
  | load d c bindings =>
    have hc : c.Renames f here := ht
    simp only [Task.renamed, Task.run, hc.renamed, h.text hc.target]
    cases s.text c.target with
    | error cause => rfl
    | ok text =>
      simp only [Except.mapError, Source.substitute_renamed]
      cases Source.substitute c.target text bindings with
      | error fault => rfl
      | ok src =>
        simp only [Dialect.commands_renamed]
        cases d.commands c.target src with
        | error fault => rfl
        | ok cs => simp only [both_ok, List.map_map]; rfl
  | command d c =>
    simp only [Task.renamed, Task.run, Command.request_renamed]
    cases hrequest : c.request d with
    | error fault => rfl
    | ok request =>
      cases request with
      | none => rfl
      | some r =>
        have hc := hmet d c r rfl hrequest
        have hcanonical : s'.canonical (c.renamed f).target = f (s.canonical c.target) := by
          rw [hc.renamed, h.canonical hc.target]
        have hapart : ∀ p ∈ chain, f p = f (s.canonical c.target) → p = s.canonical c.target := by
          intro q hq
          obtain ⟨p, hp, rfl⟩ := hchain q hq
          exact h.apart hp hc.target
        simp only [Except.mapError, hcanonical, mem_map_iff hapart, takeWhile_map hapart]
        split
        · simp only [both_error, CompileError.renamed, Diagnostic.renamed, Fault.renamed,
            List.map_append, List.map_cons, List.map_nil, List.map_reverse]
          rfl
        · rfl

namespace Session

/-- What is known of a session while its commands keep to their files. -/
structure Kept (s : Sources) (f : String → String) (here : String → Prop) (a : Session) :
    Prop where
  chain : ∀ q ∈ a.chain, ∃ p, here p ∧ s.canonical p = q
  agenda : ∀ t ∈ a.agenda, t.Kept f here

/-- A step of the renamed files for a step of the files. -/
theorem Kept.step (h : s.Renames s' f here) {a b : Session} (ha : a.Kept s f here)
    (hmet : ∀ d c rest r, a.agenda = .command d c :: rest → c.request d = .ok (some r) →
      c.Renames f here) (hstep : Step s a b) :
    b.Kept s f here ∧ Step s' (a.renamed f) (b.renamed f) := by
  obtain ⟨t, rest, chain, ts, hagenda, hrun, rfl⟩ := step_iff.mp hstep
  obtain ⟨chain', agenda⟩ := a
  subst hagenda
  obtain ⟨hchain, hagenda⟩ := ha
  obtain ⟨ht, hrest⟩ := List.forall_mem_cons.mp hagenda
  have hrenamed := Task.run_renamed h hchain ht fun d c r heq hr =>
    hmet d c rest r (by rw [heq]) hr
  have hkept : (∀ q ∈ chain, ∃ p, here p ∧ s.canonical p = q) ∧ ∀ u ∈ ts, u.Kept f here := by
    cases t with
    | leave c =>
      cases hrun
      exact ⟨fun q hq => hchain q (List.mem_of_mem_tail hq), by simp⟩
    | load d c bindings =>
      obtain ⟨_, _, cs, _, _, hcs, rfl, rfl⟩ := Task.load_eq_ok hrun
      have hc : c.Renames f here := ht
      refine ⟨hchain, fun u hu => ?_⟩
      obtain ⟨c', hc', rfl⟩ := List.mem_map.mp hu
      show here c'.pos.file
      rw [Dialect.file_of_mem_commands hcs c' hc']
      exact hc.target
    | command d c =>
      cases hrequest : c.request d with
      | error fault => simp [Task.run, hrequest] at hrun
      | ok request =>
        cases request with
        | none =>
          simp only [Task.run, hrequest, Except.ok.injEq, Prod.mk.injEq] at hrun
          obtain ⟨rfl, rfl⟩ := hrun
          exact ⟨hchain, by simp⟩
        | some r =>
          have hc := hmet d c rest r rfl hrequest
          simp only [Task.run, hrequest] at hrun
          split at hrun
          · cases hrun
          · cases hrun
            refine ⟨List.forall_mem_cons.mpr ⟨⟨_, hc.target, rfl⟩, hchain⟩, ?_⟩
            exact List.forall_mem_cons.mpr ⟨hc, List.forall_mem_singleton.mpr hc⟩
  refine ⟨⟨hkept.1, List.forall_mem_append.mpr ⟨hkept.2, hrest⟩⟩, ?_⟩
  rw [hrun] at hrenamed
  have hstep' := step_of_run hrenamed (rest.map (·.renamed f))
  rwa [← List.map_append] at hstep'

/-- A run of the renamed files for a run of the files. -/
theorem Kept.run (h : s.Renames s' f here) {a b : Session} (ha : a.Kept s f here)
    (hmet : ∀ c, Met s a c → here c.pos.file → c.Renames f here) (hreach : Reaches s a b) :
    b.Kept s f here ∧ Reaches s' (a.renamed f) (b.renamed f) := by
  induction hreach with
  | refl => exact ⟨ha, .refl⟩
  | @tail b c hreach hstep ih =>
    obtain ⟨hb, hrun⟩ := ih
    have hstep := hb.step h (fun d c rest r hagenda hrequest =>
      hmet c ⟨d, b.chain, rest, r, hagenda ▸ hreach, hrequest⟩
        (hb.agenda (.command d c) (by simp [hagenda]))) hstep
    exact ⟨hstep.1, hrun.tail hstep.2⟩

/-- A command that is met stands in a file that is `here`. -/
theorem Kept.renames (h : s.Renames s' f here) {a : Session} (ha : a.Kept s f here)
    (hmet : ∀ c, Met s a c → here c.pos.file → c.Renames f here) :
    ∀ c, Met s a c → c.Renames f here := by
  intro c hc
  obtain ⟨d, chain, rest, r, hreach, hrequest⟩ := id hc
  exact hmet c hc ((ha.run h hmet hreach).1.agenda _ List.mem_cons_self)

theorem kept_start {name src : String} {survey : Survey} (hname : here name)
    (hsurvey : Survey.ofSource name src = .ok survey) : (start s name survey).Kept s f here := by
  have hcommands : Dialect.commands name src .survey = .ok survey.commands :=
    Dialect.commands_survey hsurvey
  refine ⟨by simpa [start] using ⟨name, hname, rfl⟩, fun t ht => ?_⟩
  obtain ⟨c, hc, rfl⟩ := List.mem_map.mp ht
  show here c.pos.file
  rw [Dialect.file_of_mem_commands hcommands c hc]
  exact hname

theorem start_renamed (h : s.Renames s' f here) {name : String} (hname : here name)
    (survey : Survey) : start s' (f name) (survey.renamed f) = (start s name survey).renamed f := by
  rw [start, start, h.canonical hname, Survey.commands_renamed, renamed, List.map_map,
    List.map_map]
  rfl

end Session

theorem openedBy_renamed (agenda : List Task) :
    openedBy (agenda.map (·.renamed f)) = (openedBy agenda).map (·.renamed f) := by
  rw [openedBy, openedBy, List.map_reverse, List.filterMap_map, List.map_filterMap]
  congr 2
  funext t
  cases t <;> rfl

/-- A command is met while the file at a path is compiled. -/
def Sources.Meets (s : Sources) (path : String) (c : Command) : Prop :=
  ∃ src survey, s.text path = .ok src ∧ Survey.ofSource path src = .ok survey ∧
    Session.Met s (.start s path survey) c

/-- Compiling the renamed files comes to the error that compiling the files comes to. -/
theorem FailsAt.renamed (h : s.Renames s' f here) {path : String} (hpath : here path)
    (hmeets : ∀ c, s.Meets path c → here c.pos.file → c.Renames f here) {chain : List String}
    {cs : List Command} {e : CompileError} (hfails : FailsAt s path (s.text path) chain cs e) :
    FailsAt s' (f path) (s'.text (f path)) (chain.map f) (cs.map (·.renamed f)) (e.renamed f) ∧
      ∀ c ∈ cs, c.Renames f here := by
  rw [h.text hpath]
  generalize htext : s.text path = text at hfails
  cases hfails with
  | unreadable hcause =>
    subst hcause
    exact ⟨.unreadable rfl, by simp⟩
  | faulty hsrc hsurvey =>
    subst hsrc
    refine ⟨?_, by simp⟩
    rw [List.map_singleton, ← h.canonical hpath]
    refine .faulty rfl ?_
    rw [Survey.ofSource_renamed, hsurvey]
    rfl
  | @task src survey a t rest _ hsrc hsurvey hreach hagenda hrun =>
    subst hsrc
    have hkept : (Session.start s path survey).Kept s f here := Session.kept_start hpath hsurvey
    have hmet := hkept.renames h fun c hc => hmeets c ⟨src, survey, htext, hsurvey, hc⟩
    obtain ⟨ha, hreach'⟩ := hkept.run h (fun c hc _ => hmet c hc) hreach
    have ht : t.Kept f here := ha.agenda t (by simp [hagenda])
    have hrun' := Task.run_renamed h ha.chain ht fun d c r heq hr =>
      hmet c ⟨d, a.chain, rest, r, heq ▸ hagenda ▸ hreach, hr⟩
    rw [hrun] at hrun'
    rw [← Session.start_renamed h hpath] at hreach'
    have hsurvey' := Survey.renamed_of_ofSource f hsurvey
    have hagenda' : (a.renamed f).agenda = t.renamed f :: rest.map (·.renamed f) := by
      rw [Session.renamed, hagenda]
      rfl
    constructor
    · rw [← openedBy_renamed]
      exact .task rfl hsurvey' hreach' hagenda' hrun'
    · intro c hc
      obtain ⟨u, hu, huc⟩ := List.mem_filterMap.mp (List.mem_reverse.mp hc)
      cases u with
      | leave c' => cases huc; exact ha.agenda _ hu
      | command d c' => cases huc
      | load d c' bindings => cases huc

end

end SurveyForms
