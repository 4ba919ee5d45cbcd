import Mathlib.Data.List.Dedup
import Mathlib.Data.List.Perm.Subperm
import Mathlib.Data.Set.Lattice
import Mathlib.Order.CompletePartialOrder
import SurveyForms.Files.FileSet
import SurveyForms.Proofs.BlockTrees

/-! The open files of a session. The chain grows by one file at a time, none of them open before,
and all but the outermost and the innermost have been read. So there are at most two more of them
than there are files, and compiling comes to an end. -/
namespace SurveyForms

open Source (Line)

/-- The text that the lines of a source are read from: surveys have their wrapped lines joined. -/
def Dialect.shown : Dialect → String → String
  | .survey, src => Source.foldContinuations src
  | .choices, src => src

private theorem start_of_shown {reader : LineReader α β} {leaf : α → Option Written}
    {header : β → Written} {file src : String} {f : Forest α β}
    (h : reader.Shows leaf header (·.written? file)) (hf : reader.forest file src = .ok f) {a : α}
    (ha : a ∈ f.leaves) {s : Written} (hs : s ∈ leaf a) :
    ∃ l ∈ Line.ofSource src, s.pos = l.start file := by
  have hwritten : s ∈ f.inOrder leaf header := Forest.mem_inOrder_of_mem_leaves ha hs
  have hmem := List.mem_map_of_mem (f := some) hwritten
  rw [h.inOrder_of_reads ((LineReader.reads_iff file).mpr hf)] at hmem
  obtain ⟨l, hl, hline⟩ := List.mem_map.mp hmem
  obtain ⟨words, _, rfl⟩ := Option.map_eq_some_iff.mp hline
  exact ⟨l, (List.mem_filter.mp hl).1, rfl⟩

private theorem start_of_survey {file src : String} {f : Survey}
    (h : Survey.ofText file src = .ok f) :
    ∀ c ∈ f.commands, ∃ l ∈ Line.ofSource src, c.pos = l.start file := by
  intro c hc
  obtain ⟨a, ha, hac⟩ := List.mem_filterMap.mp hc
  cases a with
  | comment => cases hac
  | question q => cases hac
  | command c => cases hac; exact start_of_shown (surveyReader_shows file) h ha rfl

private theorem start_of_choices {file src : String} {f : Choices}
    (h : Choices.ofText file src = .ok f) :
    ∀ c ∈ f.commands, ∃ l ∈ Line.ofSource src, c.pos = l.start file := by
  intro c hc
  obtain ⟨a, ha, hac⟩ := List.mem_filterMap.mp hc
  cases a with
  | comment => cases hac
  | choice choice => cases hac
  | command c => cases hac; exact start_of_shown (choicesReader_shows file) h ha rfl

/-- Commands are positioned in the file that holds them, where their lines start. -/
theorem Dialect.start_of_mem_commands {d : Dialect} {file src : String} {cs : List Command}
    (h : d.commands file src = .ok cs) :
    ∀ c ∈ cs, ∃ l ∈ Line.ofSource (d.shown src), c.pos = l.start file := by
  cases d with
  | survey =>
    cases hf : Survey.ofSource file src with
    | error fault => simp [commands, hf, Except.map] at h
    | ok f =>
      simp only [commands, hf, Except.map, Except.ok.injEq] at h
      exact h ▸ start_of_survey hf
  | choices =>
    cases hf : Choices.ofText file src with
    | error fault => simp [commands, hf, Except.map] at h
    | ok f =>
      simp only [commands, hf, Except.map, Except.ok.injEq] at h
      exact h ▸ start_of_choices hf

theorem Dialect.file_of_mem_commands {d : Dialect} {file src : String} {cs : List Command}
    (h : d.commands file src = .ok cs) : ∀ c ∈ cs, c.pos.file = file := by
  intro c hc
  obtain ⟨l, _, hpos⟩ := start_of_mem_commands h c hc
  rw [hpos]
  rfl

theorem Dialect.commands_empty (d : Dialect) (file : String) : d.commands file "" = .ok [] := by
  cases d with
  | survey =>
    have hfold : Source.foldContinuations "" = "" := by decide +kernel
    have hread : Survey.ofSource file "" = .ok .nil := by
      rw [Survey.ofSource, hfold]
      exact LineReader.block_nil _ _ _
    rw [commands, hread]
    rfl
  | choices =>
    have hread : Choices.ofText file "" = .ok .nil := LineReader.block_nil _ _ _
    rw [commands, hread]
    rfl

private theorem substitute_empty (file : String) (bindings : Row) :
    Source.substitute file "" bindings = .ok "" := by
  have hpieces : Text.pieces Source.opening "".toList = [] := by decide +kernel
  rw [Source.substitute, hpieces]
  rfl

namespace Sources

/-- A canonical path of something that can be read. -/
def Readable (s : Sources) (p : String) : Prop :=
  ∃ path text, s.text path = .ok text ∧ s.canonical path = p

def closed (s : Sources) (chain : List String) : Set String := {p | s.Readable p ∧ p ∉ chain}

/-- Opening a file that can be read leaves fewer files to open. -/
theorem closed_ssubset {s : Sources} {p : String} {chain : List String} (hread : s.Readable p)
    (hopen : p ∉ chain) : s.closed (p :: chain) ⊂ s.closed chain := by
  constructor
  · rintro q ⟨hq, hmem⟩
    exact ⟨hq, fun h => hmem (List.mem_cons_of_mem p h)⟩
  · intro hsub
    exact (hsub ⟨hread, hopen⟩).2 List.mem_cons_self

end Sources

/-- A file that was loaded was read, and its text, with the bindings put in, has the commands that
are done next. -/
theorem Task.load_eq_ok {s : Sources} {chain chain' : List String} {d : Dialect} {c : Command}
    {bindings : Row} {ts : List Task}
    (h : (Task.load d c bindings).run s chain = .ok (chain', ts)) :
    ∃ text src cs, s.text c.target = .ok text ∧
      Source.substitute c.target text bindings = .ok src ∧ d.commands c.target src = .ok cs ∧
      chain' = chain ∧ ts = cs.map (.command d) := by
  simp only [Task.run] at h
  split at h
  · cases h
  · next text htext =>
    split at h
    · cases h
    · next src hsrc =>
      split at h
      · cases h
      · next cs hcs =>
        cases h
        exact ⟨text, src, cs, htext, hsrc, hcs, rfl, rfl⟩

namespace Session

/-- The agenda of a session and its chain belong together: the commands in front of each closing
task stand in the file that is closed there, and each open file but the first was named by a
command of the file around it. `met` holds of the commands that opened a file, and `held` of the
open files, apart from the first, that have commands. -/
inductive Open (s : Sources) (entry : String) (met : Command → Prop) (held : String → Prop) :
    List String → List Task → Prop
  | entry : Open s entry met held [entry] []
  | command {d : Dialect} {c : Command} {p : String} {outer : List String} {rest : List Task}
      (hfile : s.canonical c.pos.file = p) (hheld : outer ≠ [] → held p)
      (htail : Open s entry met held (p :: outer) rest) :
      Open s entry met held (p :: outer) (.command d c :: rest)
  | leave {c : Command} {p : String} {outer : List String} {rest : List Task}
      (hfile : s.canonical c.pos.file = p) (hheld : outer ≠ [] → held p) (hmet : met c)
      (hopen : s.canonical c.target ∉ p :: outer)
      (htail : Open s entry met held (p :: outer) rest) :
      Open s entry met held (s.canonical c.target :: p :: outer) (.leave c :: rest)
  | load {d : Dialect} {c : Command} {bindings : Row} {chain : List String} {rest : List Task}
      (htail : Open s entry met held chain (.leave c :: rest)) :
      Open s entry met held chain (.load d c bindings :: .leave c :: rest)

variable {s : Sources} {entry : String} {met : Command → Prop} {held : String → Prop}
  {chain : List String} {agenda : List Task}

namespace Open

theorem commands {d : Dialect} {cs : List Command} {p : String} {outer : List String}
    (h : Open s entry met held (p :: outer) agenda)
    (hcs : ∀ c ∈ cs, s.canonical c.pos.file = p ∧ (outer ≠ [] → held p)) :
    Open s entry met held (p :: outer) (cs.map (.command d) ++ agenda) := by
  induction cs with
  | nil => exact h
  | cons c cs ih =>
    obtain ⟨hc, hcs⟩ := List.forall_mem_cons.mp hcs
    exact .command hc.1 hc.2 (ih hcs)

theorem nodup (h : Open s entry met held chain agenda) : chain.Nodup := by
  induction h with
  | entry => exact List.nodup_singleton entry
  | command _ _ _ ih => exact ih
  | leave _ _ _ hopen _ ih => exact List.nodup_cons.mpr ⟨hopen, ih⟩
  | load _ ih => exact ih

/-- Every open file between the first and the last has commands. -/
theorem held_of_mem (h : Open s entry met held chain agenda) :
    ∀ p ∈ chain.tail.dropLast, held p := by
  induction h with
  | entry => intro p hp; cases hp
  | command _ _ _ ih => exact ih
  | @leave c q outer rest hfile hheld hmet hopen _ ih =>
    intro p hp
    cases outer with
    | nil => cases hp
    | cons o outer =>
      rcases List.mem_cons.mp hp with rfl | hp
      · exact hheld (by simp)
      · exact ih p hp
  | load _ ih => exact ih

/-- Every open file was named by a command of the file around it. -/
theorem isChain (h : Open s entry met held chain agenda) :
    chain.IsChain fun inner outer =>
      ∃ c, met c ∧ s.canonical c.pos.file = outer ∧ s.canonical c.target = inner := by
  induction h with
  | entry => exact .singleton entry
  | command _ _ _ ih => exact ih
  | leave hfile _ hmet _ _ ih => exact .cons_cons ⟨_, hmet, hfile, rfl⟩ ih
  | load _ ih => exact ih

/-- One step keeps agenda and chain together. -/
theorem step {a b : Session} (h : Open s entry met held a.chain a.agenda) (hstep : Step s a b)
    (hmet : ∀ d c rest r, a.agenda = .command d c :: rest → c.request d = .ok (some r) → met c)
    (hheld : ∀ d c bindings rest, a.agenda = .load d c bindings :: rest → b.agenda ≠ rest →
      held (s.canonical c.target)) :
    Open s entry met held b.chain b.agenda := by
  obtain ⟨t, rest, chain, ts, hagenda, hrun, rfl⟩ := step_iff.mp hstep
  obtain ⟨chain', agenda⟩ := a
  subst hagenda
  cases h with
  | @command d c p outer _ hfile hheld' htail =>
    cases hrequest : c.request d with
    | error fault => simp [Task.run, hrequest] at hrun
    | ok request =>
      cases request with
      | none =>
        simp only [Task.run, hrequest, Except.ok.injEq, Prod.mk.injEq] at hrun
        obtain ⟨rfl, rfl⟩ := hrun
        exact htail
      | some r =>
        simp only [Task.run, hrequest] at hrun
        split at hrun
        · cases hrun
        · next hopen =>
          cases hrun
          exact .load (.leave hfile hheld' (hmet d c rest r rfl hrequest) hopen htail)
  | leave _ _ _ _ htail =>
    cases hrun
    exact htail
  | @load d c bindings _ rest htail =>
    obtain ⟨text, src, cs, htext, hsrc, hcs, rfl, rfl⟩ := Task.load_eq_ok hrun
    cases htail with
    | leave hfile hheld' hmet' hopen htail =>
      refine commands (.leave hfile hheld' hmet' hopen htail) fun c' hc' => ?_
      have hc : c'.pos.file = c.target := Dialect.file_of_mem_commands hcs c' hc'
      refine ⟨by rw [hc], fun _ => hheld d c bindings _ rfl ?_⟩
      have : cs ≠ [] := List.ne_nil_of_mem hc'
      simpa using this

end Open

/-- A command of the session that names a file. -/
def Met (s : Sources) (start : Session) (c : Command) : Prop :=
  ∃ d chain rest r, Reaches s start ⟨chain, .command d c :: rest⟩ ∧ c.request d = .ok (some r)

/-- A file with some text that was loaded during the session. -/
def Loaded (s : Sources) (start : Session) (p : String) : Prop :=
  ∃ a b d c bindings rest text, Reaches s start a ∧ a.agenda = .load d c bindings :: rest ∧
    Step s a b ∧ s.text c.target = .ok text ∧ text ≠ "" ∧ s.canonical c.target = p

/-- At every moment agenda and chain belong together. -/
theorem open_of_reaches {name src : String} {survey : Survey}
    (hsurvey : Survey.ofSource name src = .ok survey) {a : Session}
    (h : Reaches s (start s name survey) a) :
    Open s (s.canonical name) (Met s (start s name survey)) (Loaded s (start s name survey))
      a.chain a.agenda := by
  induction h with
  | refl =>
    have hcommands : Dialect.commands name src .survey = .ok survey.commands :=
      Dialect.commands_survey hsurvey
    have hfile : ∀ c ∈ survey.commands, c.pos.file = name :=
      Dialect.file_of_mem_commands hcommands
    rw [start, ← List.append_nil (survey.commands.map _)]
    refine Open.commands .entry fun c hc => ⟨by rw [hfile c hc], fun h => absurd rfl h⟩
  | @tail b c hreach hstep ih =>
    refine ih.step hstep (fun d command rest r hagenda hrequest => ?_)
      (fun d command bindings rest hagenda hmore => ?_)
    · exact ⟨d, b.chain, rest, r, hagenda ▸ hreach, hrequest⟩
    · obtain ⟨t, rest', chain, ts, hagenda', hrun, rfl⟩ := step_iff.mp hstep
      rw [hagenda] at hagenda'
      cases hagenda'
      obtain ⟨text, src, cs, htext, hsrc, hcs, rfl, rfl⟩ := Task.load_eq_ok hrun
      refine ⟨b, _, d, command, bindings, rest, text, hreach, hagenda, hstep, htext, ?_, rfl⟩
      -- an empty file has no commands
      rintro rfl
      rw [substitute_empty] at hsrc
      cases hsrc
      rw [Dialect.commands_empty] at hcs
      cases hcs
      exact hmore rfl

/-- What holds of the open files at every moment, where `n` is the number of files. -/
structure Bounded (s : Sources) (start : Session) (n : Nat) (a : Session) : Prop where
  nodup : a.chain.Nodup
  loaded : ∀ p ∈ a.chain.tail.dropLast, Loaded s start p
  length : a.chain.length ≤ n + 2
  /-- A file that is loaded was not open before. -/
  shrinks : ∀ b d c bindings rest, a.agenda = .load d c bindings :: rest → Step s a b →
    b.chain = a.chain ∧ s.closed b.chain ⊂ s.closed b.chain.tail

theorem bounded_of_reaches {name src : String} {survey : Survey}
    (hsurvey : Survey.ofSource name src = .ok survey) {files : List String}
    (hfiles : ∀ path text, s.text path = .ok text → text ≠ "" → s.canonical path ∈ files)
    {a : Session} (h : Reaches s (start s name survey) a) :
    Bounded s (start s name survey) files.length a := by
  have hopen := open_of_reaches hsurvey h
  have hloaded := hopen.held_of_mem
  refine ⟨hopen.nodup, hloaded, ?_, ?_⟩
  · have hsub : a.chain.tail.dropLast ⊆ files := by
      intro p hp
      obtain ⟨_, _, _, c, _, _, text, _, _, _, htext, hne, rfl⟩ := hloaded p hp
      exact hfiles c.target text htext hne
    have hsublist : a.chain.tail.dropLast.Sublist a.chain :=
      (List.dropLast_sublist _).trans (List.tail_sublist _)
    have hle := ((hopen.nodup.sublist hsublist).subperm hsub).length_le
    rw [List.length_dropLast, List.length_tail] at hle
    omega
  · intro b d c bindings rest hagenda hstep
    obtain ⟨t, rest', chain, ts, hagenda', hrun, rfl⟩ := step_iff.mp hstep
    rw [hagenda] at hagenda'
    cases hagenda'
    obtain ⟨text, _, _, htext, _, _, rfl, rfl⟩ := Task.load_eq_ok hrun
    refine ⟨rfl, ?_⟩
    obtain ⟨chain, agenda⟩ := a
    subst hagenda
    cases hopen with
    | load htail =>
      cases htail with
      | leave _ _ _ hnew => exact Sources.closed_ssubset ⟨_, text, htext, rfl⟩ hnew

end Session

/-- The files of a list, each counted once. -/
def FileSet.locations (files : List (String × String)) : List Location :=
  (files.map fun file => Location.ofPath file.1).dedup

/-- Only the given files have some text. -/
private theorem canonical_mem_locations {files : List (String × String)} {path text : String}
    (h : (FileSet.ofList files).sources.text path = .ok text) (hne : text ≠ "") :
    (FileSet.ofList files).sources.canonical path ∈
      (FileSet.locations files).map (·.canonical) := by
  have htext : ((FileSet.ofList files).read path).map
      (fun src => String.ofList (Text.unixBreaks src.toList)) = .ok text := h
  obtain ⟨raw, hraw, hraw_ne⟩ : ∃ raw, (FileSet.ofList files).read path = .ok raw ∧ raw ≠ "" := by
    cases hraw : (FileSet.ofList files).read path with
    | error cause => rw [hraw] at htext; cases htext
    | ok raw =>
      refine ⟨raw, rfl, ?_⟩
      rintro rfl
      rw [hraw] at htext
      cases htext
      exact hne rfl
  obtain ⟨entry, hentry, hlocation, hentry_ne⟩ : ∃ entry ∈ (FileSet.ofList files).files,
      entry.1 = Location.ofPath path ∧ entry.2 ≠ "" := by
    unfold FileSet.read FileSet.find? at hraw
    cases hfind : (FileSet.ofList files).files.find? (·.1 = Location.ofPath path) with
    | none => simp [hfind] at hraw
    | some entry =>
      rw [hfind] at hraw
      cases hraw
      exact ⟨entry, List.mem_of_find?_eq_some hfind, by simpa using List.find?_some hfind, hraw_ne⟩
  -- the directories of a set are empty
  simp only [FileSet.ofList, List.mem_append, List.mem_map, List.mem_flatMap, List.mem_reverse,
    List.mem_singleton] at hentry
  obtain (⟨file, hfile, rfl⟩ | ⟨_, _, _, _, rfl⟩) | rfl := hentry
  · refine List.mem_map.mpr ⟨Location.ofPath path, List.mem_dedup.mpr ?_, rfl⟩
    exact List.mem_map.mpr ⟨file, hfile, hlocation⟩
  · exact absurd rfl hentry_ne
  · exact absurd rfl hentry_ne

/-- Compiling comes to an end, whatever the files are: the session of a survey stops as the
compiler does and has no endless run, and its open files are bounded at every moment. -/
theorem Form.compiling_terminates (files : List (String × String)) (now : Moment)
    (name src : String) :
    let s := (FileSet.ofList files).sources
    (∀ fault, Survey.ofSource name src = .error fault →
      (Form.ofText s now name src).outcome = .error (.located fault)) ∧
    (∀ survey, Survey.ofSource name src = .ok survey →
      let start := Session.start s name survey
      (∃ last, Session.Reaches s start last ∧
        last.Stops s (Form.ofText s now name src).outcome) ∧
      (¬ ∃ run : Nat → Session, run 0 = start ∧ ∀ n, Session.Step s (run n) (run (n + 1))) ∧
      ∀ a, Session.Reaches s start a →
        Session.Bounded s start (FileSet.locations files).length a) ∧
    (Form.ofFile s now name).outcome = match s.text name with
      | .error cause => .error (.unreadable name cause)
      | .ok src => (Form.ofText s now name src).outcome := by
  intro s
  refine ⟨fun fault h => Form.outcome_ofText_of_error h, fun survey h => ?_,
    Form.outcome_ofFile s now name⟩
  obtain ⟨last, hreach, hstop⟩ := Form.session_of_ofText s now h
  refine ⟨⟨last, hreach, hstop⟩, hstop.no_run hreach, fun a ha => ?_⟩
  have hbounded := Session.bounded_of_reaches h (fun _ _ => canonical_mem_locations) ha
  rwa [List.length_map] at hbounded

end SurveyForms
