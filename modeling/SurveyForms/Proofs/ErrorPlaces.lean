import SurveyForms.Proofs.IncludePath
import SurveyForms.Proofs.TextPlaces

/-! Errors and the files on disk. A fault points into the text that was read: the text of the file
with the bound texts put in and the wrapped lines joined. Main result: when it points into the
file itself, and the ways in which it can miss it. -/
namespace SurveyForms

open Source Text

/-- How a file is read: its language, and the bindings that are put in, if a command opened it. -/
structure Reading where
  dialect : Dialect
  bindings : Option Row

namespace Reading

def bound (r : Reading) (file text : String) : Except Diagnostic String :=
  match r.bindings with
  | none => .ok text
  | some bindings => substitute file text bindings

/-- What is put into the text goes over a line break. -/
def PutsBreak (r : Reading) (text : String) : Prop :=
  ∃ bindings ∈ r.bindings, Source.PutsBreak bindings (pieces opening text.toList)

theorem filled {r : Reading} {file text src : String} (h : r.bound file text = .ok src)
    (hbreak : ¬ r.PutsBreak text) : List.Forall₂ Filled (lines text.toList) (lines src.toList) := by
  obtain ⟨dialect, bindings⟩ := r
  cases bindings with
  | none =>
    cases h
    exact List.forall₂_same.mpr fun _ _ _ => rfl
  | some bindings => exact filled_substitute h fun hputs => hbreak ⟨bindings, rfl, hputs⟩

end Reading

/-- A file that compiling opens, and how it is read: the first file as a survey, any other as the
command asks that opens it. -/
inductive Opens (s : Sources) (path : String) : String → Reading → Prop
  | entry : Opens s path path ⟨.survey, none⟩
  | command {text : String} {survey : Survey} {chain : List String} {d dialect : Dialect}
      {c : Command} {rest : List Task} {bindings : Row} (htext : s.text path = .ok text)
      (hsurvey : Survey.ofSource path text = .ok survey)
      (hreach : Session.Reaches s (.start s path survey) ⟨chain, .command d c :: rest⟩)
      (hrequest : c.request d = .ok (some (dialect, bindings))) :
      Opens s path c.target ⟨dialect, some bindings⟩

/-- Where a fault of a file was found: at a reference to a name that is not bound, with the bytes
in front of it counted, or on a line of the text that was read. -/
inductive FoundIn (r : Reading) (text : String) (d : Diagnostic) : Prop
  | unbound {name : String} {seg more : List Char} (hfault : d.fault = .unboundName name)
      (hline : lineAt? text d.pos.line = some (seg ++ '$' :: more))
      (hcol : d.pos.col = byteLength seg + 1)
  | onLine {src : String} (hsrc : r.bound d.pos.file text = .ok src)
      (hline : OnSomeLine d.pos.file (r.dialect.shown src) d)
      (hpoints : d.pos.PointsInto (r.dialect.shown src))

/-- The ways in which a place can miss the text of its file. -/
inductive Displaced (r : Reading) (text : String) (d : Diagnostic) : Prop
  /-- The bytes in front of a reference are more than the columns of its line. -/
  | counted {name : String} {line : List Char} (hfault : d.fault = .unboundName name)
      (hline : lineAt? text d.pos.line = some line) (hbehind : 1 + columns 0 line < d.pos.col)
  /-- The column is on lines that were joined to this one. -/
  | wrapped {src : String} {line : List Char} (hfault : d.fault.isOfLine)
      (hsrc : r.bound d.pos.file text = .ok src) (hline : lineAt? text d.pos.line = some line)
      (hsame : lineAt? src d.pos.line = some line)
      (hjoined : lineAt? (r.dialect.shown src) d.pos.line ≠ some line)
      (hbehind : 1 + columns 0 line < d.pos.col)
  /-- The column is on a line with something put in. -/
  | filled {src : String} {line : List Char} (hsrc : r.bound d.pos.file text = .ok src)
      (hline : lineAt? text d.pos.line = some line)
      (hother : lineAt? src d.pos.line ≠ some line) (hbehind : 1 + columns 0 line < d.pos.col)
  /-- The lines are not numbered as in the file, which has nothing at this number. -/
  | shifted (hbreak : r.PutsBreak text)
      (hnothing : ∀ line, lineAt? text d.pos.line = some line → allBlank line)

theorem Displaced.not_pointsInto {r : Reading} {text : String} {d : Diagnostic}
    (h : Displaced r text d) : ¬ d.pos.PointsInto text := by
  rintro ⟨line, hline, hblank, _, hcol⟩
  have hmiss (other : List Char) (hother : lineAt? text d.pos.line = some other)
      (hbehind : 1 + columns 0 other < d.pos.col) : False := by
    cases hline.symm.trans hother
    omega
  cases h with
  | counted _ hother hbehind => exact hmiss _ hother hbehind
  | wrapped _ _ hother _ _ hbehind => exact hmiss _ hother hbehind
  | filled _ hother _ hbehind => exact hmiss _ hother hbehind
  | shifted _ hnothing => simp [hnothing line hline] at hblank

/-- A line that is read and is not blank comes from a line of the file that is not blank, as long
as no line break is put in. -/
private theorem exists_line {r : Reading} {file text src : String} {n : Nat} {shown : List Char}
    (hsrc : r.bound file text = .ok src) (hbreak : ¬ r.PutsBreak text)
    (hshown : lineAt? (r.dialect.shown src) n = some shown) (hblank : allBlank shown = false) :
    ∃ line, lineAt? text n = some line ∧ allBlank line = false := by
  obtain ⟨bound, hbound, hfolded⟩ := exists_lineAt? (r.dialect.folded_shown src) hshown
  obtain ⟨line, hline, hfilled⟩ := exists_lineAt? (r.filled hsrc hbreak) hbound
  have hsolid : allBlank bound = false := by
    cases hfolded with
    | kept => exact hblank
    | moved => cases hblank
    | wrapped hsolid _ => exact hsolid
  refine ⟨line, hline, ?_⟩
  by_contra hnot
  have hline_blank : allBlank line := by simpa using hnot
  rw [hfilled hline_blank] at hsolid
  simp [hline_blank] at hsolid

/-- A fault that misses a line of the file which was read with nothing put in is one of the line,
and further lines were joined to it. -/
private theorem wrapped_of_behind {d : Diagnostic} {dialect : Dialect} {src : String}
    {line : List Char} (hfound : OnSomeLine d.pos.file (dialect.shown src) d)
    (hline : lineAt? src d.pos.line = some line) (hbehind : 1 + columns 0 line < d.pos.col) :
    d.fault.isOfLine ∧ lineAt? (dialect.shown src) d.pos.line ≠ some line := by
  have hjoined : lineAt? (dialect.shown src) d.pos.line ≠ some line := by
    intro hsame
    obtain ⟨other, hother, _, _, hcol⟩ := hfound.pointsInto
    cases hsame.symm.trans hother
    omega
  refine ⟨?_, hjoined⟩
  obtain ⟨l, hl, hon⟩ := hfound
  generalize d.pos.file = file at hon
  cases hon with
  | inside hfault _ _ => exact hfault
  | start fault =>
    exfalso
    obtain ⟨shown, hshown, hblank, hcol, _⟩ := line_of_mem_ofSource hl
    obtain ⟨bound, hbound, hfolded⟩ := exists_lineAt? (dialect.folded_shown src) hshown
    have hline : lineAt? src l.number = some line := hline
    have hbehind : 1 + columns 0 line < l.col := hbehind
    cases hline.symm.trans hbound
    have hindent := indentColumn_le 0 line
    cases hfolded with
    | kept => omega
    | moved => cases hblank
    | wrapped _ hsame => omega

/-- A place misses its file in one of the four ways only. -/
theorem FoundIn.pointsInto_iff {r : Reading} {text : String} {d : Diagnostic}
    (h : FoundIn r text d) : d.pos.PointsInto text ↔ ¬ Displaced r text d := by
  refine ⟨fun hpoints hdisplaced => hdisplaced.not_pointsInto hpoints, fun hnot => ?_⟩
  by_contra hmiss
  refine hnot ?_
  -- a line with something on it is missed by the column
  have hbehind (line : List Char) (hline : lineAt? text d.pos.line = some line)
      (hblank : allBlank line = false) (hcol : 1 ≤ d.pos.col) :
      1 + columns 0 line < d.pos.col := by
    by_contra hle
    exact hmiss ⟨line, hline, hblank, hcol, by omega⟩
  cases h with
  | @unbound name seg more hfault hline hcol =>
    have hblank : allBlank (seg ++ '$' :: more) = false := by
      simp [allBlank, show isBlank '$' = false from rfl]
    exact .counted hfault hline (hbehind _ hline hblank (by omega))
  | @onLine src hsrc hfound hpoints =>
    obtain ⟨shown, hshown, hblank, hcol, _⟩ := hpoints
    by_cases hexists : ∃ line, lineAt? text d.pos.line = some line ∧ allBlank line = false
    · obtain ⟨line, hline, hsolid⟩ := hexists
      have hbehind := hbehind line hline hsolid hcol
      by_cases hsame : lineAt? src d.pos.line = some line
      · obtain ⟨hfault, hjoined⟩ := wrapped_of_behind hfound hsame hbehind
        exact .wrapped hfault hsrc hline hsame hjoined hbehind
      · exact .filled hsrc hline hsame hbehind
    · refine .shifted ?_ fun line hline => ?_
      · by_contra hbreak
        exact hexists (exists_line hsrc hbreak hshown hblank)
      · by_contra hsolid
        exact hexists ⟨line, hline, by simpa using hsolid⟩

/-! Where the tasks of a session come from. -/

/-- A task of the session of a file: a command stands on a line of a file that was read, and a
file that is to be read was asked for. -/
inductive Task.Placed (s : Sources) (path : String) : Task → Prop
  | command {file text src : String} {r : Reading} {c : Command} {l : Line}
      (hopens : Opens s path file r) (htext : s.text file = .ok text)
      (hsrc : r.bound file text = .ok src) (hl : l ∈ Line.ofSource (r.dialect.shown src))
      (hpos : c.pos = l.start file) : Placed s path (.command r.dialect c)
  | load {d : Dialect} {c : Command} {bindings : Row}
      (hopens : Opens s path c.target ⟨d, some bindings⟩) : Placed s path (.load d c bindings)
  | leave (c : Command) : Placed s path (.leave c)

namespace Session

variable {s : Sources} {path : String}

private theorem placed_commands {file text src : String} {r : Reading} {cs : List Command}
    (hopens : Opens s path file r) (htext : s.text file = .ok text)
    (hsrc : r.bound file text = .ok src) (hcs : r.dialect.commands file src = .ok cs) :
    ∀ t ∈ cs.map (.command r.dialect), Task.Placed s path t := by
  intro t ht
  obtain ⟨c, hc, rfl⟩ := List.mem_map.mp ht
  obtain ⟨l, hl, hpos⟩ := Dialect.start_of_mem_commands hcs c hc
  exact .command hopens htext hsrc hl hpos

/-- One step puts only tasks on the agenda that come from somewhere. -/
theorem placed_step {text : String} {survey : Survey} (htext : s.text path = .ok text)
    (hsurvey : Survey.ofSource path text = .ok survey) {a b : Session}
    (hreach : Reaches s (start s path survey) a) (hstep : Step s a b)
    (h : ∀ t ∈ a.agenda, t.Placed s path) : ∀ t ∈ b.agenda, t.Placed s path := by
  obtain ⟨t, rest, chain, ts, hagenda, hrun, rfl⟩ := step_iff.mp hstep
  rw [hagenda] at h
  obtain ⟨ht, hrest⟩ := List.forall_mem_cons.mp h
  refine List.forall_mem_append.mpr ⟨?_, hrest⟩
  cases t with
  | leave c =>
    cases hrun
    exact fun t ht => by cases ht
  | load d c bindings =>
    cases ht with
    | load hopens =>
      obtain ⟨text, src, cs, htext, hsrc, hcs, rfl, rfl⟩ := Task.load_eq_ok hrun
      exact placed_commands hopens htext hsrc hcs
  | command d c =>
    cases hrequest : c.request d with
    | error fault => simp [Task.run, hrequest] at hrun
    | ok request =>
      cases request with
      | none =>
        simp only [Task.run, hrequest, Except.ok.injEq, Prod.mk.injEq] at hrun
        obtain ⟨rfl, rfl⟩ := hrun
        exact fun t ht => by cases ht
      | some asked =>
        obtain ⟨dialect, bindings⟩ := asked
        simp only [Task.run, hrequest] at hrun
        split at hrun
        · cases hrun
        · cases hrun
          have hhere : Reaches s (start s path survey) ⟨a.chain, .command d c :: rest⟩ :=
            hagenda ▸ hreach
          have hopens := Opens.command htext hsurvey hhere hrequest
          simp only [List.forall_mem_cons, List.not_mem_nil, false_implies, implies_true, and_true]
          exact ⟨.load hopens, .leave c⟩

/-- At every moment the tasks come from somewhere. -/
theorem placed_of_reaches {text : String} {survey : Survey} (htext : s.text path = .ok text)
    (hsurvey : Survey.ofSource path text = .ok survey) {a : Session}
    (h : Reaches s (start s path survey) a) : ∀ t ∈ a.agenda, t.Placed s path := by
  induction h with
  | refl =>
    have hcommands : Dialect.commands path text .survey = .ok survey.commands :=
      Dialect.commands_survey hsurvey
    exact placed_commands .entry htext rfl hcommands
  | tail hreach hstep ih => exact placed_step htext hsurvey hreach hstep ih

end Session

/-- A fault is found in a file that compiling opens. -/
theorem FailsAt.foundIn {s : Sources} {path : String} {chain : List String} {cs : List Command}
    {d : Diagnostic} (h : FailsAt s path (s.text path) chain cs (.located d)) :
    ∃ r text, Opens s path d.pos.file r ∧ s.text d.pos.file = .ok text ∧ FoundIn r text d := by
  cases h with
  | faulty htext hsurvey =>
    have hfound := Survey.ofText_onSomeLine path _ d hsurvey
    have hfile := hfound.file_eq
    subst hfile
    exact ⟨_, _, .entry, htext, .onLine rfl hfound hfound.pointsInto⟩
  | @task _ _ a t rest _ htext hsurvey hreach hagenda hrun =>
    have hplaced := Session.placed_of_reaches htext hsurvey hreach t (hagenda ▸ List.mem_cons_self)
    cases hplaced with
    | @command file text src r c l hopens htext' hsrc hl hpos =>
      obtain ⟨fault, hd⟩ := Task.error_of_command hrun
      cases hd
      have hfound : OnSomeLine file (r.dialect.shown src) ⟨c.pos, fault⟩ :=
        ⟨l, hl, hpos ▸ .start fault⟩
      have hfile := hfound.file_eq
      simp only at hfile
      subst hfile
      exact ⟨r, text, hopens, htext', .onLine hsrc hfound hfound.pointsInto⟩
    | @load dialect c bindings hopens =>
      cases Task.loadFails_of_run hrun with
      | @unbound text _ htext' h =>
        obtain ⟨name, seg, more, hfault, _, hline, hfile, hcol⟩ := line_of_substitute_error h
        rw [hfile]
        exact ⟨_, text, hopens, htext', .unbound hfault hline hcol⟩
      | @faulty text src _ htext' hsrc h =>
        have hfound := dialect.commands_onSomeLine _ _ d h
        have hfile := hfound.file_eq
        rw [← hfile] at hopens htext' hsrc hfound
        exact ⟨_, text, hopens, htext', .onLine hsrc hfound hfound.pointsInto⟩
    | leave c => cases hrun

/-- Where errors point. A fault is found in the text that was made of a file, and it points into
the file itself unless one of four things carries it off: a column counted in bytes, lines that
were joined, something put in, or a line break put in. -/
theorem Form.faults_point_into_files_iff (s : Sources) (now : Moment) (path : String)
    (d : Diagnostic) (h : (Form.ofFile s now path).FailsWith d) :
    ∃ r text, Opens s path d.pos.file r ∧ s.text d.pos.file = .ok text ∧ FoundIn r text d ∧
      (d.pos.PointsInto text ↔ ¬ Displaced r text d) := by
  obtain ⟨e, he, hd⟩ := h
  obtain ⟨chain, cs, inner, hfails, rfl⟩ := (ofFile_error_iff s now path e).mp he
  rw [CompileError.diagnostic?_through] at hd
  obtain ⟨file, _, hof⟩ := hfails.traced.place
  cases hof with
  | unreadable cause => cases hd
  | fault _ =>
    cases hd
    obtain ⟨r, text, hopens, htext, hfound⟩ := hfails.foundIn
    exact ⟨r, text, hopens, htext, hfound, hfound.pointsInto_iff⟩

/-- A file whose question is wrapped onto a second line, with a number too many there. -/
def wrappedFault : FileSet := FileSet.ofList [("/form.comb", "q text:\n  \"L\" 5 5")]

theorem wrappedFault_fails : (Form.ofFile wrappedFault.sources ⟨0, 0⟩ "/form.comb").FailsWith
    ⟨⟨"/form.comb", 1, 13⟩, .unexpected (some "5") none⟩ := by
  refine ⟨.located ⟨⟨"/form.comb", 1, 13⟩, .unexpected (some "5") none⟩, ?_, rfl⟩
  exact Logged.outcome_eq_error.mp (by decide +kernel)

/-- The fault is in column 13 of a line of 7 columns. -/
theorem wrappedFault_misses_file :
    ∃ d text, (Form.ofFile wrappedFault.sources ⟨0, 0⟩ "/form.comb").FailsWith d ∧
      d.fault.kind = .grammar ∧ wrappedFault.sources.text d.pos.file = .ok text ∧
      ¬ d.pos.PointsInto text :=
  ⟨_, "q text:\n  \"L\" 5 5", wrappedFault_fails, rfl, by decide +kernel, by decide +kernel⟩

/-- An included file with a number too many behind a bound name. -/
def boundFault : FileSet := FileSet.ofList
  [("/form.comb", "@include part what text"), ("/part", "q $\x7b!what\x7d: 5 5")]

theorem boundFault_points_into_file :
    let d : Diagnostic := ⟨⟨"/part", 1, 11⟩, .unexpected (some "5") none⟩
    (Form.ofFile boundFault.sources ⟨0, 0⟩ "/form.comb").FailsWith d ∧
      ∃ r text, Opens boundFault.sources "/form.comb" "/part" r ∧
        boundFault.sources.text "/part" = .ok text ∧ FoundIn r text d ∧ d.pos.PointsInto text ∧
          ¬ Displaced r text d := by
  intro d
  have hfails : (Form.ofFile boundFault.sources ⟨0, 0⟩ "/form.comb").FailsWith d := by
    refine ⟨.within ⟨⟨"/form.comb", 1, 1⟩, "include", "part", ["what", "text"]⟩ (.located d), ?_,
      rfl⟩
    exact Logged.outcome_eq_error.mp (by decide +kernel)
  obtain ⟨r, text, hopens, htext, hfound, hiff⟩ :=
    Form.faults_point_into_files_iff _ _ _ d hfails
  have hdisk : boundFault.sources.text "/part" = .ok "q $\x7b!what\x7d: 5 5" := by decide +kernel
  cases hdisk.symm.trans htext
  have hpoints : d.pos.PointsInto "q $\x7b!what\x7d: 5 5" := by decide +kernel
  exact ⟨hfails, r, _, hopens, htext, hfound, hpoints, hiff.mp hpoints⟩

end SurveyForms
