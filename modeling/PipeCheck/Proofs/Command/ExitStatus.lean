import PipeCheck.Command.Run
import PipeCheck.Proofs.Properties.ClosedProgram

/-!
# The exit status

Checking a document and listing its types end with the same status, with either
form of output: zero if the document passes and one if it does not.  The forms
judge in different ways, by counting errors or by looking for diagnostics; they
agree because every diagnostic that is reported is an error.
-/

namespace PipeCheck

open Program Document List

theorem NameError.severity_diagnostic (error : NameError) :
    error.diagnostic.severity = .error := by
  cases error <;> rfl

theorem Issue.severity_diagnostic (issue : Issue) : issue.diagnostic.severity = .error := by
  cases issue <;> rfl

/-- A report of errors is a success if it is empty. -/
theorem Report.success_iff {report : Report}
    (errors : ∀ diagnostic ∈ report.diagnostics, diagnostic.severity = .error) :
    report.success ↔ report.diagnostics = [] := by
  rw [success, decide_eq_true_iff, count, countP_eq_zero, eq_nil_iff_forall_not_mem]
  constructor
  · intro noErrors diagnostic mem
    exact noErrors diagnostic mem (decide_eq_true (errors diagnostic mem))
  · intro empty diagnostic mem
    exact absurd mem (empty diagnostic)

namespace Program

/-- A program without name errors whose analysis finds no issues. -/
def Clean (program : Program) (config : Config) : Prop :=
  program.nameErrors = [] ∧
    ∃ analysis, (program.analyse config).1 = .ok analysis ∧ analysis.issues = []

instance (program : Program) (config : Config) : Decidable (program.Clean config) :=
  inferInstanceAs (Decidable (program.nameErrors = [] ∧
    ∃ analysis, (program.analyse config).1 = .ok analysis ∧ analysis.issues = []))

/-- What is reported of a program: its name errors or, if it has none, the issues of
its analysis. -/
def faults (program : Program) (config : Config) : List Diagnostic :=
  if program.nameErrors.isEmpty then
    match (program.analyse config).1 with
    | .ok analysis => analysis.issues.map Issue.diagnostic
    | .error _ => []
  else
    program.nameErrors.map NameError.diagnostic

/-- No label of what is reported has a column that wrapped around to zero. -/
def Drawable (program : Program) (config : Config) : Prop :=
  ∀ diagnostic ∈ program.faults config, ∀ label ∈ diagnostic.labels,
    (Mark.ofLabel (LineMap.ofText program.source) label).first ≠ 0

instance (program : Program) (config : Config) : Decidable (program.Drawable config) :=
  inferInstanceAs (Decidable (∀ diagnostic ∈ program.faults config,
    ∀ label ∈ diagnostic.labels, (Mark.ofLabel (LineMap.ofText program.source) label).first ≠ 0))

theorem severity_of_mem_faults {program : Program} {config : Config} {diagnostic : Diagnostic}
    (mem : diagnostic ∈ program.faults config) :
    diagnostic.severity = .error := by
  unfold faults at mem
  split at mem
  · split at mem
    · obtain ⟨issue, _, rfl⟩ := mem_map.1 mem
      exact issue.severity_diagnostic
    · cases mem
  · obtain ⟨error, _, rfl⟩ := mem_map.1 mem
    exact error.severity_diagnostic

end Program

section Documents

variable (unifyLists pruneQuantifiers : Bool) (content : Except FileError String)

/-- The content of a file is a document that can be read and loaded, and its program is
clean under its own settings with those that are asked for. -/
def Passes : Prop :=
  ∃ text document program, content = .ok text ∧ read? text = some document ∧
    load document = .ok program ∧
    program.Clean (program.config.override unifyLists pruneQuantifiers)

/-- What is reported of a document that can be read and loaded can be drawn. -/
def Drawable : Prop :=
  ∀ text document program, content = .ok text → read? text = some document →
    load document = .ok program →
    program.Drawable (program.config.override unifyLists pruneQuantifiers)

/-- A run ends if what it reports can be drawn, with a status that tells whether the
document passes. -/
structure Tells (run : Except WrappedColumn Ending) : Prop where
  /-- The run ends if all can be drawn. -/
  ends : Drawable unifyLists pruneQuantifiers content → ∃ ending, run = .ok ending
  /-- A document that passes ends it with zero. -/
  status_eq_zero : Passes unifyLists pruneQuantifiers content →
    ∀ ending, run = .ok ending → ending.status = 0
  /-- Any other ends it with one. -/
  status_eq_one : ¬Passes unifyLists pruneQuantifiers content →
    ∀ ending, run = .ok ending → ending.status = 1

end Documents

theorem Layout.exists_format (layout : Layout) {diagnostic : Diagnostic}
    (drawable : ∀ label ∈ diagnostic.labels, (Mark.ofLabel layout.map label).first ≠ 0) :
    ∃ text, layout.format diagnostic = .ok text := by
  have unwrapped : layout.wrappedLabel? diagnostic = none := by
    rw [wrappedLabel?, find?_eq_none]
    intro label mem isWrapped
    exact drawable label mem (of_decide_eq_true isWrapped)
  rw [format, unwrapped]
  exact ⟨_, rfl⟩

/-- The diagnostics of errors that stop a command have no labels, so they can always be
drawn. -/
theorem CommandError.exists_ending (error : CommandError) (coloured : Bool) :
    ∃ ending, error.ending coloured = .ok ending ∧ ending.status = error.status := by
  have unlabelled : ∀ diagnostic, error.diagnostic? = some diagnostic →
      diagnostic.labels = [] := by
    intro diagnostic shown
    cases error <;> cases shown <;> rfl
  unfold ending
  cases shown : error.diagnostic? with
  | none => exact ⟨_, rfl, rfl⟩
  | some diagnostic =>
    have drawable : ∀ label ∈ diagnostic.labels,
        (Mark.ofLabel (Layout.ofSource "" none coloured).map label).first ≠ 0 := by
      simp [unlabelled diagnostic shown]
    obtain ⟨text, formatEq⟩ := Layout.exists_format _ drawable
    dsimp only
    rw [formatEq]
    exact ⟨_, rfl, rfl⟩

theorem drawable_ok_iff (unifyLists pruneQuantifiers : Bool) {text : String} {document : Document}
    {program : Program} (reads : read? text = some document) (loads : load document = .ok program) :
    Drawable unifyLists pruneQuantifiers (.ok text) ↔
      program.Drawable (program.config.override unifyLists pruneQuantifiers) := by
  constructor
  · intro drawable
    exact drawable text document program rfl reads loads
  · rintro drawable other otherDocument otherProgram sameText otherReads otherLoads
    cases sameText
    cases reads.symm.trans otherReads
    cases loads.symm.trans otherLoads
    exact drawable

theorem passes_ok_iff (unifyLists pruneQuantifiers : Bool) {text : String} {document : Document}
    {program : Program} (reads : read? text = some document) (loads : load document = .ok program) :
    Passes unifyLists pruneQuantifiers (.ok text) ↔
      program.Clean (program.config.override unifyLists pruneQuantifiers) := by
  constructor
  · rintro ⟨other, otherDocument, otherProgram, sameText, otherReads, otherLoads, clean⟩
    cases sameText
    cases reads.symm.trans otherReads
    cases loads.symm.trans otherLoads
    exact clean
  · intro clean
    exact ⟨text, document, program, rfl, reads, loads, clean⟩

namespace Verdict

/-- A verdict on a document says what is to be reported of its program, which is
nothing if the document passes. -/
structure Judges (verdict : Verdict) (unifyLists pruneQuantifiers : Bool) (text : String) :
    Prop where
  /-- The document can be read and loaded. -/
  loads : ∃ document, read? text = some document ∧ load document = .ok verdict.program
  /-- The faults of the program are reported. -/
  diagnostics_eq : verdict.diagnostics =
    verdict.program.faults (verdict.program.config.override unifyLists pruneQuantifiers)
  /-- There are none if the document passes. -/
  passes_iff : Passes unifyLists pruneQuantifiers (.ok text) ↔ verdict.diagnostics = []

/-- A document is judged, or does not pass and is no matter of usage. -/
theorem ofText_cases (options : Options) (text : String) :
    (∃ verdict, ofText options text = .ok verdict ∧
      verdict.Judges options.unifyLists options.pruneQuantifiers text) ∨
    ∃ error, ofText options text = .error error ∧ error.status = 1 ∧
      ¬Passes options.unifyLists options.pruneQuantifiers (.ok text) := by
  unfold ofText
  cases reads : read? text with
  | none => exact .inr ⟨_, rfl, rfl, by simp [Passes, reads]⟩
  | some document =>
    dsimp only
    cases loads : load document with
    | error bad => exact .inr ⟨_, rfl, rfl, by simp [Passes, reads, loads]⟩
    | ok program =>
      have passes_iff := passes_ok_iff options.unifyLists options.pruneQuantifiers reads loads
      dsimp only
      split
      · next noErrors =>
          rcases analysed : program.analyse (program.config.override options.unifyLists
            options.pruneQuantifiers) with ⟨outcome, store⟩
          cases outcome with
          | error malformed =>
            refine .inr ⟨_, rfl, rfl, ?_⟩
            rw [passes_iff, Clean, analysed]
            rintro ⟨_, _, impossible, _⟩
            cases impossible
          | ok analysis =>
            refine .inl ⟨_, rfl, ⟨document, reads, loads⟩, ?_, ?_⟩
            · rw [faults, if_pos noErrors, analysed]
            · rw [passes_iff, Clean, analysed]
              simp [List.isEmpty_iff.1 noErrors]
      · next someError =>
          refine .inl ⟨_, rfl, ⟨document, reads, loads⟩, ?_, ?_⟩
          · rw [faults, if_neg someError]
          · rw [passes_iff, Clean, List.map_eq_nil_iff, ← List.isEmpty_iff]
            simp [someError]

section Endings

variable {verdict : Verdict} {options : Options} {ending : Ending} {coloured : Bool}

/-- Every label can be drawn. -/
def Drawn (verdict : Verdict) : Prop :=
  ∀ diagnostic ∈ verdict.diagnostics, ∀ label ∈ diagnostic.labels,
    (Mark.ofLabel (LineMap.ofText verdict.program.source) label).first ≠ 0

theorem exists_mapM_format (layout : Layout) {diagnostics : List Diagnostic}
    (drawable : ∀ diagnostic ∈ diagnostics, ∀ label ∈ diagnostic.labels,
      (Mark.ofLabel layout.map label).first ≠ 0) :
    ∃ texts, diagnostics.mapM layout.format = .ok texts := by
  induction diagnostics with
  | nil => exact ⟨[], rfl⟩
  | cons diagnostic rest ih =>
    rw [forall_mem_cons] at drawable
    obtain ⟨text, formatEq⟩ := layout.exists_format drawable.1
    obtain ⟨texts, mapEq⟩ := ih drawable.2
    rw [mapM_cons, formatEq, mapEq]
    exact ⟨text :: texts, rfl⟩

theorem Drawn.exists_formatted (drawn : verdict.Drawn) (coloured : Bool) (file after : String) :
    ∃ text, verdict.formatted coloured file after = .ok text := by
  obtain ⟨texts, mapEq⟩ :=
    exists_mapM_format (Layout.ofSource verdict.program.source (some file) coloured) drawn
  rw [formatted, mapEq]
  exact ⟨_, rfl⟩

theorem Drawn.exists_types (drawn : verdict.Drawn) :
    ∃ ending, verdict.types coloured options = .ok ending := by
  obtain ⟨text, formattedEq⟩ := drawn.exists_formatted coloured options.path _
  rw [types, formattedEq]
  exact ⟨_, rfl⟩

theorem status_types (done : verdict.types coloured options = .ok ending) :
    ending.status = verdict.status := by
  unfold types at done
  cases formattedEq : verdict.formatted coloured options.path
      (if options.json then "" else "\n") with
  | error wrapped =>
    rw [formattedEq] at done
    cases done
  | ok text =>
    rw [formattedEq] at done
    cases done
    rfl

theorem Drawn.exists_check (drawn : verdict.Drawn) :
    ∃ ending, verdict.check coloured options = .ok ending := by
  unfold check
  split
  · exact ⟨_, rfl⟩
  · obtain ⟨text, formattedEq⟩ := drawn.exists_formatted coloured options.path "\n"
    rw [formattedEq]
    simp only [bind, Except.bind]
    split
    · exact ⟨_, rfl⟩
    · exact ⟨_, rfl⟩

/-- Counting errors comes to the same as looking for diagnostics. -/
theorem status_check (errors : ∀ diagnostic ∈ verdict.diagnostics, diagnostic.severity = .error)
    (done : verdict.check coloured options = .ok ending) :
    ending.status = verdict.status := by
  unfold check at done
  split at done
  · cases done
    have success_iff : (verdict.report options.path).success ↔ verdict.diagnostics.isEmpty := by
      rw [Report.success_iff errors, List.isEmpty_iff]
      rfl
    rw [status, ← Bool.eq_iff_iff.2 success_iff]
  · cases formattedEq : verdict.formatted coloured options.path "\n" with
    | error wrapped =>
      rw [formattedEq] at done
      cases done
    | ok text =>
      rw [formattedEq] at done
      simp only [bind, Except.bind] at done
      split at done
      · next noDiagnostics _ =>
          cases done
          rw [status, noDiagnostics]
          rfl
      · cases done
        rfl

end Endings

end Verdict

namespace Command

variable {coloured : Bool} {content : Except FileError String} {options : Options}

/-- A command that goes by the verdict on a document tells whether it passes. -/
theorem tells_onDocument {proceed : Verdict → Except WrappedColumn Ending}
    (ends : ∀ verdict : Verdict, verdict.Drawn → ∃ ending, proceed verdict = .ok ending)
    (status_eq : ∀ (verdict : Verdict) (ending : Ending),
      (∀ diagnostic ∈ verdict.diagnostics, diagnostic.severity = .error) →
      proceed verdict = .ok ending → ending.status = verdict.status) :
    Tells options.unifyLists options.pruneQuantifiers content
      (run.onDocument coloured content options proceed) := by
  -- An error that stops the command ends it with status one, and nothing passes.
  have stopped : ∀ error : CommandError, error.status = 1 →
      ¬Passes options.unifyLists options.pruneQuantifiers content →
      Tells options.unifyLists options.pruneQuantifiers content (error.ending coloured) := by
    intro error isOne fails
    obtain ⟨ending, endingEq, statusEq⟩ := error.exists_ending coloured
    refine ⟨fun _ => ⟨ending, endingEq⟩, fun passes => absurd passes fails, ?_⟩
    intro _ other otherEq
    cases endingEq.symm.trans otherEq
    exact statusEq.trans isOne
  unfold run.onDocument
  cases content with
  | error error => exact stopped _ rfl (by simp [Passes])
  | ok text =>
    rcases Verdict.ofText_cases options text with
      ⟨verdict, verdictEq, judges⟩ | ⟨error, errorEq, isOne, fails⟩
    · dsimp only
      rw [verdictEq]
      have errors : ∀ diagnostic ∈ verdict.diagnostics, diagnostic.severity = .error := by
        rw [judges.diagnostics_eq]
        exact fun diagnostic => Program.severity_of_mem_faults
      refine ⟨?_, ?_, ?_⟩
      · intro drawable
        obtain ⟨document, reads, loads⟩ := judges.loads
        have drawn := (drawable_ok_iff _ _ reads loads).1 drawable
        rw [Program.Drawable, ← judges.diagnostics_eq] at drawn
        exact ends verdict drawn
      · intro passes ending done
        rw [status_eq verdict ending errors done, Verdict.status, judges.passes_iff.1 passes]
        rfl
      · intro fails ending done
        rw [judges.passes_iff, ← List.isEmpty_iff] at fails
        rw [status_eq verdict ending errors done, Verdict.status, if_neg fails]
    · dsimp only
      rw [errorEq]
      exact stopped error isOne fails

theorem tells_check :
    Tells options.unifyLists options.pruneQuantifiers content
      ((Command.check options).run coloured content) :=
  tells_onDocument (fun _ drawn => drawn.exists_check) fun _ _ => Verdict.status_check

theorem tells_types :
    Tells options.unifyLists options.pruneQuantifiers content
      ((Command.types options).run coloured content) :=
  tells_onDocument (fun _ drawn => drawn.exists_types) fun _ _ _ => Verdict.status_types

/-- Only faulty arguments lead to status two. -/
theorem status_ne_two {command : Command} {ending : Ending}
    (done : command.run coloured content = .ok ending) :
    ending.status ≠ 2 := by
  have of_tells : ∀ {options : Options}, Tells options.unifyLists options.pruneQuantifiers content
      (command.run coloured content) → ending.status ≠ 2 := by
    intro options tells
    by_cases passes : Passes options.unifyLists options.pruneQuantifiers content
    · simp [tells.status_eq_zero passes ending done]
    · simp [tells.status_eq_one passes ending done]
  cases command with
  | check options => exact of_tells tells_check
  | types options => exact of_tells tells_types
  | missing | help | version =>
    rw [← Except.ok.inj done]
    exact fun isTwo => by cases isTwo

/-- Both commands on a document, with any output, end with status zero if the document
passes and with status one if it does not.  The status two is that of faulty
arguments. -/
theorem runArguments_status (arguments : List String) (coloured : Bool)
    (read : String → Except FileError String) :
    (∀ options, ofArguments arguments = .ok (.check options) ∨
        ofArguments arguments = .ok (.types options) →
      Tells options.unifyLists options.pruneQuantifiers (read options.path)
        (runArguments arguments coloured read)) ∧
      ∀ ending, runArguments arguments coloured read = .ok ending →
        (ending.status = 2 ↔ ∃ error, ofArguments arguments = .error error) := by
  constructor
  · rintro options (isCheck | isTypes)
    · rw [runArguments, isCheck]
      exact tells_check
    · rw [runArguments, isTypes]
      exact tells_types
  · intro ending done
    rw [runArguments] at done
    cases parsed : ofArguments arguments with
    | error error =>
      obtain ⟨expected, expectedEq, isTwo⟩ := (CommandError.usage error).exists_ending coloured
      rw [parsed] at done
      cases expectedEq.symm.trans done
      exact ⟨fun _ => ⟨error, rfl⟩, fun _ => isTwo⟩
    | ok command =>
      rw [parsed] at done
      simp [status_ne_two done]

/-- A list of a number and a truth value. -/
def mixedList : String :=
  "\x7b\"expr\": \x7b\"kind\": \x7b\"list\": [" ++
    "\x7b\"kind\": \x7b\"int\": 1\x7d\x7d, \x7b\"kind\": \x7b\"bool\": true\x7d\x7d]\x7d\x7d\x7d"

/-- The list passes unless its elements must have a common type. -/
theorem runArguments_status_mixedList :
    (∃ ending, runArguments ["check", "--json", "a"] false (fun _ => .ok mixedList) =
      .ok ending ∧ ending.status = 0) ∧
    (∃ ending, runArguments ["types", "a", "--unify-lists"] true (fun _ => .ok mixedList) =
      .ok ending ∧ ending.status = 1) ∧
    ∀ ending, runArguments ["check", "a", "b"] true (fun _ => .ok mixedList) = .ok ending →
      ending.status = 2 := by
  have computes : ∃ document ∈ read? mixedList, ∃ program, load document = .ok program ∧
      program.Clean (program.config.override false false) ∧
        program.Drawable (program.config.override false false) ∧
        ¬program.Clean (program.config.override true false) ∧
        program.Drawable (program.config.override true false) := by
    decide +kernel
  obtain ⟨document, reads, program, loads, passing, drawable, failing, otherDrawable⟩ := computes
  rw [← passes_ok_iff _ _ reads loads] at passing failing
  rw [← drawable_ok_iff _ _ reads loads] at drawable otherDrawable
  have read (arguments : List String) (coloured : Bool) :=
    runArguments_status arguments coloured fun _ => .ok mixedList
  refine ⟨?_, ?_, ?_⟩
  · have tells := (read ["check", "--json", "a"] false).1 { path := "a", json := true }
      (.inl (by decide +kernel))
    obtain ⟨ending, done⟩ := tells.ends drawable
    exact ⟨ending, done, tells.status_eq_zero passing ending done⟩
  · have tells := (read ["types", "a", "--unify-lists"] true).1 { path := "a", unifyLists := true }
      (.inr (by decide +kernel))
    obtain ⟨ending, done⟩ := tells.ends otherDrawable
    exact ⟨ending, done, tells.status_eq_one failing ending done⟩
  · intro ending done
    exact ((read ["check", "a", "b"] true).2 ending done).2
      ⟨.unexpectedArgument "b", by decide +kernel⟩

end Command
end PipeCheck
