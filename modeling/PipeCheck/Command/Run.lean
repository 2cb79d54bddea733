import PipeCheck.Command.Arguments
import PipeCheck.Command.Files
import PipeCheck.Command.Output
import PipeCheck.Diagnostic.Explanation
import PipeCheck.Diagnostic.Layout
import PipeCheck.Diagnostic.Report
import PipeCheck.Program.Loading
import PipeCheck.Types.Memo

/-!
# Running a command

A run turns a command and the content of the file it reads into what is
written to the two output streams and the exit status.
-/

namespace PipeCheck

/-- What a run of the program leaves behind. -/
structure Ending where
  /-- What was written out. -/
  stdout : String := ""
  /-- What was written as error. -/
  stderr : String := ""
  /-- The exit status. -/
  status : Nat := 0
deriving DecidableEq, Repr

/-- What stops a command before it has diagnostics to report. -/
inductive CommandError where
  | usage (error : UsageError)
  | unreadable (path : String) (error : FileError)
  | notADocument (path : String)
  | badType (error : BadType)
  | malformed (error : MalformedType)
deriving DecidableEq, Repr

namespace CommandError

/-- What is wrong, in one sentence. -/
def message : CommandError → String
  | .usage error => error.message
  | .unreadable path error => "cannot read `" ++ path ++ "`: " ++ error.message
  | .notADocument path =>
    "`" ++ path ++ "` is not a valid program document: it is not the JSON form of a program"
  | .badType error => error.message
  | .malformed error => error.message

/-- The diagnostic of an error that is shown as one. -/
def diagnostic? : CommandError → Option Diagnostic
  | .badType error => some error.diagnostic
  | .malformed error => some error.diagnostic
  | _ => none

/-- The exit status after an error. -/
def status : CommandError → Nat
  | .usage _ => 2
  | _ => 1

/-- How a run ends after an error. -/
def ending (coloured : Bool) (error : CommandError) : Except WrappedColumn Ending :=
  match error.diagnostic? with
  | some diagnostic => do
    let text ← (Layout.ofSource "" none coloured).format diagnostic
    return { stderr := text, status := error.status }
  | none =>
    return {
      stderr := Output.errorLabel coloured ++ ": " ++ error.message ++ "\n"
      status := error.status }

end CommandError

/-- The diagnostics that a run over a document ended with, and the results of
its analysis if it came to that. -/
structure Verdict where
  /-- The loaded program. -/
  program : Program
  /-- The pass that ended the run. -/
  phase : String
  /-- What is to be reported. -/
  diagnostics : List Diagnostic
  /-- The analysis with its store. -/
  analysis : Option (Analysis × Store)

namespace Verdict

/-- Reads, loads and analyses a document.  Name errors end the run before the
analysis. -/
def ofText (options : Options) (text : String) : Except CommandError Verdict :=
  match Document.read? text with
  | none => .error (.notADocument options.path)
  | some document =>
    match Program.load document with
    | .error error => .error (.badType error)
    | .ok program =>
      if program.nameErrors.isEmpty then
        let config := program.config.override options.unifyLists options.pruneQuantifiers
        match program.analyse config with
        | (.error error, _) => .error (.malformed error)
        | (.ok analysis, store) =>
          .ok {
            program
            phase := "types"
            diagnostics := analysis.issues.map Issue.diagnostic
            analysis := some (analysis, store) }
      else
        .ok {
          program
          phase := "resolve"
          diagnostics := program.nameErrors.map NameError.diagnostic
          analysis := none }

/-- The exit status of a run that ended with diagnostics or without. -/
def status (verdict : Verdict) : Nat :=
  if verdict.diagnostics.isEmpty then 0 else 1

/-- The report of a run. -/
def report (verdict : Verdict) (file : String) : Report :=
  { source := verdict.program.source
    file
    phase := verdict.phase
    diagnostics := verdict.diagnostics }

/-- The diagnostics of a run as text, with a given text after each. -/
def formatted (verdict : Verdict) (coloured : Bool) (file after : String) :
    Except WrappedColumn String := do
  let layout := Layout.ofSource verdict.program.source (some file) coloured
  let texts ← verdict.diagnostics.mapM layout.format
  return String.join (texts.map fun text => text ++ after)

/-- The ending of a check. -/
def check (verdict : Verdict) (coloured : Bool) (options : Options) :
    Except WrappedColumn Ending := do
  if options.json then
    let report := verdict.report options.path
    return { stdout := report.text ++ "\n", status := if report.success then 0 else 1 }
  else
    let text ← verdict.formatted coloured options.path "\n"
    match verdict.diagnostics.isEmpty, verdict.analysis with
    | true, some (analysis, store) =>
      return {
        stdout := Output.ofLines
          [Output.typeName coloured (store.render analysis.root), Output.banner coloured 0]
        stderr := text
        status := 0 }
    | _, _ =>
      return {
        stderr := text ++ Output.ofLines [Output.banner coloured verdict.diagnostics.length]
        status := verdict.status }

/-- The rendered type of a node. -/
def nodeType? (analysis : Analysis) (node : Expr) : StateM RenderedStore (Option String) :=
  (analysis.typeOf? node.id).mapM RenderedStore.text

/-- The JSON form of a node with its type. -/
def nodeJson (analysis : Analysis) (node : Expr) : StateM RenderedStore Json := do
  let type ← nodeType? analysis node
  return .record
    [("id", .nat node.id.toNat),
      ("kind", .text node.kindName),
      ("type", (type.map Json.text).getD .null),
      ("broadcast", .bool (analysis.isBroadcast node.id))]

/-- The line of a node with its type. -/
def nodeLine (coloured : Bool) (analysis : Analysis) (node : Expr) :
    StateM RenderedStore String := do
  let type ← nodeType? analysis node
  return Text.padLeft 4 node.id.toNat.repr ++ "  " ++ Text.padRight 22 node.kindName ++ " " ++
    Output.typeName coloured (type.getD "?") ++
    if analysis.isBroadcast node.id then " " ++ Output.broadcastMarker coloured else ""

/-- The list of all nodes with their types. -/
def listing (verdict : Verdict) (coloured json : Bool) : String :=
  match verdict.analysis with
  | none => ""
  | some (analysis, store) =>
    let nodes := verdict.program.expr.preorder
    if json then
      (Json.array ((nodes.mapM (nodeJson analysis)).run { store }).1).pretty ++ "\n"
    else
      Output.ofLines ((nodes.mapM (nodeLine coloured analysis)).run { store }).1

/-- The ending of a listing of types. -/
def types (verdict : Verdict) (coloured : Bool) (options : Options) :
    Except WrappedColumn Ending := do
  let text ← verdict.formatted coloured options.path (if options.json then "" else "\n")
  return {
    stdout := verdict.listing coloured options.json
    stderr := text
    status := verdict.status }

end Verdict

namespace Command

/-- Runs a command, given the content of the file that it reads or the reason
why that could not be read. -/
def run (command : Command) (coloured : Bool) (content : Except FileError String) :
    Except WrappedColumn Ending :=
  match command with
  | .missing => .ok { stdout := Output.help coloured, status := 1 }
  | .help => .ok { stdout := Output.help coloured }
  | .version => .ok { stdout := "pipet " ++ Output.version ++ "\n" }
  | .check options => onDocument options fun verdict => verdict.check coloured options
  | .types options => onDocument options fun verdict => verdict.types coloured options
where
  /-- Goes on with a document that can be read, loaded and analysed. -/
  onDocument (options : Options) (proceed : Verdict → Except WrappedColumn Ending) :
      Except WrappedColumn Ending :=
    match content with
    | .error error => (CommandError.unreadable options.path error).ending coloured
    | .ok text =>
      match Verdict.ofText options text with
      | .error error => error.ending coloured
      | .ok verdict => proceed verdict

/-- Runs the command that arguments name, given how to read a file. -/
def runArguments (arguments : List String) (coloured : Bool)
    (read : String → Except FileError String) : Except WrappedColumn Ending :=
  match ofArguments arguments with
  | .error error => (CommandError.usage error).ending coloured
  | .ok command => command.run coloured (read (command.path?.getD ""))

/-- Whether colours are written: not if they are disabled, and else if they are
forced or the output is shown on a terminal. -/
def usesColour (disabled forced terminal : Bool) : Bool :=
  !disabled && (forced || terminal)

end Command
end PipeCheck
