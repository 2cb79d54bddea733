/-!
# Command line arguments

The arguments name a command and, for those that read a program document, its
path and options in any order.
-/

namespace PipeCheck

/-- What a command that reads a document was asked to do. -/
structure Options where
  /-- The file to read. -/
  path : String
  /-- Whether the output is JSON. -/
  json : Bool := false
  /-- Whether list elements are unified. -/
  unifyLists : Bool := false
  /-- Whether unused variables are dropped. -/
  pruneQuantifiers : Bool := false
deriving DecidableEq, Repr

/-- A command of the program. -/
inductive Command where
  /-- No command was given. -/
  | missing
  | help
  | version
  /-- Checks the types of a document. -/
  | check (options : Options)
  /-- Lists the type of every expression of a document. -/
  | types (options : Options)
deriving DecidableEq, Repr

/-- What can be wrong with the arguments. -/
inductive UsageError where
  | unknownCommand (name : String)
  | badFormat (given : String)
  | unknownOption (name : String)
  | unexpectedArgument (text : String)
  | missingPath (command : String)
deriving DecidableEq, Repr

namespace UsageError

/-- What is wrong with the arguments. -/
def message : UsageError → String
  | .unknownCommand name => "unknown command: " ++ name ++ "\nRun 'pipet help' for usage"
  | .badFormat given => "--format expects `json` or `human`, got `" ++ given ++ "`"
  | .unknownOption name => "unknown option: " ++ name
  | .unexpectedArgument text => "unexpected argument: " ++ text
  | .missingPath command => "Usage: pipet " ++ command ++ " <file.json>"

end UsageError

namespace Options

/-- The options read so far, before the path is known. -/
structure Partial where
  /-- The file to read, once given. -/
  path : Option String := none
  /-- Whether the output is JSON. -/
  json : Bool := false
  /-- Whether list elements are unified. -/
  unifyLists : Bool := false
  /-- Whether unused variables are dropped. -/
  pruneQuantifiers : Bool := false

/-- Reads options from left to right; the first fault ends the reading. -/
def readFrom (read : Partial) : List String → Except UsageError Partial
  | [] => .ok read
  | "--json" :: rest => readFrom { read with json := true } rest
  | "--format" :: "json" :: rest => readFrom { read with json := true } rest
  | "--format" :: "human" :: rest => readFrom { read with json := false } rest
  | "--format" :: rest => .error (.badFormat (rest.head?.getD ""))
  | "--unify-lists" :: rest => readFrom { read with unifyLists := true } rest
  | "--prune-quantifiers" :: rest => readFrom { read with pruneQuantifiers := true } rest
  | argument :: rest =>
    if argument.startsWith "-" then
      .error (.unknownOption argument)
    else if read.path.isNone then
      readFrom { read with path := some argument } rest
    else
      .error (.unexpectedArgument argument)

/-- The options of a command that needs a path. -/
def ofArguments (command : String) (arguments : List String) : Except UsageError Options := do
  let read ← readFrom {} arguments
  match read.path with
  | none => .error (.missingPath command)
  | some path =>
    return {
      path
      json := read.json
      unifyLists := read.unifyLists
      pruneQuantifiers := read.pruneQuantifiers }

end Options

namespace Command

/-- The command that arguments name. -/
def ofArguments : List String → Except UsageError Command
  | [] => .ok .missing
  | name :: arguments =>
    match name with
    | "check" => (Options.ofArguments "check" arguments).map .check
    | "types" => (Options.ofArguments "types" arguments).map .types
    | "help" | "--help" | "-h" => .ok .help
    | "version" | "--version" | "-V" => .ok .version
    | _ => .error (.unknownCommand name)

/-- The path of the document that a command reads. -/
def path? : Command → Option String
  | .check options => some options.path
  | .types options => some options.path
  | _ => none

end Command
end PipeCheck
