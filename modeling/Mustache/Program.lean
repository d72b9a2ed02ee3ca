import Mustache.Command.Arguments

/-!
The program: from its arguments and the world around it to an exit code and what it prints.
-/

namespace Mustache

structure Outcome where
  code : Nat
  stdout : String
  stderr : String
deriving DecidableEq, Repr

namespace Program

/-- How the program is used. -/
def usage : String := "\n".intercalate
  ["Logic-less Mustache templates from the command line", "",
    "Usage: stache [OPTIONS] <COMMAND>", "",
    "Commands:",
    "  render  Render a template with JSON or TOML data",
    "  check   Check templates for syntax errors",
    "  tokens  Print the tokens of a template",
    "  help    Print this message or the help of the given subcommand(s)", "",
    "Options:",
    "      --log-level <LOG_LEVEL>  Log level: error, warn, info, debug, trace [default: warn]",
    "  -c, --config <CONFIG>        Configuration file (defaults to ./stache.toml when present)",
    "  -h, --help                   Print help",
    "  -V, --version                Print version", ""]

def ofHalt : Halt → Outcome
  | .help => ⟨0, usage, ""⟩
  | .version => ⟨0, "stache " ++ Engine.version ++ "\n", ""⟩
  | .misuse => ⟨2, "", usage⟩

/-- What a command prints: a text to one side, remarks to the other, and the failure it ends
with. -/
structure Printed where
  stdout : String
  stderr : String := ""
  failure : Option Failure := none

/-- The lines on templates that were checked. -/
def printChecks (results : List (String × Option Error)) : Printed :=
  let failed := results.filterMap fun (path, e) => e.map fun e => (path, e)
  let count := s!"{failed.length} of {results.length} templates failed"
  { stdout := String.join (results.map fun (path, e) =>
      if e.isNone then "ok      " ++ path ++ "\n" else "")
    stderr := String.join (failed.map fun (path, e) =>
      "error   " ++ path ++ ": " ++ e.message ++ "\n")
    failure := if failed.isEmpty then none else some (.ofCause (.words count)) }

/-- The files that the command line names, and the one with the settings. -/
def namedFiles (i : Invocation) : List String :=
  i.settings.getD Project.fileName ::
    match i.command with
    | .render job => job.template :: job.data.toList
    | .check paths => paths
    | .tokens path _ => [path]

/-- The directories in which a project may read further files. -/
def directories (p : Project) (i : Invocation) : List String :=
  let partials := match i.command with
    | .render job => [p.partialsFor job.template job.partials]
    | _ => []
  match p.engine.cache with
  | .directory path _ => path :: partials
  | _ => partials

def perform (i : Invocation) : Command.CommandM Printed := do
  match i.command with
  | .render job => return { stdout := ← Command.renderTo i.settings job }
  | .check paths => return printChecks (← Command.checkFiles i.settings paths)
  | .tokens path asJson => return { stdout := ← Command.listTokens i.settings path asJson }

def outcome (p : Printed) : Outcome :=
  match p.failure with
  | none => ⟨0, p.stdout, p.stderr⟩
  | some f => ⟨1, p.stdout, p.stderr ++ f.report ++ "\n"⟩

def run (args : List String) (w : World) : Outcome × World :=
  match Invocation.read args with
  | .error h => (ofHalt h, w)
  | .ok i =>
    match perform i w with
    | .ok p w => (outcome p, w)
    | .error f w => (outcome { stdout := "", failure := some f }, w)

end Program

end Mustache
