import Mustache.Project
import Mustache.Render
import Mustache.Token.Listing
import Mustache.Toml.Data
import Mustache.Value.OfJson
import Mustache.World

/-!
Commands on files: rendering a template with data, checking templates, listing tokens.
-/

namespace Mustache

/-- What to render, with which data and partials, and where to. -/
structure RenderJob where
  template : String
  data : Option String := none
  partials : Option String := none
  output : Option String := none
deriving DecidableEq, Repr

inductive Command
  | render (job : RenderJob)
  | check (templates : List String)
  | tokens (template : String) (asJson : Bool)
deriving DecidableEq, Repr

namespace Command

/-- A command at work. What it changed stays changed when it fails. -/
abbrev CommandM := EStateM Failure World

def orFail (r : Except Failure α) : CommandM α :=
  match r with
  | .ok a => return a
  | .error f => throw f

def orError (r : Except Error α) : CommandM α := orFail (r.mapError Failure.ofError)

/-- What an operation on files gives; its failure is told with what was being done. -/
def orFile (context : String) (r : Except FileError α) : CommandM α :=
  orFail (r.mapError fun e => (Failure.ofCause (.file e)).inContext context)

def loadProject (settings : Option String) : CommandM Project := do
  orFail (Project.load (← get).files settings)

def openEngine (config : Config) : CommandM (Engine World) := do
  let (e, w) ← orError ((← get).openEngine config)
  set w
  return e

def readTemplate (path : String) : CommandM String := do
  orFile ("failed to read " ++ path) ((← get).files.readText path)

/-- Data from JSON, or from TOML if the file's extension says so. -/
def loadData (path : String) : CommandM Value := do
  let text ← orFile ("failed to read data file " ++ path) ((← get).files.readText path)
  match Path.extension? path with
  | some "toml" => read (Toml.readData? text) .toml
  | none | some "json" => read (Json.read? text) .json
  | some other => throw (.ofCause (.words ("unsupported data format: ." ++ other)))
where
  read (j : Option Json) (fault : Cause) : CommandM Value :=
    match j with
    | some j => return Value.ofJson j
    | none => throw (.ofCause fault)

/-- Runs an operation of an engine that has done nothing yet, from the registry on; its failure is
told with what was being done. -/
def onEngine (context : String) (registry : Registry) (op : Engine.EngineM World α) :
    CommandM (α × Registry) := fun w =>
  match op ⟨registry, [], w⟩ with
  | .ok a s => .ok (a, s.registry) s.world
  | .error e s => .error ((Failure.ofError e).inContext context) s.world

/-- Renders a template. Its partials are files with the project's extension. -/
def renderFile (settings : Option String) (job : RenderJob) : CommandM String := do
  let project ← loadProject settings
  let directory := (TemplateDirectory.ofBase (project.partialsFor job.template job.partials))
    |>.withExtension project.extension
  let e ← openEngine project.engine
  let e := { e with partials := Loader.directory World.files directory }
  let data ← match job.data with
    | some path => loadData path
    | none => pure .null
  let source ← readTemplate job.template
  let (t, registry) ← onEngine ("failed to compile " ++ job.template) Registry.empty
    (e.compile source)
  return (← onEngine ("failed to render " ++ job.template) registry (e.renderTemplate t data)).1

/-- Renders a template into the file that was asked for, or hands over the text. -/
def renderTo (settings : Option String) (job : RenderJob) : CommandM String := do
  let text ← renderFile settings job
  match job.output with
  | some path =>
    let files ← orFile ("failed to write " ++ path) ((← get).files.write path text.toUTF8)
    modify fun w => { w with files }
    return ""
  | none => return text

/-- Parses templates. Each comes with the error in it, if there is one. -/
def checkFiles (settings : Option String) (paths : List String) :
    CommandM (List (String × Option Error)) := do
  let e ← openEngine (← loadProject settings).engine
  paths.mapM fun path => do
    let source ← readTemplate path
    match e.parse source with
    | .ok _ => return (path, none)
    | .error err => return (path, some (err.inTemplate path source))

def listTokens (settings : Option String) (path : String) (asJson : Bool) : CommandM String := do
  let e ← openEngine (← loadProject settings).engine
  let tokens ← orError (e.tokenize (← readTemplate path))
  return if asJson then (Json.array (tokens.map Token.toJson)).pretty ++ "\n"
    else Token.listings tokens

end Command

end Mustache
