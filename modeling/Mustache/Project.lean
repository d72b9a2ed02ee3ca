import Mustache.Config.Record
import Mustache.Failure
import Mustache.FileSystem
import Mustache.Toml.Read

/-!
The settings of a project: the options of its engine, and where its partials lie. They stand in a
TOML file, by default in the working directory.
-/

namespace Mustache

structure Project where
  engine : Config := {}
  /-- The extension of partials. -/
  extension : String := "mustache"
  /-- Where partials are looked for, if not beside the template. -/
  partialsDirectory : Option String := none

namespace Project

instance : Inhabited Project := ⟨{}⟩

/-- The file that is looked for when no other one is named. -/
def fileName : String := "stache.toml"

/-- Settings may list more than there are fields, and under the name of a plain choice stands an
empty table or array. -/
def style : Json.Style := ⟨true, false, fun | .object [] | .array [] => true | _ => false⟩

/-- Reads what is said on templates: their extension, and the directory of partials. -/
def templates? (engine : Config) (j : Json) : Option Project := do
  match ← j.fields? style ["extension", "partials_dir"] 0 with
  | [extension, directory] =>
    return {
      engine
      extension := ← Json.withDefault "mustache" Json.toString? extension
      partialsDirectory := ← Json.withDefault none Json.toOptString? directory }
  | _ => none

def ofJson? (j : Json) : Option Project := do
  match ← j.fields? style ["engine", "templates"] 0 with
  | [engine, templates] =>
    let engine ← Json.withDefault {} (Config.ofJson? style) engine
    Json.withDefault { engine } (templates? engine) templates
  | _ => none

/-- The project of a text whose options are acceptable. -/
def ofToml (text : String) : Except Failure Project :=
  match (Toml.read? text).bind ofJson? with
  | none => .error (.ofCause .toml)
  | some p => do
    p.engine.validate.mapError Failure.ofError
    return p

/-- The project of the file that is named, or else of the usual file, which need not be there. -/
def load (fs : FileSystem) (path : Option String) : Except Failure Project :=
  match path with
  | none => if fs.has fileName then read fileName else .ok {}
  | some path => read path
where
  read (path : String) : Except Failure Project := do
    ofToml (← (fs.readText path).mapError fun e => .ofCause (.file e))

/-- Where the partials of a template are looked for: in the directory that was asked for, in that
of the project, or beside the template. -/
def partialsFor (p : Project) (template : String) (asked : Option String) : String :=
  (asked.or (p.partialsDirectory.or (Path.parent? template))).getD ""

end Project

end Mustache
