import Mustache.FileSystem
import Mustache.Loader

/-!
Templates in a directory. A name is a path below the directory, with the extension added where it
is missing. Names that lead out of the directory, by their text or through links, are unknown.
-/

namespace Mustache

/-- A directory of templates. -/
structure TemplateDirectory where
  base : String
  /-- With its dot, or empty. -/
  extension : String
deriving DecidableEq, Repr

namespace TemplateDirectory

def ofBase (base : String) : TemplateDirectory := ⟨base, ".mustache"⟩

/-- An extension is given with or without its dot. -/
def withExtension (d : TemplateDirectory) (extension : String) : TemplateDirectory :=
  let dotted := extension = "" ∨ extension.toList.head? = some '.'
  { d with extension := if dotted then extension else "." ++ extension }

/-- A name that goes neither up nor to the root. -/
def staysBelow (name : String) : Bool :=
  name != "" && !Path.isAbsolute name && (Path.components name).all (· != "..")

/-- The path of a name. -/
def path? (d : TemplateDirectory) (name : String) : Option String :=
  if staysBelow name then
    some (Path.join d.base
      (if d.extension.toList.isSuffixOf name.toList then name else name ++ d.extension))
  else none

/-- Whether what a path leads to lies below the directory. That is checked where both can be
followed to their ends. -/
def holds (d : TemplateDirectory) (fs : FileSystem) (path : String) : Bool :=
  match fs.resolve d.base, fs.resolve path with
  | .ok base, .ok target => base.isPrefixOf target
  | _, _ => true

def load (d : TemplateDirectory) (fs : FileSystem) (name : String) : Except Error String :=
  match d.path? name with
  | some path =>
    if fs.isFile path ∧ d.holds fs path then
      match fs.readText path with
      | .ok source => .ok source
      | .error e => .error (.io e)
    else .error (.unknownTemplate name)
  | none => .error (.unknownTemplate name)

end TemplateDirectory

/-- The templates of a directory in a file system that is part of the world. -/
def Loader.directory (files : σ → FileSystem) (d : TemplateDirectory) : Loader σ :=
  fun w name => d.load (files w) name

end Mustache
