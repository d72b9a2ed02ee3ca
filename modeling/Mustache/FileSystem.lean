import Mustache.Error
import Mustache.Path

/-!
File systems. Files, directories and symbolic links lie at locations, the names on the way down
from the root; a path is followed from the working directory or the root, through links, to the
location it leads to.
-/

namespace Mustache

/-- The names on the way from the root. -/
abbrev Location := List String

inductive Item
  | file (content : ByteArray)
  | directory
  /-- A symbolic link with its target, which need not exist. -/
  | link (target : String)

/-- The items of a file system other than the root, which is always a directory. -/
structure FileSystem where
  items : List (Location × Item)
  workingDirectory : Location

namespace FileSystem

/-- The directories down to the working directory and nothing else. -/
def ofWorkingDirectory (l : Location) : FileSystem :=
  ⟨(List.range l.length).map fun n => (l.take (n + 1), .directory), l⟩

variable (fs : FileSystem)

def item? (l : Location) : Option Item :=
  if l = [] then some .directory else fs.items.lookup l

def isDirectoryAt (l : Location) : Bool :=
  match fs.item? l with
  | some .directory => true
  | _ => false

/-! ### Following paths -/

/-- How many links are followed on one way. -/
def maxLinks : Nat := 40

/-- The longest name, and the longest path, in bytes. -/
def maxName : Nat := 255
def maxPath : Nat := 4095

/-- Where following a path ends: at an item, or at a location where there is none, with names
still to be followed from there. -/
inductive Arrival
  | found (l : Location)
  | missing (l : Location) (rest : List String)

/-- Follows names down from a location. An empty name and a dot stay, two dots go up, and each of
them wants a directory. -/
def follow (links : Nat) (l : Location) : List String → Except FileError Arrival
  | [] => .ok (.found l)
  | name :: rest =>
    if !fs.isDirectoryAt l then .error .notDirectory
    else if name = "" ∨ name = "." then follow links l rest
    else if name = ".." then follow links l.dropLast rest
    else if maxName < name.utf8ByteSize then .error .nameTooLong
    else match fs.item? (l ++ [name]) with
      | none => .ok (.missing (l ++ [name]) rest)
      | some (.link target) =>
        match links with
        | 0 => .error .tooManyLinks
        | n + 1 =>
          follow n (if Path.isAbsolute target then [] else l) (Path.pieces target ++ rest)
      | some _ => follow links (l ++ [name]) rest
termination_by names => (links, names.length)

/-- Follows a path from the root or the working directory. -/
def arrive (path : String) : Except FileError Arrival :=
  if path = "" then .error .notFound
  else if Char.ofNat 0 ∈ path.toList then .error .nulInPath
  else if maxPath < path.utf8ByteSize then .error .nameTooLong
  else
    fs.follow maxLinks (if Path.isAbsolute path then [] else fs.workingDirectory)
      (Path.pieces path)

/-- The location a path leads to, all links followed. The path has to lead to something. -/
def resolve (path : String) : Except FileError Location := do
  match ← fs.arrive path with
  | .found l => .ok l
  | .missing _ _ => .error .notFound

/-- The location of the last name of a path in its directory. The name itself is not followed. -/
def place (path : String) : Except FileError Location := do
  match (Path.pieces path).reverse with
  | name :: r =>
    let l ← if r = [] then .ok fs.workingDirectory
      else fs.resolve ("/".intercalate r.reverse ++ "/")
    if name = "" ∨ name = "." ∨ name = ".." then .error .isDirectory
    else if maxName < name.utf8ByteSize then .error .nameTooLong
    else .ok (l ++ [name])
  | [] => .error .notFound

/-! ### Asking -/

def itemOf? (path : String) : Option Item :=
  match fs.resolve path with
  | .ok l => fs.item? l
  | .error _ => none

/-- The path leads to something. -/
def has (path : String) : Bool := (fs.itemOf? path).isSome

def isFile (path : String) : Bool :=
  match fs.itemOf? path with
  | some (.file _) => true
  | _ => false

def isDirectory (path : String) : Bool :=
  match fs.itemOf? path with
  | some .directory => true
  | _ => false

def read (path : String) : Except FileError ByteArray := do
  match fs.item? (← fs.resolve path) with
  | some (.file content) => .ok content
  | some _ => .error .isDirectory
  | none => .error .notFound

/-- The text of a file whose bytes are UTF-8. -/
def readText (path : String) : Except FileError String := do
  match String.fromUTF8? (← fs.read path) with
  | some s => .ok s
  | none => .error .notUtf8

/-- The names in a directory. -/
def namesAt (l : Location) : List String :=
  fs.items.filterMap fun (m, _) => if m.dropLast = l then m.getLast? else none

def names (path : String) : Except FileError (List String) := do
  let l ← fs.resolve path
  if fs.isDirectoryAt l then .ok (fs.namesAt l) else .error .notDirectory

/-! ### Changing -/

def put (l : Location) (i : Item) : FileSystem :=
  { fs with items := (l, i) :: fs.items.filter fun e => e.1 != l }

def drop (l : Location) : FileSystem := { fs with items := fs.items.filter fun e => e.1 != l }

/-- Writes a file, over the one that is there. Links are followed, and only the last name on the
way may be missing. -/
def write (path : String) (content : ByteArray) : Except FileError FileSystem := do
  match ← fs.arrive path with
  | .found l =>
    if fs.isDirectoryAt l then .error .isDirectory else .ok (fs.put l (.file content))
  | .missing l [] => .ok (fs.put l (.file content))
  | .missing _ rest => .error (if rest = [""] then .isDirectory else .notFound)

/-- Removes a file or link. -/
def remove (path : String) : Except FileError FileSystem := do
  let l ← fs.place path
  match fs.item? l with
  | some .directory => .error .isDirectory
  | some _ => .ok (fs.drop l)
  | none => .error .notFound

/-- Follows names down from a location and makes the directories that are missing. -/
def makeFrom (fs : FileSystem) (l : Location) : List String → Except FileError FileSystem
  | [] => .ok fs
  | name :: rest =>
    if name = "" ∨ name = "." then makeFrom fs l rest
    else if name = ".." then makeFrom fs l.dropLast rest
    else if maxName < name.utf8ByteSize then .error .nameTooLong
    else match fs.item? (l ++ [name]) with
      | none => makeFrom (fs.put (l ++ [name]) .directory) (l ++ [name]) rest
      | some .directory => makeFrom fs (l ++ [name]) rest
      | some (.file _) => .error (if rest.all (· = "") then .alreadyExists else .notDirectory)
      | some (.link target) =>
        match fs.follow maxLinks (if Path.isAbsolute target then [] else l) (Path.pieces target) with
        | .ok (.found next) =>
          if fs.isDirectoryAt next then makeFrom fs next rest else .error .notDirectory
        | .ok (.missing _ _) => .error .alreadyExists
        | .error e => .error e

/-- Makes a directory and those above it that are missing. The empty path needs none. -/
def makeDirectories (path : String) : Except FileError FileSystem := do
  if path = "" then .ok fs
  else if Char.ofNat 0 ∈ path.toList then .error .nulInPath
  else makeFrom fs (if Path.isAbsolute path then [] else fs.workingDirectory) (Path.pieces path)

/-- Removes a directory and everything in it. -/
def removeTree (path : String) : Except FileError FileSystem := do
  let root ← fs.place path
  if fs.isDirectoryAt root then
    return { fs with items := fs.items.filter fun e => !root.isPrefixOf e.1 }
  else .error .notDirectory

end FileSystem

end Mustache
