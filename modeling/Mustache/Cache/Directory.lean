import Mustache.Cache.Recent
import Mustache.FileSystem

/-!
The cache on disk: one file for each key, and a memory of the artifacts used last in front of it.
-/

namespace Mustache.Cache

/-- The characters of a key that a file name does not take over. -/
def isUnsafe (c : Char) : Bool := c ∈ ['/', '\\', ':', '*', '?', '"', '<', '>', '|', '.']

/-- The file of a key. -/
def fileName (key : String) : String :=
  String.ofList (key.toList.map fun c => if isUnsafe c then '_' else c) ++ ".json"

def filePath (directory key : String) : String := Path.join directory (fileName key)

/-- A cache fault for a failure of the file system. -/
def onFiles (fault : FileError → CacheFault) : Except FileError α → Except Error α
  | .ok a => .ok a
  | .error e => .error (.cache (fault e))

/-- The artifact in the file of a key. A file that holds the artifact of another key counts as
none. -/
def fetch (fs : FileSystem) (directory key : String) : Except Error (Option Artifact) := do
  let path := filePath directory key
  if !fs.has path then return .none
  match Artifact.ofText? (← onFiles .readFile (fs.readText path)) with
  | some a => return if a.key = key then some a else .none
  | .none => throw (.cache .parseFile)

/-- Removes the file of a key if there is one. -/
def discard (fs : FileSystem) (directory key : String) : Except Error FileSystem :=
  let path := filePath directory key
  if fs.has path then onFiles .removeFile (fs.remove path) else .ok fs

/-- The files of a directory that may be artifacts. -/
def stored (fs : FileSystem) (directory : String) : Except Error (List String) := do
  let names ← onFiles .readDirectory (fs.names directory)
  return (names.map (Path.join directory)).filter fun p =>
    fs.isFile p && Path.extension? p == some "json"

/-- Removes files one after the other, and stops at the first failure. -/
def discardAll : List String → FileSystem → Except Error Unit × FileSystem
  | [], fs => (.ok (), fs)
  | p :: ps, fs =>
    match fs.remove p with
    | .ok fs => discardAll ps fs
    | .error e => (.error (.cache (.clearFile e)), fs)

section

variable (files : Focus σ FileSystem) (front : Focus σ Recent) (path : String)

/-- The cache in a directory of a file system, with a memory in front. Setting and removing reach
the memory first, also when the disk then fails. -/
def directory : Cache σ where
  get key w :=
    match (front.get w).find? key with
    | some a => .ok (some a) (front.modify (·.touch key) w)
    | .none =>
      match fetch (files.get w) path key with
      | .ok (some a) => .ok (some a) (front.modify (·.insert key a) w)
      | .ok .none => .ok .none w
      | .error e => .error e w
  set key a w :=
    let w := front.modify (·.insert key a) w
    match onFiles .writeFile ((files.get w).write (filePath path key) a.text.toUTF8) with
    | .ok fs => .ok () (files.set fs w)
    | .error e => .error e w
  remove key w :=
    let w := front.modify (·.erase key) w
    match discard (files.get w) path key with
    | .ok fs => .ok () (files.set fs w)
    | .error e => .error e w
  clear w :=
    let w := front.modify Recent.clear w
    match stored (files.get w) path with
    | .error e => .error e w
    | .ok paths =>
      match discardAll paths (files.get w) with
      | (.ok (), fs) => .ok () (files.set fs w)
      | (.error e, fs) => .error e (files.set fs w)
  has key w := (front.get w).has key || (files.get w).has (filePath path key)

end

/-- Makes the directory of a cache. -/
def makeDirectory (fs : FileSystem) (directory : String) : Except Error FileSystem :=
  onFiles .createDirectory (fs.makeDirectories directory)

end Mustache.Cache
