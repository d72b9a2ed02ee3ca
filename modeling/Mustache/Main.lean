import Mustache.Program

/-!
The program on the files of the machine. The files a command may read are taken into a file system
of one's own, the command runs on that, and what it changed is written back.
-/

namespace Mustache.Main

/-- Takes a file or directory in, a directory with all that is in it if `deep`. What cannot be
read is left out. -/
partial def takeIn (deep : Bool) (fs : FileSystem) (path : String) : IO FileSystem := do
  match ← (IO.FS.readBinFile path).toBaseIO with
  | .ok content =>
    let made := fs.makeDirectories ((Path.parent? path).getD "")
    return ((made.bind fun fs => fs.write path content).toOption).getD fs
  | .error _ =>
    match ← ((← IO.currentDir) / path).readDir.toBaseIO with
    | .ok entries =>
      let fs := (fs.makeDirectories path).toOption.getD fs
      if deep then
        entries.foldlM (fun fs entry => takeIn deep fs (Path.join path entry.fileName)) fs
      else return fs
    | .error _ => return fs

/-- Writes back an item if it is not what it was. -/
def putBack (before : FileSystem) : Location × Item → IO Unit
  | (l, item) => do
    let path := "/" ++ "/".intercalate l
    match item, before.item? l with
    | .file content, some (.file old) =>
      if content != old then IO.FS.writeBinFile path content
    | .file content, _ => IO.FS.writeBinFile path content
    | .directory, none => IO.FS.createDirAll path
    | _, _ => return

/-- The files a command line may read. -/
def takeInAll (args : List String) (fs : FileSystem) : IO FileSystem := do
  match Invocation.read args with
  | .error _ => return fs
  | .ok i =>
    let fs ← (Program.namedFiles i).foldlM (takeIn false) fs
    match Project.load fs i.settings with
    | .error _ => return fs
    | .ok p => (Program.directories p i).foldlM (takeIn true) fs

end Mustache.Main

open Mustache in
def main (args : List String) : IO UInt32 := do
  let here := (Path.components (← IO.currentDir).toString)
  let fs ← Main.takeInAll args (FileSystem.ofWorkingDirectory here)
  let (outcome, w) := Program.run args (World.ofFiles fs)
  w.files.items.reverse.forM (Main.putBack fs)
  (← IO.getStdout).putStr outcome.stdout
  (← IO.getStderr).putStr outcome.stderr
  return outcome.code.toUInt32
