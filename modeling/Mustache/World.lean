import Mustache.Cache.Directory
import Mustache.Callable.Stock
import Mustache.Config
import Mustache.Engine
import Mustache.Loader.Directory

/-!
A world for engines to work in: a file system, memories for caches, shelves of sources that
several loaders may share, and the callables in stock.
-/

namespace Mustache

structure World where
  files : FileSystem
  memories : List Recent
  shelves : List (Table String)
  stock : Stock.State

namespace World

/-- A world with some files and nothing else. -/
def ofFiles (files : FileSystem) : World := ⟨files, [], [], Stock.State.empty⟩

def filesFocus : Focus World FileSystem := ⟨World.files, fun fs w => { w with files := fs }⟩

def memoriesFocus : Focus World (List Recent) :=
  ⟨World.memories, fun m w => { w with memories := m }⟩

def shelvesFocus : Focus World (List (Table String)) :=
  ⟨World.shelves, fun s w => { w with shelves := s }⟩

def stockFocus : Focus World Stock.State := ⟨World.stock, fun s w => { w with stock := s }⟩

/-- The memory of a number. -/
def memory (i : Nat) : Focus World Recent := memoriesFocus.element i

/-- The shelf of a number. -/
def shelf (i : Nat) : Focus World (Table String) := shelvesFocus.element i

def host : Host World := Stock.host stockFocus

/-- One more memory, and its number. -/
def addMemory (w : World) (capacity : Nat) : Nat × World :=
  (w.memories.length, { w with memories := w.memories ++ [Recent.ofCapacity capacity] })

/-- One more shelf, and its number. -/
def addShelf (w : World) (sources : Table String) : Nat × World :=
  (w.shelves.length, { w with shelves := w.shelves ++ [sources] })

/-- Sets up the cache of a configuration. A directory is made if it is not there. -/
def openCache (w : World) : CacheConfig → Except Error (Cache World × World)
  | .off => .ok (Cache.none, w)
  | .memory capacity =>
    let (i, w) := w.addMemory capacity
    .ok (Cache.recent (memory i), w)
  | .directory path capacity => do
    let files ← Cache.makeDirectory w.files path
    let (i, w) := { w with files }.addMemory capacity
    return (Cache.directory filesFocus (memory i) path, w)

/-- Sets up the engine of a configuration. -/
def openEngine (w : World) (config : Config) : Except Error (Engine World × World) := do
  config.validate
  let (cache, w) ← w.openCache config.cache
  return (← Engine.ofConfig config cache host, w)

/-- The store of an engine that has done nothing yet. -/
def store (w : World) (helpers : Table Value) : Engine.Store World :=
  ⟨Registry.empty, helpers, w⟩

end World

end Mustache
