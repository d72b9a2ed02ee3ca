import Mustache.Cache
import Mustache.Callable
import Mustache.Config
import Mustache.Loader
import Mustache.Sha256
import Mustache.Template
import Mustache.Token.Scan

/-!
Engines. An engine brings together options, loaders, a cache and the callables of its host; what
changes while it works, the templates compiled so far, the helpers and the world around, is its
store. A template is compiled once for each source: its key is a digest of the source and of all
options that have a part in what it compiles to.
-/

namespace Mustache

/-- The templates compiled so far, by key. A registry that is emptied starts a new generation,
so a template is the same one as another if they share key and generation. -/
structure Registry where
  generation : Nat
  templates : List (String × Template)

namespace Registry

def empty : Registry := ⟨0, []⟩

instance : Inhabited Registry := ⟨empty⟩

def find? (r : Registry) (key : String) : Option Template := r.templates.lookup key

def insert (r : Registry) (key : String) (t : Template) : Registry :=
  { r with templates := (key, t) :: r.templates }

def clear (r : Registry) : Registry := ⟨r.generation + 1, []⟩

def size (r : Registry) : Nat := r.templates.length

end Registry

/-- What is fixed about an engine. -/
structure Engine (σ : Type) where
  config : Config
  escape : Escape
  delimiters : Delimiters
  pragmas : PragmaSet
  loader : Loader σ
  partials : Loader σ
  cache : Cache σ
  host : Host σ
  /-- What makes the key of a template from the bytes that stand for it. -/
  digest : List UInt8 → String := Sha256.hex

namespace Engine

/-- What changes while an engine works. -/
structure Store (σ : Type) where
  registry : Registry
  helpers : Table Value
  world : σ

/-- An operation of an engine. What it changed stays changed when it fails. -/
abbrev EngineM (σ : Type) := EStateM Error (Store σ)

/-- An engine without partials whose templates are given by their source. -/
def ofConfig (config : Config) (cache : Cache σ) (host : Host σ) : Except Error (Engine σ) := do
  config.validate
  return {
    config, cache, host
    escape := config.escaper
    delimiters := ← config.initialDelimiters
    pragmas := config.pragmaSet
    loader := Loader.verbatim
    partials := Loader.table [] }

/-- Replaces the escape. Templates compiled before keep theirs. -/
def withEscape (e : Engine σ) (escape : Escape) : Engine σ :=
  { e with escape, config := { e.config with escape := some escape } }

/-! ### Keys -/

/-- The version that keys and the command line give. -/
def version : String := "0.1.0"

def boolText (b : Bool) : String := if b then "true" else "false"

/-- All options that have a part in what a source compiles to. -/
def fingerprint (e : Engine σ) : String :=
  "stache " ++ version ++ "|escape=" ++ e.escape.keyName ++ "|charset=" ++ e.config.charsetKey ++
    "|strict_callables=" ++ boolText e.config.strictCallables ++
    "|strict_variables=" ++ boolText e.config.strictVariables ++
    "|pragmas=" ++ e.pragmas.text ++ "|delimiters=" ++ e.delimiters.text

/-- The bytes a key is the digest of: fingerprint and source with a zero byte between them. -/
def keyBytes (fingerprint source : String) : List UInt8 :=
  fingerprint.toUTF8.toList ++ 0 :: source.toUTF8.toList

def digestKey (fingerprint source : String) : String := Sha256.hex (keyBytes fingerprint source)

def cacheKey (e : Engine σ) (source : String) : String := e.digest (keyBytes e.fingerprint source)

/-! ### Compiling -/

def tokenize (e : Engine σ) (source : String) : Except Error (List Token) :=
  Token.scan e.delimiters source

def parse (e : Engine σ) (source : String) : Except Error (List Node) := do
  Node.ofTokens e.pragmas (← e.tokenize source)

def compileOptions (e : Engine σ) (key : String) : CompileOptions where
  escape := e.escape
  strictCallables := e.config.strictCallables
  strictVariables := e.config.strictVariables
  pragmas := e.pragmas
  key := key

/-- Runs an operation on the world and hands over its outcome, failure included. -/
def onWorld (op : EStateM Error σ α) : EngineM σ (Except Error α) := fun s =>
  match op s.world with
  | .ok a w => .ok (.ok a) { s with world := w }
  | .error err w => .ok (.error err) { s with world := w }

/-- Parses a source and offers the tree to the cache, whatever the cache makes of it. -/
def parseArtifact (e : Engine σ) (cache : Cache σ) (name key source : String) :
    EngineM σ Artifact := do
  match e.parse source with
  | .error err => throw (err.inTemplate name source)
  | .ok tree =>
    let artifact : Artifact := ⟨name, key, source, tree⟩
    let _ ← onWorld (cache.set key artifact)
    return artifact

/-- The template of a source: the one compiled before, or else compiled now from the cache's tree
or one's own. A cache that fails counts as one that has nothing. -/
def compileWith (e : Engine σ) (cache : Cache σ) (name source : String) : EngineM σ Template := do
  let key := e.cacheKey source
  match (← get).registry.find? key with
  | some t => return t
  | none =>
    let artifact ← match ← onWorld (cache.get key) with
      | .ok (some artifact) => pure artifact
      | _ => e.parseArtifact cache name key source
    match Template.compile (e.compileOptions key) name artifact.source artifact.tree with
    | .error err => throw (err.inTemplate name source)
    | .ok t =>
      modify fun s => { s with registry := s.registry.insert key t }
      return t

def compile (e : Engine σ) (source : String) : EngineM σ Template :=
  e.compileWith e.cache "source" source

/-- The template of a name. One that is its own source goes by the name `inline`. -/
def loadTemplate (e : Engine σ) (name : String) : EngineM σ Template := do
  match e.loader (← get).world name with
  | .error err => throw err
  | .ok source => e.compileWith e.cache (if source = name then "inline" else name) source

/-- The partial of a name, if there is one. -/
def loadPartial (e : Engine σ) (name : String) : EngineM σ (Option Template) := do
  match e.partials (← get).world name with
  | .error err => if err.isUnknownTemplate then return none else throw err
  | .ok source => return some (← e.compileWith e.cache name source)

/-- Text from a callable as a source: with a change to `delimiters` in front when the engine has
others. -/
def lambdaSource (e : Engine σ) (text : String) (delimiters : Option Delimiters) : String :=
  match delimiters with
  | some d => if d = e.delimiters then text else d.switchFrom e.delimiters ++ text
  | none => text

def loadLambda (e : Engine σ) (text : String) (delimiters : Option Delimiters) :
    EngineM σ Template :=
  e.compileWith (if e.config.cacheLambdaTemplates then e.cache else Cache.none) "lambda"
    (e.lambdaSource text delimiters)

/-! ### Helpers and housekeeping -/

def addHelper (name : String) (v : Value) : EngineM σ Unit :=
  modify fun s => { s with helpers := s.helpers.insert name v }

def helper (name : String) : EngineM σ Value := do
  match (← get).helpers.find? name with
  | some v => return v
  | none => throw (.unknownHelper name)

def removeHelper (name : String) : EngineM σ Value := do
  let v ← helper name
  modify fun s => { s with helpers := s.helpers.erase name }
  return v

/-- Forgets every compiled template, then empties the cache. -/
def clearCache (e : Engine σ) : EngineM σ Unit := do
  modify fun s => { s with registry := s.registry.clear }
  match ← onWorld e.cache.clear with
  | .ok () => return ()
  | .error err => throw err

end Engine

end Mustache
