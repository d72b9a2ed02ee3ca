import Mustache.Config
import Mustache.Json.Record

/-!
Options as JSON. Every option may be missing and then has its default; names that are not known
are passed over.
-/

namespace Mustache

namespace CacheConfig

/-- A capacity, or the default. -/
def capacity? : Option Json → Option Nat :=
  Json.withDefault defaultCapacity Json.toNat?

/-- A cache of some kind, from the fields that its kind has. -/
def ofKind? (kind : String) (fields? : List String → Nat → Option (List (Option Json))) :
    Option CacheConfig :=
  match kind with
  | "none" => (fields? [] 0).map fun _ => .off
  | "memory" => do
    match ← fields? ["capacity"] 0 with
    | [capacity] => return .memory (← capacity? capacity)
    | _ => none
  | "directory" => do
    match ← fields? ["path", "memory_capacity"] 1 with
    | [some path, capacity] => return .directory (← path.toString?) (← capacity? capacity)
    | _ => none
  | _ => none

/-- The kind stands among the fields under a name of its own, or in front of them in a list. -/
def ofJson? : Json → Option CacheConfig
  | .object entries => do
    let kind ← (← (← Json.single? "kind" entries)).toString?
    ofKind? kind fun names _ => Json.byName? names entries
  | .array (kind :: items) => do
    ofKind? (← kind.toString?) fun names least => Json.byPosition? names least items
  | _ => none

def toJson : CacheConfig → Json
  | off => .object [("kind", .string "none")]
  | memory capacity => .object [("kind", .string "memory"), ("capacity", .nat capacity)]
  | directory path capacity =>
    .object [("kind", .string "directory"), ("path", .string path),
      ("memory_capacity", .nat capacity)]

end CacheConfig

namespace Config

/-- The options in their order. -/
def fieldNames : List String :=
  ["entity_flags", "charset", "strict_callables", "strict_variables", "cache",
    "cache_lambda_templates", "pragmas", "delimiters", "max_depth"]

def pragmas? (style : Json.Style) : Json → Option (List Pragma)
  | .array items => items.mapM fun j => (j.toChoice? style).bind Pragma.ofName?
  | _ => none

def quotes? (style : Json.Style) (j : Json) : Option QuoteMode :=
  (j.toChoice? style).bind QuoteMode.ofName?

def ofJson? (style : Json.Style) (j : Json) : Option Config := do
  let d : Config := {}
  match ← j.fields? style fieldNames 0 with
  | [quotes, charset, calls, names, cache, lambdas, pragmas, delimiters, depth] =>
    return {
      quotes := ← Json.withDefault d.quotes (quotes? style) quotes
      charset := ← Json.withDefault d.charset Json.toString? charset
      strictCallables := ← Json.withDefault d.strictCallables Json.toBool? calls
      strictVariables := ← Json.withDefault d.strictVariables Json.toBool? names
      cache := ← Json.withDefault d.cache CacheConfig.ofJson? cache
      cacheLambdaTemplates := ← Json.withDefault d.cacheLambdaTemplates Json.toBool? lambdas
      pragmas := ← Json.withDefault d.pragmas (pragmas? style) pragmas
      delimiters := ← Json.withDefault d.delimiters Json.toString? delimiters
      maxDepth := ← Json.withDefault d.maxDepth Json.toNat? depth }
  | _ => none

/-- The options, an escape of one's own aside. -/
def toJson (c : Config) : Json :=
  .object
    [("entity_flags", .string c.quotes.name), ("charset", .string c.charset),
      ("strict_callables", .bool c.strictCallables), ("strict_variables", .bool c.strictVariables),
      ("cache", c.cache.toJson), ("cache_lambda_templates", .bool c.cacheLambdaTemplates),
      ("pragmas", .array (c.pragmas.map fun p => .string p.name)),
      ("delimiters", .string c.delimiters), ("max_depth", .nat c.maxDepth)]

end Config

end Mustache
