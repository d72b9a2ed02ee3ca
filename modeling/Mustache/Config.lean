import Mustache.Delimiters
import Mustache.Error
import Mustache.Escape
import Mustache.Pragma

/-!
The options of an engine, and which of them are acceptable.
-/

namespace Mustache

/-- Where parsed templates are kept beyond the life of an engine. -/
inductive CacheConfig
  | off
  /-- The most recently used ones, in memory. -/
  | memory (capacity : Nat)
  /-- Files in a directory, with a memory in front of them. -/
  | directory (path : String) (memoryCapacity : Nat)
deriving DecidableEq, Repr

def CacheConfig.defaultCapacity : Nat := 256

structure Config where
  /-- An escape of one's own, which counts before `quotes`. -/
  escape : Option Escape := none
  quotes : QuoteMode := .compat
  charset : String := "UTF-8"
  /-- Host objects are never called. -/
  strictCallables : Bool := true
  /-- A name that does not resolve is an error. -/
  strictVariables : Bool := false
  cache : CacheConfig := .off
  /-- Templates made by callables go into the cache too. -/
  cacheLambdaTemplates : Bool := false
  /-- Pragmas in force in every template. -/
  pragmas : List Pragma := []
  delimiters : String := Delimiters.standard.text
  /-- How deep partials, parents, overrides and callables may nest. -/
  maxDepth : Nat := 256

namespace Config

instance : Inhabited Config := ⟨{}⟩

/-- ASCII letters in lower case, everything else as it is. -/
def lowerAscii (s : String) : String := String.ofList (s.toList.map Char.toLower)

def charsetKey (c : Config) : String := lowerAscii c.charset

def isUtf8 (charset : String) : Bool := lowerAscii charset == "utf-8" || lowerAscii charset == "utf8"

/-- The delimiters that templates start with. -/
def initialDelimiters (c : Config) : Except Error Delimiters :=
  match Delimiters.parse? c.delimiters.toList with
  | some d => .ok d
  | none => .error (.config (.delimiters c.delimiters))

/-- Refuses what no engine can work with: another charset, a depth of zero, text that names no
two delimiters. -/
def validate (c : Config) : Except Error Unit := do
  if !isUtf8 c.charset then throw (.config (.charset c.charset))
  if c.maxDepth = 0 then throw (.config .maxDepth)
  let _ ← c.initialDelimiters

def escaper (c : Config) : Escape := c.escape.getD (.html c.quotes)

def pragmaSet (c : Config) : PragmaSet := PragmaSet.ofList c.pragmas

/-- Adds a pragma that is not there yet. -/
def addPragma (c : Config) (p : Pragma) : Config :=
  if p ∈ c.pragmas then c else { c with pragmas := c.pragmas ++ [p] }

end Config

end Mustache
