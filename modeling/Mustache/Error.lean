import Mustache.Excerpt
import Mustache.Text.Space

/-!
Errors, by cause. A template that is not well formed is reported with its line, and gains the
template's name and an excerpt of the source on the way out; every other error is passed on as
it is.
-/

namespace Mustache

/-- What is wrong with a template that is not well formed. -/
inductive Malformed
  /-- A tag without its closing delimiter; `excerpt` is how the tag begins. -/
  | unclosedTag (excerpt : String)
  /-- A tag opened by three braces and closed by two. -/
  | unevenBraces (name : String)
  /-- A delimiter-change tag that does not name two delimiters. -/
  | badDelimiters (body : String)
  | unexpectedClose (name : String) (line : Nat)
  | mismatchedClose (opened : String) (openedOn : Nat) (closed : String) (closedOn : Nat)
  | missingClose (name : String) (line : Nat)
  /-- A tag in a parent tag that is not a block. -/
  | strayInParent (name : String) (line : Nat)
  /-- A parent node that holds something other than a block. -/
  | parentWithoutBlocks (name : String)
  /-- A defect reported in words. -/
  | reported (message : String)
deriving DecidableEq, Repr

def Malformed.message : Malformed → String
  | .unclosedTag excerpt => "Unclosed tag: " ++ excerpt
  | .unevenBraces name => "Mismatched tag delimiters: \x7b" ++ name
  | .badDelimiters body => "Invalid delimiter change: " ++ trimmed body
  | .unexpectedClose name line => s!"Unexpected closing tag: /{name} on line {line}"
  | .mismatchedClose opened openedOn closed closedOn =>
    s!"Nesting error: {opened} (on line {openedOn}) vs. {closed} (on line {closedOn})"
  | .missingClose name line => s!"Missing closing tag: {name} opened on line {line}"
  | .strayInParent name line => s!"Illegal content in < parent tag: {name} on line {line}"
  | .parentWithoutBlocks name => "Illegal content in < parent tag: " ++ name
  | .reported message => message

/-- Why an operation on files failed. -/
inductive FileError
  | notFound | alreadyExists | notDirectory | isDirectory | tooManyLinks | nameTooLong | notEmpty
  | nulInPath | notUtf8
deriving DecidableEq, Repr

def FileError.message : FileError → String
  | .notFound => "No such file or directory (os error 2)"
  | .alreadyExists => "File exists (os error 17)"
  | .notDirectory => "Not a directory (os error 20)"
  | .isDirectory => "Is a directory (os error 21)"
  | .nameTooLong => "File name too long (os error 36)"
  | .notEmpty => "Directory not empty (os error 39)"
  | .tooManyLinks => "Too many levels of symbolic links (os error 40)"
  | .nulInPath => "file name contained an unexpected NUL byte"
  | .notUtf8 => "stream did not contain valid UTF-8"

/-- What a cache failed to do. -/
inductive CacheFault
  | createDirectory (cause : FileError)
  | readFile (cause : FileError)
  | parseFile
  | writeFile (cause : FileError)
  | removeFile (cause : FileError)
  | readDirectory (cause : FileError)
  | clearFile (cause : FileError)
  /-- A failure reported in words. -/
  | reported (message : String)
deriving DecidableEq, Repr

def CacheFault.message : CacheFault → String
  | .createDirectory c => "Failed to create cache directory: " ++ c.message
  | .readFile c => "Failed to read cache file: " ++ c.message
  | .parseFile => "Failed to parse cache file: not an artifact"
  | .writeFile c => "Failed to write cache file: " ++ c.message
  | .removeFile c => "Failed to remove cache file: " ++ c.message
  | .readDirectory c => "Failed to read cache directory: " ++ c.message
  | .clearFile c => "Failed to remove file: " ++ c.message
  | .reported m => m

/-- An option whose value is of the right type and yet not acceptable. -/
inductive BadOption
  | charset (name : String)
  | maxDepth
  | delimiters (text : String)
  /-- An objection in words. -/
  | reported (message : String)
deriving DecidableEq, Repr

def BadOption.message : BadOption → String
  | .charset name => s!"unsupported charset {name}; only UTF-8 is supported"
  | .maxDepth => "max_depth must be at least 1"
  | .delimiters text => "invalid delimiters: " ++ text
  | .reported m => m

inductive Error
  | malformed (defect : Malformed) (line : Nat) (template : Option String)
      (excerpt : Option Excerpt)
  | unknownTemplate (name : String)
  | unknownFilter (name : String)
  | unknownHelper (name : String)
  | unknownVariable (name : String)
  /-- Entering `template` would have gone deeper than `limit`. -/
  | recursionLimit (limit : Nat) (template : String)
  | cache (fault : CacheFault)
  | config (fault : BadOption)
  | lambda (message : String)
  | io (cause : FileError)
  /-- Data that is not of the expected form. -/
  | json
deriving DecidableEq, Repr

namespace Error

/-- A defect at a line, with no more known about where. -/
def ofDefect (defect : Malformed) (line : Nat) : Error := malformed defect line none none

/-- The excerpt as a message ends with it: on a line of its own, or nothing. -/
def excerptText : Option Excerpt → String
  | some e => "\n" ++ e.snippet
  | none => ""

def message : Error → String
  | malformed defect line template excerpt =>
    let name := template.getD "template"
    s!"Syntax error in {name}: {defect.message} (line {line})" ++ excerptText excerpt
  | unknownTemplate name => "Unknown template: " ++ name
  | unknownFilter name => "Unknown filter: " ++ name
  | unknownHelper name => "Unknown helper: " ++ name
  | unknownVariable name => "Unknown variable: " ++ name
  | recursionLimit limit template =>
    s!"Recursion limit of {limit} exceeded while rendering {template}"
  | cache fault => "Cache error: " ++ fault.message
  | config fault => "Configuration error: " ++ fault.message
  | lambda message => "Lambda error: " ++ message
  | io cause => "IO error: " ++ cause.message
  | json => "JSON error: data of another form"

/-- Adds the template's name and an excerpt around the line where they are missing. -/
def inTemplate (name source : String) : Error → Error
  | malformed defect line template excerpt =>
    malformed defect line (some (template.getD name))
      (some (excerpt.getD (Excerpt.around source line 1)))
  | e => e

/-- Adds an excerpt at a byte offset where there is none. -/
def inSource (source : String) (offset : Nat) : Error → Error
  | malformed defect line template none =>
    malformed defect line template (some (Excerpt.atOffset source offset))
  | e => e

/-- The name asked for is not there, as opposed to there and out of reach. -/
def isUnknownTemplate : Error → Bool
  | unknownTemplate _ => true
  | _ => false

end Error

end Mustache
