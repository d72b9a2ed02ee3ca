import Mustache.Error

/-!
Failures of commands: a chain of causes, from what a command was about to do down to what stopped
it.
-/

namespace Mustache

inductive Cause
  | error (e : Error)
  | file (e : FileError)
  /-- A text that is not TOML, or TOML of another form than expected. -/
  | toml
  /-- A text that is not JSON. -/
  | json
  /-- What was being done, or an objection in words. -/
  | words (text : String)
deriving DecidableEq, Repr

def Cause.message : Cause → String
  | .error e => e.message
  | .file e => e.message
  | .toml => "not TOML of the expected form"
  | .json => "not JSON"
  | .words text => text

/-- The causes from the outermost one to the root. -/
structure Failure where
  causes : List Cause
deriving DecidableEq, Repr

namespace Failure

def ofCause (c : Cause) : Failure := ⟨[c]⟩

/-- An error, and below it the failure of the file system if that is what it is. -/
def ofError (e : Error) : Failure :=
  match e with
  | .io cause => ⟨[.error e, .file cause]⟩
  | e => ⟨[.error e]⟩

def inContext (text : String) (f : Failure) : Failure := ⟨.words text :: f.causes⟩

/-- Lines with the indent in front of all but the first. -/
def hang (indent : String) (text : String) : String := ("\n" ++ indent).intercalate (text.splitOn "\n")

/-- The number of a cause below the outermost one. -/
def label (n : Nat) : String :=
  let digits := toString n
  String.ofList (List.replicate (5 - digits.length) ' ') ++ digits ++ ": "

/-- The causes below the outermost one, each on a line of its own; numbered from zero if there
are several. -/
def causeLines : List Cause → List String
  | [c] => ["    " ++ hang "    " c.message]
  | cs => cs.zipIdx.map fun (c, n) => label n ++ hang "       " c.message

/-- The report a command ends with. -/
def report (f : Failure) : String :=
  match f.causes with
  | [] => "Error: "
  | [c] => "Error: " ++ c.message
  | c :: cs => "Error: " ++ c.message ++ "\n\nCaused by:\n" ++ "\n".intercalate (causeLines cs)

end Failure

end Mustache
