import Mustache.Command

/-!
The command line. Options stand before or after the words of a command, in a long form with two
hyphens or a short form with one; those that hold for every command may also stand in front of it.
The first argument that makes no sense, or asks for help, ends the reading.
-/

namespace Mustache

inductive Flag
  | settings | logLevel | data | partials | output | asJson | help | version
deriving DecidableEq, Repr

namespace Flag

def longName : Flag → String
  | settings => "config"
  | logLevel => "log-level"
  | data => "data"
  | partials => "partials"
  | output => "output"
  | asJson => "json"
  | help => "help"
  | version => "version"

def letter? : Flag → Option Char
  | settings => some 'c'
  | data => some 'd'
  | partials => some 'p'
  | output => some 'o'
  | help => some 'h'
  | version => some 'V'
  | logLevel | asJson => none

def takesValue : Flag → Bool
  | asJson | help | version => false
  | _ => true

/-- A value that is a path has at least one character. -/
def accepts (f : Flag) (value : String) : Bool := f = logLevel || value != ""

end Flag

/-- What asking for help or a mistake ends the reading with. -/
inductive Halt
  | help
  | version
  | misuse
deriving DecidableEq, Repr

/-- The arguments of a command so far, the last word first. -/
structure Arguments where
  values : List (Flag × String)
  words : List String

namespace Arguments

/-- What a command takes: its options, and how many words at most. -/
structure Shape where
  flags : List Flag
  maxWords : Option Nat

def empty : Arguments := ⟨[], []⟩

def value? (a : Arguments) (f : Flag) : Option String := a.values.lookup f

def has (a : Arguments) (f : Flag) : Bool := (a.value? f).isSome

/-- Gives an option its value, the only one. -/
def give (a : Arguments) (f : Flag) (value : String) : Except Halt Arguments :=
  if f.accepts value ∧ !a.has f then .ok { a with values := (f, value) :: a.values }
  else .error .misuse

/-- One more word, if there may be one. No word is empty. -/
def word (a : Arguments) (shape : Shape) (w : String) : Except Halt Arguments :=
  if w = "" ∨ shape.maxWords.any (· ≤ a.words.length) then .error .misuse
  else .ok { a with words := w :: a.words }

/-- An option without a value. -/
def turnOn (a : Arguments) (f : Flag) : Except Halt Arguments :=
  match f with
  | .help => .error .help
  | .version => .error .version
  | f => a.give f f.longName

/-- An argument as it looks. -/
inductive Look
  /-- Two hyphens alone, behind which there are words only. -/
  | separator
  /-- The long form of an option, with what stands behind an equals sign. -/
  | long (name : String) (value : Option String)
  /-- The short form of an option, with what stands behind its letter. -/
  | short (letter : Char) (value : Option String)
  | word

/-- The part behind an equals sign, if there is one. -/
def afterEquals : List Char → Option String
  | '=' :: cs => some (String.ofList cs)
  | _ => none

def look (arg : String) : Look :=
  match arg.toList with
  | ['-', '-'] => .separator
  | '-' :: '-' :: cs =>
    .long (String.ofList (cs.takeWhile (· != '='))) (afterEquals (cs.dropWhile (· != '=')))
  | ['-', c] => .short c none
  | '-' :: c :: cs => .short c (some ((afterEquals cs).getD (String.ofList cs)))
  | _ => .word

/-- The option an argument names, and the value that stands in the same argument. -/
def flag? (shape : Shape) : Look → Option (Flag × Option String)
  | .long name value => (shape.flags.find? fun f => f.longName = name).map fun f => (f, value)
  | .short c value => (shape.flags.find? fun f => f.letter? = some c).map fun f => (f, value)
  | _ => none

def isWord (arg : String) : Bool :=
  match look arg with
  | .word => true
  | _ => false

/-- Reads arguments up to the end, or up to the first word if `stop` says so, and gives what
follows from that word on. -/
def read (shape : Shape) (stop : Bool) (a : Arguments) :
    List String → Except Halt (Arguments × List String)
  | [] => .ok (a, [])
  | arg :: rest =>
    match look arg with
    | .word => do
      if stop then return (a, arg :: rest)
      read shape stop (← a.word shape arg) rest
    | .separator => do return (← rest.foldlM (fun a w => a.word shape w) a, [])
    | l =>
      match flag? shape l with
      | none => .error .misuse
      | some (f, value) =>
        if f.takesValue then
          match value, rest with
          | some v, rest => do read shape stop (← a.give f v) rest
          | none, v :: rest => do
            if isWord v then read shape stop (← a.give f v) rest else throw .misuse
          | none, [] => .error .misuse
        else
          match l, value with
          | .long _ (some _), _ => .error .misuse
          | _, _ => do read shape stop (← a.turnOn f) rest

end Arguments

/-- A command with the file its project's settings are in. -/
structure Invocation where
  settings : Option String
  command : Command
deriving DecidableEq, Repr

namespace Invocation

open Arguments

/-- What may stand in front of the name of a command. Nothing but a command's name is a word
there. -/
def common : Shape := ⟨[.settings, .logLevel, .help, .version], some 0⟩

def shape? : (name : String) → Option Shape
  | "render" => some ⟨[.settings, .logLevel, .help, .data, .partials, .output], some 1⟩
  | "check" => some ⟨[.settings, .logLevel, .help], none⟩
  | "tokens" => some ⟨[.settings, .logLevel, .help, .asJson], some 1⟩
  | _ => none

/-- The command of a name and its arguments, which hold at least one word. -/
def command? (name : String) (a : Arguments) : Option Command :=
  match name, a.words.reverse with
  | "check", w :: ws => some (.check (w :: ws))
  | "render", [w] =>
    some (.render ⟨w, a.value? .data, a.value? .partials, a.value? .output⟩)
  | "tokens", [w] => some (.tokens w (a.has .asJson))
  | _, _ => none

/-- Help is there on the program, on itself and on each command. -/
def helpOn : List String → Halt
  | [] => .help
  | [name] => if name = "help" ∨ (shape? name).isSome then .help else .misuse
  | _ => .misuse

/-- Reads a command line. An option for all commands counts from behind the command's name rather
than from in front of it. -/
def read (args : List String) : Except Halt Invocation := do
  let (front, rest) ← Arguments.read common true Arguments.empty args
  match rest with
  | [] => throw .misuse
  | "help" :: names => throw (helpOn names)
  | name :: rest =>
    match shape? name with
    | none => throw .misuse
    | some shape =>
      let (a, _) ← Arguments.read shape false Arguments.empty rest
      match command? name a with
      | none => throw .misuse
      | some command => return ⟨(a.value? .settings).or (front.value? .settings), command⟩

end Invocation

end Mustache
