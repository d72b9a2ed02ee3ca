import Mustache.Escape
import Mustache.Node
import Mustache.Text.Line

/-!
Compiled templates: lists of steps, with everything settled that does not hang on data. That is
which pragmas hold at each tag, the filters of each name, the literal body of every section, and
which pieces of output begin a line and so get the indent of a standalone partial around them.
-/

namespace Mustache

/-- The name in a tag: a path into the data, and the filters its value goes through. -/
structure Name where
  path : String
  filters : List String
deriving DecidableEq, Repr

/-- Without the pragma for filters the whole text is the path. -/
def Name.parse (filters : Bool) (text : String) : Name :=
  if filters then
    match text.toList.splitOn '|' with
    | path :: f :: fs =>
      ⟨String.ofList (Text.trim path), (f :: fs).map fun g => String.ofList (Text.trim g)⟩
    | _ => ⟨text, []⟩
  else ⟨text, []⟩

/-- Where a partial's name comes from. -/
inductive PartialName
  | fixed (name : String)
  | dynamic (path : String)
deriving DecidableEq, Repr

/-- The text that replaces a block, declared in a parent tag. It is `dedent`ed, that is, loses
its own indent, when its opening tag stands alone. -/
structure Override (α : Type) where
  name : String
  dedent : Bool
  steps : List α

inductive Step
  | text (text : String) (lineStart : Bool)
  | interpolation (name : Name) (escape strict lineStart : Bool)
  | sectionStep (name : Name) (strict : Bool) (body : String) (delimiters : Delimiters)
      (steps : List Step)
  | inverted (name : Name) (steps : List Step)
  | partialStep (name : PartialName) (indent : Option String)
  | parent (name : String) (indent : Option String) (overrides : List (Override Step))
  /-- A block; `indent` is what the lines of an override are moved to when its tag stands
  alone. -/
  | block (name : String) (indent : Option String) (steps : List Step)

/-- What a template is compiled under. -/
structure CompileOptions where
  escape : Escape
  /-- Host objects are not called. -/
  strictCallables : Bool
  strictVariables : Bool
  pragmas : PragmaSet
  key : String

structure Template where
  name : String
  key : String
  source : String
  escape : Escape
  strictCallables : Bool
  steps : List Step

namespace Template

/-- What changes along the nodes of a template: the pragmas in force, and whether the next piece
of output begins a line. -/
structure Walk where
  pragmas : PragmaSet
  lineStart : Bool

abbrev Compile := StateT Walk (Except Node.Fault)

/-- Whether this piece of output begins a line; the next one then does not. -/
def takeLineStart : Compile Bool :=
  modifyGet fun w => (w.lineStart, { w with lineStart := false })

def endsInNewline (s : String) : Bool := s.toList.getLast? == some '\n'

/-- The indent of a standalone block: that of its default text, or of the tag when there is
none. -/
def blockIndent (children : List Node) (tag : String) : String :=
  match children with
  | .text t :: _ => String.ofList (Text.leadingBlanks t.toList)
  | _ => tag

/-- The text of a body, or nothing when the offsets do not fit the source. -/
def bodyText (source : List Char) (start stop : Nat) : String :=
  String.ofList ((Text.sliceBytes? start stop source).getD [])

section

variable (source : List Char) (strictVariables : Bool)

mutual

/-- The steps of a node. A pragma has none. -/
def compileNode : Node → Compile (List Step)
  | .text t => do
    let lineStart ← takeLineStart
    modify fun w => { w with lineStart := endsInNewline t }
    return [.text t lineStart]
  | .interpolation name escape _ => do
    let w ← get
    let lineStart ← takeLineStart
    return [.interpolation (Name.parse w.pragmas.filters name) escape
      (strictVariables || w.pragmas.strictVariables) lineStart]
  | .sectionNode name false children start stop delimiters _ => do
    let w ← get
    let steps ← compileNodes children
    return [.sectionStep (Name.parse w.pragmas.filters name)
      (strictVariables || w.pragmas.strictVariables) (bodyText source start stop) delimiters steps]
  | .sectionNode name true children _ _ _ _ => do
    let w ← get
    let steps ← compileNodes children
    return [.inverted (Name.parse w.pragmas.filters name) steps]
  | .partialNode name dynamic indent _ =>
    return [.partialStep (if dynamic then .dynamic name else .fixed name) indent]
  | .parent name indent blocks line => do
    let overrides ← compileOverrides name line blocks
    return [.parent name indent overrides]
  | .block name children indent _ => do
    let steps ← compileNodes children
    return [.block name (indent.map (blockIndent children)) steps]
  | .pragma name _ => do
    modify fun w => { w with pragmas := w.pragmas.enable name }
    return []

def compileNodes : List Node → Compile (List Step)
  | [] => return []
  | n :: ns => do
    let steps ← compileNode n
    return steps ++ (← compileNodes ns)

/-- The overrides in a parent tag, all of whose children have to be blocks. -/
def compileOverrides (parent : String) (line : Nat) : List Node → Compile (List (Override Step))
  | [] => return []
  | .block name children indent _ :: ns => do
    let steps ← compileNodes children
    return ⟨name, indent.isSome, steps⟩ :: (← compileOverrides parent line ns)
  | _ :: _ => throw ⟨.parentWithoutBlocks parent, line⟩

end

end

/-- Compiles the tree of a source. The output of a template begins a line. -/
def compile (options : CompileOptions) (name source : String) (tree : List Node) :
    Except Error Template :=
  match (compileNodes source.toList options.strictVariables tree).run ⟨options.pragmas, true⟩ with
  | .ok (steps, _) =>
    .ok { name, key := options.key, source, escape := options.escape,
          strictCallables := options.strictCallables, steps }
  | .error f => .error f.toError

end Template

end Mustache
