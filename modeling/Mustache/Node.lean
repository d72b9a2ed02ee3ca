import Mustache.Error
import Mustache.Pragma
import Mustache.Token

/-!
The tree of a template. Tags that open and close become nodes with children, and a pragma tag
changes how every tag after it is read. Main function: `Node.ofTokens`, which builds the tree or
says which tag is at fault.
-/

namespace Mustache

inductive Node
  | text (text : String)
  | interpolation (name : String) (escape : Bool) (line : Nat)
  /-- A section and its body, which covers the bytes from `start` up to `stop` of the source. -/
  | sectionNode (name : String) (inverted : Bool) (children : List Node) (start stop : Nat)
      (delimiters : Delimiters) (line : Nat)
  /-- A partial; the name of a dynamic one is the path its name is looked up by. -/
  | partialNode (name : String) (dynamic : Bool) (indent : Option String) (line : Nat)
  /-- A parent tag with the blocks it overrides. -/
  | parent (name : String) (indent : Option String) (blocks : List Node) (line : Nat)
  /-- A block with its default text, or, in a parent tag, the text that replaces it. -/
  | block (name : String) (children : List Node) (indent : Option String) (line : Nat)
  | pragma (name : String) (line : Nat)
deriving Repr

namespace Node

/-- What is wrong with a sequence of tokens, and on which line. -/
structure Fault where
  defect : Malformed
  line : Nat
deriving DecidableEq, Repr

def Fault.toError (f : Fault) : Error := Error.ofDefect f.defect f.line

/-- What a token means where it stands. -/
inductive Reading
  /-- It leaves no node. -/
  | nothing
  | leaf (node : Node)
  /-- It opens a node, made of its name, its children and the end of its body. -/
  | opens (node : String → List Node → Nat → Node)
  | closes
  | enables
  /-- It has no place in a parent tag. -/
  | stray

/-- Reads a token under the pragmas `s`, directly in a parent tag or not. Without the pragmas
for them, blocks are interpolations, and parents and dynamic partials are partials. -/
def Reading.of (s : PragmaSet) (inParent : Bool) (t : Token) : Reading :=
  match t.kind with
  | .text => if inParent then nothing else leaf (text t.value)
  | .comment | .delimiters => nothing
  | .pragma => enables
  | .close => closes
  | .block =>
    if inParent || s.blocks then opens fun name children _ => block name children t.indent t.line
    else leaf (interpolation ("$" ++ t.value) true t.line)
  | .escaped => if inParent then stray else leaf (interpolation t.value true t.line)
  | .unescaped => if inParent then stray else leaf (interpolation t.value false t.line)
  | .sectionTag =>
    if inParent then stray
    else opens fun name children stop =>
      sectionNode name false children t.stop stop t.delimiters t.line
  | .inverted =>
    if inParent then stray
    else opens fun name children stop =>
      sectionNode name true children t.stop stop t.delimiters t.line
  | .partialTag => if inParent then stray else leaf (partialNode t.value false t.indent t.line)
  | .dynamicPartial =>
    if inParent then stray
    else if s.dynamicNames then leaf (partialNode t.value true t.indent t.line)
    else leaf (partialNode ("*" ++ t.value) false t.indent t.line)
  | .parent =>
    if inParent then stray
    else if s.blocks then opens fun name children _ => parent name t.indent children t.line
    else leaf (partialNode t.value false t.indent t.line)

/-- The name of a tag that opens and closes at once: under the pragma for it, the value without
a slash at its end. -/
def selfClosing? (s : PragmaSet) (t : Token) : Option String :=
  if s.selfClosing then
    match t.value.toList.reverse with
    | '/' :: r => some (String.ofList (Text.trimEnd r.reverse))
    | _ => none
  else none

/-- The nodes up to the tag that closes the tag `opened`, or up to the end if there is none. -/
structure Forest (ts : List Token) where
  nodes : List Node
  /-- The closing tag. -/
  close : Option Token
  /-- The pragmas in force behind it. -/
  pragmas : PragmaSet
  rest : List Token
  rest_le : rest.length ≤ ts.length

namespace Forest

def cons {t : Token} {ts : List Token} (n : Node) (f : Forest ts) : Forest (t :: ts) :=
  { f with nodes := n :: f.nodes, rest_le := Nat.le_succ_of_le f.rest_le }

def skip {t : Token} {ts : List Token} (f : Forest ts) : Forest (t :: ts) :=
  { f with rest_le := Nat.le_succ_of_le f.rest_le }

/-- An opened node in front of what follows its closing tag. -/
def graft {t : Token} {ts : List Token} (n : Node) (body : Forest ts) (f : Forest body.rest) :
    Forest (t :: ts) :=
  { f with
    nodes := n :: f.nodes
    rest_le := Nat.le_succ_of_le (Nat.le_trans f.rest_le body.rest_le) }

end Forest

/-- Builds nodes from tokens, under the pragmas `s`, until `opened` is closed. -/
def forest (opened : Option Token) (s : PragmaSet) (ts : List Token) :
    Except Fault (Forest ts) :=
  let inParent := opened.any fun o => o.kind = .parent
  match ts with
  | [] =>
    match opened with
    | some o => .error ⟨.missingClose o.value o.line, o.line⟩
    | none => .ok ⟨[], none, s, [], Nat.le_refl _⟩
  | t :: ts =>
    match Reading.of s inParent t with
    | .nothing => do return (← forest opened s ts).skip
    | .leaf n => do return (← forest opened s ts).cons n
    | .enables => do
      let f ← forest opened (s.enable t.value) ts
      return if inParent then f.skip else f.cons (pragma t.value t.line)
    | .closes =>
      match opened with
      | none => .error ⟨.unexpectedClose t.value t.line, t.line⟩
      | some o =>
        if o.value = t.value then .ok ⟨[], some t, s, ts, Nat.le_succ _⟩
        else .error ⟨.mismatchedClose o.value o.line t.value t.line, t.line⟩
    | .stray => .error ⟨.strayInParent t.value t.line, t.line⟩
    | .opens node =>
      match selfClosing? s t with
      | some name => do return (← forest opened s ts).cons (node name [] t.stop)
      | none => do
        let body ← forest (some t) s ts
        let f ← forest opened body.pragmas body.rest
        let stop := (body.close.map Token.start).getD t.stop
        return body.graft (node t.value body.nodes stop) f
termination_by ts.length
decreasing_by
  all_goals simp_wf
  have := body.rest_le
  omega

/-- The tree of a template whose engine has the pragmas `s` enabled. -/
def ofTokens (s : PragmaSet) (ts : List Token) : Except Error (List Node) :=
  match forest none s ts with
  | .ok f => .ok f.nodes
  | .error fault => .error fault.toError

end Node

end Mustache
