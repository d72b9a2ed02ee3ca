import Mustache.Engine
import Mustache.Reindent
import Mustache.Scopes

/-!
Rendering. The steps of a template are carried out one by one on an output that only grows, in a
state that holds the scopes, the overrides of the parent tags being expanded and the depth of
nesting. Partials, parents, overrides and texts from callables are entered one level further
down, and no level is entered beyond the engine's limit.
-/

namespace Mustache

namespace Render

/-- The state of a render: the engine's store, the scopes and the overrides in force, both
innermost first, and how many levels have been entered. -/
structure State (σ : Type) where
  store : Engine.Store σ
  scopes : Scopes
  overrides : List (List (Override Step))
  depth : Nat

/-- A part of a render. -/
abbrev RenderM (σ : Type) := EStateM Error (State σ)

variable {σ : Type}

/-! ### Changes to the state that are taken back -/

/-- Runs `act` between two changes to the state, the second one also after a failure. -/
def between (before after : State σ → State σ) (act : RenderM σ α) : RenderM σ α := fun s =>
  match act (before s) with
  | .ok a s => .ok a (after s)
  | .error e s => .error e (after s)

/-- Runs `act` with one more scope. -/
def inScope (v : Value) (act : RenderM σ α) : RenderM σ α :=
  between (fun s => { s with scopes := v :: s.scopes })
    (fun s => { s with scopes := s.scopes.tail }) act

/-- Runs `act` with the overrides of one more parent tag. -/
def withOverrides (os : List (Override Step)) (act : RenderM σ α) : RenderM σ α :=
  between (fun s => { s with overrides := os :: s.overrides })
    (fun s => { s with overrides := s.overrides.tail }) act

/-- Runs `act` one level further down, unless that is below the limit. -/
def entering (limit : Nat) (name : String) (act : RenderM σ α) : RenderM σ α := do
  if (← get).depth < limit then
    between (fun s => { s with depth := s.depth + 1 }) (fun s => { s with depth := s.depth - 1 }) act
  else throw (.recursionLimit limit name)

/-! ### Parts -/

/-- An operation of the engine. -/
def onStore (op : Engine.EngineM σ α) : RenderM σ α := fun s =>
  match op s.store with
  | .ok a store => .ok a { s with store }
  | .error e store => .error e { s with store }

def setWorld (w : σ) (s : State σ) : State σ := { s with store := { s.store with world := w } }

/-- The value of a name in the scopes. -/
def resolve (name : String) (strict : Bool) : RenderM σ Value := do
  match (← get).scopes.resolve name strict with
  | .ok v => return v
  | .error e => throw e

/-- Renders the steps of a template, with an indent for each line that begins, onto an output. -/
abbrev Renderer (σ : Type) := Template → (indent : String) → List Step → (out : String) →
  RenderM σ String

section

variable (e : Engine σ) (deeper : Renderer σ)

/-- Renders the text a callable gave as a template of its own. Text without the opening delimiter
is what it is. -/
def renderText (text : String) (delimiters : Option Delimiters) : RenderM σ String := do
  let opening := (delimiters.getD e.delimiters).opening
  if Text.contains opening.toList text.toList then
    let t ← onStore (e.loadLambda text delimiters)
    entering e.config.maxDepth t.name (deeper t "" t.steps "")
  else return text

/-- Calls a callable of no arguments. -/
def callNullary (id : Nat) : RenderM σ Value := fun s =>
  match e.host.nullary id s.store.world with
  | (.ok v, w) => .ok v (setWorld w s)
  | (.error err, w) => .error err (setWorld w s)

/-- Carries out a call with an argument, rendering what it asks for. -/
def runAct (delimiters : Delimiters) : Act σ → RenderM σ Value
  | .done (.ok v) w => fun s => .ok v (setWorld w s)
  | .done (.error err) w => fun s => .error err (setWorld w s)
  | .render text w next => fun s =>
    match renderText e deeper text (some delimiters) (setWorld w s) with
    | .ok out s => runAct delimiters (next (.ok out) s.store.world) s
    | .error err s => runAct delimiters (next (.error err) s.store.world) s

def callUnary (id : Nat) (v : Value) (delimiters : Delimiters) : RenderM σ Value := do
  runAct e deeper delimiters (e.host.unary id v delimiters (← get).store.world)

/-- Sends a value through the filter of a name. -/
def applyFilter (v : Value) (name : String) : RenderM σ Value := do
  match ← resolve name false with
  | .callable ⟨id, .unary⟩ => callUnary e deeper id v e.delimiters
  | .callable ⟨id, .nullary⟩ => callNullary e id
  | _ => throw (.unknownFilter name)

def applyFilters (filters : List String) (v : Value) : RenderM σ Value :=
  filters.foldlM (applyFilter e deeper) v

/-- What calling a value gives where an interpolation stands: callables of no arguments are
called, and so are host objects unless callables are strict. -/
def called (strictCallables : Bool) : Value → RenderM σ (Option Value)
  | .callable ⟨id, .nullary⟩ => some <$> callNullary e id
  | .object _ _ _ _ result _ => return if strictCallables then none else result
  | _ => return none

/-- The text of an interpolation. What a call gave is rendered before filters see it. -/
def interpolate (t : Template) (name : Name) (strict : Bool) : RenderM σ String := do
  let v ← resolve name.path strict
  let v ← match ← called e t.strictCallables v with
    | some result => Value.string <$> renderText e deeper result.display none
    | none => pure v
  return (← applyFilters e deeper name.filters v).display

/-- The scopes that a section over a value renders its body in, one after the other: the items of
a list, any other truthy value itself. A host object stands for what calling it gives unless
callables are strict. -/
def sectionScopes (strictCallables : Bool) (v : Value) : List Value :=
  let v := match v with
    | .object _ _ _ _ (some result) _ => if strictCallables then v else result
    | _ => v
  match v with
  | .list items => items
  | v => if v.truthy then [v] else []

/-- The indent of a partial: that of its tag behind the one around it. A tag within a line starts
afresh. -/
def innerIndent (own : Option String) (indent : String) : String :=
  match own with
  | some own => indent ++ own
  | none => ""

/-- The override of a block from the outermost parent tag that has one; in one tag the first
counts. -/
def findOverride? (frames : List (List (Override Step))) (name : String) :
    Option (Override Step) :=
  frames.reverse.findSome? fun os => os.find? fun o => o.name == name

/-- Puts the text of an override where a block stands. A standalone block gives its lines the
block's indent and ends them with a newline. -/
def placeOverride (site : Option String) (dedent : Bool) (indent body out : String) : String :=
  let body := body.toList
  let strip := if dedent then Text.leadingBlanks body else []
  match site with
  | some site =>
    let out := out ++ String.ofList (Reindent.move strip (indent ++ site).toList true body)
    if body.isEmpty ∨ Template.endsInNewline out then out else out ++ "\n"
  | none => out ++ String.ofList (Reindent.move strip indent.toList false body)

/-- Renders the override of a block. Its text is moved as a whole unless neither the block nor the
override stands alone. -/
def renderOverride (t : Template) (indent : String) (site : Option String) (o : Override Step)
    (out : String) : RenderM σ String :=
  if site.isNone ∧ !o.dedent then
    entering e.config.maxDepth o.name (deeper t indent o.steps out)
  else do
    let body ← entering e.config.maxDepth o.name (deeper t "" o.steps "")
    return placeOverride site o.dedent indent body out

/-- The name of a partial, looked up if it is dynamic. -/
def partialName : PartialName → RenderM σ String
  | .fixed name => return name
  | .dynamic path => return (← resolve path false).display

/-! ### Steps -/

mutual

def renderStep (t : Template) (indent : String) : Step → String → RenderM σ String
  | .text text lineStart, out =>
    return out ++ (if lineStart then indent else "") ++ text
  | .interpolation name escape strict lineStart, out => do
    let text ← interpolate e deeper t name strict
    return out ++ (if lineStart then indent else "") ++
      (if escape then t.escape.apply text else text)
  | .sectionStep name strict body delimiters steps, out => do
    let v ← resolve name.path strict
    match ← applyFilters e deeper name.filters v with
    | .callable ⟨id, .unary⟩ => do
      let result ← callUnary e deeper id (.string body) delimiters
      return out ++ (← renderText e deeper result.display (some delimiters))
    | .callable ⟨id, .nullary⟩ => do
      let result ← callNullary e id
      return out ++ (← renderText e deeper result.display (some delimiters))
    | v =>
      (sectionScopes t.strictCallables v).foldlM
        (fun out scope => inScope scope (renderSteps t indent steps out)) out
  | .inverted name steps, out => do
    let v ← resolve name.path false
    let v ← applyFilters e deeper name.filters v
    if v.truthy then return out else renderSteps t indent steps out
  | .partialStep name own, out => do
    let name ← partialName name
    match ← onStore (e.loadPartial name) with
    | none => return out
    | some p => entering e.config.maxDepth name (deeper p (innerIndent own indent) p.steps out)
  | .parent name own overrides, out => do
    match ← onStore (e.loadPartial name) with
    | none => return out
    | some p =>
      entering e.config.maxDepth name
        (withOverrides overrides (deeper p (innerIndent own indent) p.steps out))
  | .block name site steps, out => do
    match findOverride? (← get).overrides name with
    | none => renderSteps t indent steps out
    | some o => renderOverride e deeper t indent site o out

def renderSteps (t : Template) (indent : String) : List Step → String → RenderM σ String
  | [], out => return out
  | s :: ss, out => do renderSteps t indent ss (← renderStep t indent s out)

end

end

/-- Renders with at most `levels` levels further down. Levels run out only where the limit on
depth has been reached before. -/
def renderLevels (e : Engine σ) : (levels : Nat) → Renderer σ
  | 0, t, _, _, _ => throw (.recursionLimit e.config.maxDepth t.name)
  | n + 1, t, indent, steps, out => renderSteps e (renderLevels e n) t indent steps out

end Render

namespace Engine

/-- The scopes a render starts with: the helpers outermost, if there are any, then the data unless
they are null. -/
def startScopes (helpers : Table Value) (data : Value) : Scopes :=
  let outer := if helpers.isEmpty then [] else [Value.map helpers]
  match data with
  | .null => outer
  | _ => data :: outer

/-- Renders a compiled template. -/
def renderTemplate (e : Engine σ) (t : Template) (data : Value) : EngineM σ String := fun s =>
  let start : Render.State σ := ⟨s, startScopes s.helpers data, [], 0⟩
  match Render.renderLevels e (e.config.maxDepth + 1) t "" t.steps "" start with
  | .ok out r => .ok out r.store
  | .error err r => .error err r.store

/-- Loads, compiles and renders the template of a name. -/
def render (e : Engine σ) (name : String) (data : Value) : EngineM σ String := do
  e.renderTemplate (← e.loadTemplate name) data

end Engine

end Mustache
