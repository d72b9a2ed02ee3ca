import Mustache.Callable
import Mustache.Focus
import Mustache.Json
import Mustache.Text.Quoted

/-!
Ready-made callables: wrappers that render or do not render a section's text, filters, counters
and failures. They keep a log, in which each call of a callable with a tag is written down before
anything else happens.
-/

namespace Mustache.Stock

inductive Action
  /-- Gives a value, without an argument. -/
  | give (v : Value)
  /-- Fails, without an argument. -/
  | giveUp (message : String)
  /-- Counts its calls. -/
  | count
  | wrap (before after : String)
  /-- Wraps the argument's text once rendered. -/
  | render (before after : String)
  /-- Renders a text of its own. -/
  | renderText (text : String)
  | renderTwice
  /-- Renders the argument's text, and gives another if that fails. -/
  | renderOr (fallback : String)
  | delimiters
  /-- Describes what it was called with. -/
  | describe
  | fail (message : String)
  | const (v : Value)
  | identity
  | upper
  | lower
  | reverse
  | length
  | truthy
  | equals (v : Value)
  | orElse (v : Value)
  | get (name : String)
  | kind

def Action.arity : Action → Arity
  | give _ | giveUp _ | count => .nullary
  | _ => .unary

/-- A callable in stock, and how often it was called. -/
structure Item where
  action : Action
  tag : Option Json
  calls : Nat

/-- What is in stock, by number, and the log of tagged calls with the text of their argument, the
last call first. -/
structure State where
  items : List Item
  log : List (Json × Option String)

def State.empty : State := ⟨[], []⟩

namespace State

/-- Takes a callable into stock. -/
def add (s : State) (action : Action) (tag : Option Json) : Callable × State :=
  (⟨s.items.length, action.arity⟩, { s with items := s.items ++ [⟨action, tag, 0⟩] })

/-- Writes a call down. -/
def record (s : State) (id : Nat) (input : Option String) : State :=
  { items := s.items.modify id fun i => { i with calls := i.calls + 1 }
    log := match s.items[id]?.bind Item.tag with
      | some tag => (tag, input) :: s.log
      | none => s.log }

end State

/-- A call of no arguments, the `n`th of its kind. -/
def Action.runNullary (n : Nat) : Action → Except Error Value
  | give v => .ok v
  | giveUp message => .error (.lambda message)
  | count => .ok (.int n)
  | _ => .ok .null

/-- How a pair of delimiters describes itself. -/
def describeDelimiters (d : Delimiters) : String :=
  let pair := "Delimiters \x7b open: " ++ Text.quoted d.opening ++ ", close: " ++
    Text.quoted d.closing ++ " \x7d"
  "LambdaHelper \x7b delimiters: " ++ pair ++ ", .. \x7d"

/-- What an action that renders nothing makes of its argument. -/
def Action.value (d : Delimiters) (v : Value) : Action → Except Error Value
  | wrap before after => .ok (.string (before ++ v.display ++ after))
  | delimiters => .ok (.string d.text)
  | describe => .ok (.string (describeDelimiters d))
  | fail message => .error (.lambda message)
  | const c => .ok c
  | identity => .ok v
  | upper => .ok (.string (String.ofList (v.display.toList.map Char.toUpper)))
  | lower => .ok (.string (String.ofList (v.display.toList.map Char.toLower)))
  | reverse =>
    match v with
    | .list items => .ok (.list items.reverse)
    | v => .ok (.string (String.ofList v.display.toList.reverse))
  | length =>
    match v with
    | .list items => .ok (.int items.length)
    | v => .ok (.int v.display.length)
  | truthy => .ok (.bool v.truthy)
  | equals c => .ok (.bool (v.equals c))
  | orElse c => .ok (if v.truthy then v else c)
  | get name => .ok ((v.get? name).getD .null)
  | kind => .ok (.string v.kindName)
  | _ => .ok .null

/-- Asks for a text and finishes with what `result` makes of the outcome. -/
def askFor (text : String) (result : Except Error String → Except Error String) (w : σ) : Act σ :=
  .render text w fun out w => .done ((result out).map .string) w

def Action.runUnary (d : Delimiters) (v : Value) (w : σ) : Action → Act σ
  | render before after => askFor v.display (fun out => out.map fun s => before ++ s ++ after) w
  | renderText text => askFor text id w
  | renderTwice =>
    .render v.display w fun
      | .ok first, w => askFor v.display (fun out => out.map fun s => first ++ s) w
      | .error e, w => .done (.error e) w
  | renderOr fallback => askFor v.display (fun out => .ok (out.toOption.getD fallback)) w
  | action => .done (action.value d v) w

/-- The callables in stock as part of a world. -/
def host (f : Focus σ State) : Host σ where
  nullary id w :=
    let s := (f.get w).record id none
    let result := match s.items[id]? with
      | some i => i.action.runNullary i.calls
      | none => .ok .null
    (result, f.set s w)
  unary id v d w :=
    let s := (f.get w).record id (some v.display)
    let w := f.set s w
    match s.items[id]? with
    | some i => i.action.runUnary d v w
    | none => .done (.ok .null) w

end Mustache.Stock
