import Mustache.Proofs.Render.Restore

/-!
Sections over callables that have the body rendered and put the outcome between two texts. What
such a callable gives is a template once more: it is printed as it is only if the section's
opening delimiter is not in it. Main statements: `renderStep_wrapping`, and
`wrapped_data_rendered_again`, where a string of the data ends up as a tag.
-/

namespace Mustache.Render

variable {σ : Type} {e : Engine σ} {deeper : Renderer σ}

/-! ### Text as a template -/

/-- Renders a text as a template of its own, one level further down. -/
def asTemplate (e : Engine σ) (deeper : Renderer σ) (text : String) (d : Delimiters) :
    RenderM σ String := do
  let t ← onStore (e.loadLambda text (some d))
  entering e.config.maxDepth t.name (deeper t "" t.steps "")

theorem renderText_eq (text : String) (d : Delimiters) :
    renderText e deeper text (some d) =
      if Text.contains d.opening.toList text.toList then asTemplate e deeper text d
      else pure text := rfl

/-! ### Sections over callables -/

theorem renderStep_of_callable {name : Name} {strict : Bool} {id : Nat} {s s₁ : State σ}
    (h : sectionValue e deeper name strict s = .ok (.callable ⟨id, .unary⟩) s₁) (t : Template)
    (indent body : String) (d : Delimiters) (steps : List Step) (out : String) :
    renderStep e deeper t indent (.sectionStep name strict body d steps) out s =
      (do
        let result ← callUnary e deeper id (.string body) d
        return out ++ (← renderText e deeper result.display (some d))) s₁ := by
  rw [renderStep, ← bind_assoc]
  exact bind_of_ok _ h

/-- The course of a call that has `text` rendered and makes its result of the outcome. -/
def asks (text : String) (w : σ) (result : Except Error String → Except Error Value)
    (next : Except Error String → σ → σ) : Act σ :=
  .render text w fun r w => .done (result r) (next r w)

theorem callUnary_of_asks (deeper : Renderer σ) {id : Nat} {v : Value} {d : Delimiters} {s : State σ} {text : String}
    {w : σ} {result : Except Error String → Except Error Value}
    {next : Except Error String → σ → σ}
    (h : e.host.unary id v d s.store.world = asks text w result next) :
    callUnary e deeper id v d s =
      attempt w (renderText e deeper text (some d))
        (fun r w => callWorld fun _ => (result r, next r w)) s := by
  have hget : callUnary e deeper id v d s =
      runAct e deeper d (e.host.unary id v d s.store.world) s := rfl
  rw [hget, h, asks, runAct_render]
  simp only [runAct_done]

/-- What a callable gives that puts the outcome between two texts; a failure stays one. -/
def wrapped (before after : String) (r : Except Error String) : Except Error Value :=
  r.map fun text => .string (before ++ text ++ after)

/-- **A section over a callable that wraps the rendered body prints what it gave as a template**,
in the scopes, under the overrides and at the depth of the section: as it is without the opening
delimiter in it, and rendered once more with it. -/
theorem renderStep_wrapping {n : Nat} {name : Name} {strict : Bool} {id : Nat} {s s₁ : State σ}
    {body before after : String} {d : Delimiters} {w : σ} {next : Except Error String → σ → σ}
    (hvalue : sectionValue e (renderLevels e n) name strict s = .ok (.callable ⟨id, .unary⟩) s₁)
    (hcall : e.host.unary id (.string body) d s₁.store.world =
      asks body w (wrapped before after) next)
    (t : Template) (indent : String) (steps : List Step) (out : String) :
    (∀ text s₂, renderText e (renderLevels e n) body (some d) (setWorld w s₁) = .ok text s₂ →
      let printed := before ++ text ++ after
      let s₃ := setWorld (next (.ok text) s₂.store.world) s₂
      SamePlace s s₃ ∧
        renderStep e (renderLevels e n) t indent (.sectionStep name strict body d steps) out s =
          if Text.contains d.opening.toList printed.toList then
            ((out ++ ·) <$> asTemplate e (renderLevels e n) printed d) s₃
          else .ok (out ++ printed) s₃) ∧
    ∀ err s₂, renderText e (renderLevels e n) body (some d) (setWorld w s₁) = .error err s₂ →
      renderStep e (renderLevels e n) t indent (.sectionStep name strict body d steps) out s =
        .error err (setWorld (next (.error err) s₂.store.world) s₂) := by
  rw [renderStep_of_callable hvalue]
  have h := compositional_restores e
  have hcalled := callUnary_of_asks (renderLevels e n) hcall
  constructor
  · intro text s₂ hrender printed s₃
    have hresult : callUnary e (renderLevels e n) id (.string body) d s₁ =
        .ok (.string printed) s₃ := by
      rw [hcalled, attempt, hrender]
      rfl
    have hplace : SamePlace s s₃ := by
      have hto := restores_sectionValue (e := e) (h.renderLevels n) name strict s
      have hcall := h.callUnary (h.renderLevels n) id (.string body) d s₁
      rw [after_of_ok hvalue] at hto
      rw [after_of_ok hresult] at hcall
      exact hto.trans hcall
    refine ⟨hplace, ?_⟩
    rw [bind_of_ok _ hresult, Value.display, renderText_eq]
    split
    · rw [map_eq_pure_bind]
    · rfl
  · intro err s₂ hrender
    have hresult : callUnary e (renderLevels e n) id (.string body) d s₁ =
        .error err (setWorld (next (.error err) s₂.store.world) s₂) := by
      rw [hcalled, attempt, hrender]
      rfl
    exact bind_of_error _ hresult

/-! ### Data that look like tags -/

/-- An engine of default options without partials, all of whose callables wrap the rendered
text. -/
def wrappingEngine (before after : String) : Engine Unit where
  config := {}
  escape := .html .compat
  delimiters := Delimiters.standard
  pragmas := PragmaSet.empty
  loader := Loader.verbatim
  partials := Loader.table []
  cache := Cache.none
  host :=
    { nullary := fun _ w => (.ok .null, w)
      unary := fun _ v _ w => asks v.display w (wrapped before after) fun _ w => w }

/-- The state that a render over `data` starts in. -/
def startOver (data : Value) : State Unit :=
  ⟨⟨Registry.empty, [], ()⟩, Engine.startScopes [] data, [], 0⟩

/-- A section whose body prints `x`. -/
def sectionOfX (name : String) : Step :=
  .sectionStep ⟨name, []⟩ false "\x7b\x7bx\x7d\x7d" Delimiters.standard
    [.interpolation ⟨"x", []⟩ true false false]

def emptyTemplate : Template := ⟨"", "", "", .html .compat, true, []⟩

/-- The text of an outcome. -/
def text? : EStateM.Result Error (State σ) String → Option String
  | .ok text _ => some text
  | .error _ _ => none

theorem ok_of_text? {act : RenderM σ String} {s : State σ} {text : String}
    (h : text? (act s) = some text) : act s = .ok text (after act s) := by
  unfold after
  cases hs : act s with
  | ok a s' =>
    rw [hs, text?, Option.some.injEq] at h
    rw [h]
  | error err s' => simp [hs, text?] at h

/-- A single brace in the data is no tag. -/
theorem renderStep_wrapping_brace :
    let e := wrappingEngine "<" ">"
    let s := startOver (.map [("wrap", .callable ⟨0, .unary⟩), ("x", .string "a \x7b b")])
    sectionValue e (renderLevels e 2) ⟨"wrap", []⟩ false s = .ok (.callable ⟨0, .unary⟩) s ∧
      text? (renderText e (renderLevels e 2) "\x7b\x7bx\x7d\x7d" (some Delimiters.standard) s) =
        some "a \x7b b" ∧
      text? (renderStep e (renderLevels e 2) emptyTemplate "" (sectionOfX "wrap") "" s) =
        some "<a \x7b b>" := by
  intro e s
  have hvalue : sectionValue e (renderLevels e 2) ⟨"wrap", []⟩ false s =
      .ok (.callable ⟨0, .unary⟩) s := by
    rfl
  have hrender : text? (renderText e (renderLevels e 2) "\x7b\x7bx\x7d\x7d"
      (some Delimiters.standard) s) = some "a \x7b b" := by
    decide +kernel
  refine ⟨hvalue, hrender, ?_⟩
  unfold sectionOfX
  rw [((renderStep_wrapping hvalue rfl _ _ _ _).1 _ _ (ok_of_text? hrender)).2]
  decide +kernel

/-- Two texts without a delimiter around a string of the data that looks like a tag: the callable
is given the string, and the section prints what the tag stands for. -/
theorem wrapped_data_rendered_again :
    let e := wrappingEngine "<" ">"
    let s := startOver (.map [("secret", .string "S"), ("wrap", .callable ⟨0, .unary⟩),
      ("x", .string "\x7b\x7bsecret\x7d\x7d")])
    Text.contains Delimiters.standard.opening.toList "<".toList = false ∧
      Text.contains Delimiters.standard.opening.toList ">".toList = false ∧
      text? (renderText e (renderLevels e 2) "\x7b\x7bx\x7d\x7d" (some Delimiters.standard) s) =
        some "\x7b\x7bsecret\x7d\x7d" ∧
      text? (renderStep e (renderLevels e 2) emptyTemplate "" (sectionOfX "wrap") "" s) =
        some "<S>" ∧
      "<S>" ≠ "<" ++ "\x7b\x7bsecret\x7d\x7d" ++ ">" := by
  decide +kernel

end Mustache.Render
