import Mustache.Proofs.Render.Places
import Mustache.Proofs.Render.Wrapping

/-!
A section and the inverted section behind it over one name. The first decides by what the value
stands for, which for a host object that may be called is what calling it gives; the second decides
by the value itself. Where the two are equally truthy one body is rendered and the other is not.
Main statements: `section_or_inverse`, and `neither_section_nor_inverse`, where they are not.
-/

namespace Mustache

/-- What a section takes a value for: a host object stands for what calling it gives, if that is
anything, unless callables are strict. -/
def Value.standsFor (strictCallables : Bool) : Value → Value
  | .object id method field key (some result) truthy =>
    if strictCallables then .object id method field key (some result) truthy else result
  | v => v

namespace Render

variable {σ : Type}

/-! ### Truth -/

/-- A section renders its body in some scope just if what its value stands for is truthy. -/
theorem sectionScopes_eq_nil_iff (strict : Bool) (v : Value) :
    sectionScopes strict v = [] ↔ (v.standsFor strict).truthy = false := by
  cases v with
  | list items => simp [sectionScopes, Value.standsFor, Value.truthy]
  | object id method field key result truthy =>
    cases result with
    | none => simp [sectionScopes, Value.standsFor]
    | some result =>
      cases strict with
      | true => simp [sectionScopes, Value.standsFor]
      | false =>
        cases result with
        | list items => simp [sectionScopes, Value.standsFor, Value.truthy]
        | _ => simp [sectionScopes, Value.standsFor]
  | _ => simp [sectionScopes, Value.standsFor]

/-- If the value is a host object that may be called, what it gives is as truthy as it says that it
is itself. -/
def Forthright (strictCallables : Bool) (v : Value) : Prop :=
  ∀ {id method field key result truthy}, v = .object id method field key (some result) truthy →
    strictCallables = false → result.truthy = truthy

theorem Forthright.truthy_standsFor {strict : Bool} {v : Value} (h : Forthright strict v) :
    (v.standsFor strict).truthy = v.truthy := by
  cases v with
  | object id method field key result truthy =>
    cases result with
    | none => rfl
    | some result =>
      cases strict with
      | true => rfl
      | false => exact h rfl rfl
  | _ => rfl

/-! ### Values of names -/

/-- Called with `v`, the callable gives `u`, whatever the world is, and leaves the world alone. -/
def Answers (e : Engine σ) (v u : Value) : Callable → Prop
  | ⟨id, .nullary⟩ => ∀ w, e.host.nullary id w = (.ok u, w)
  | ⟨id, .unary⟩ => ∀ w, e.host.unary id v e.delimiters w = .done (.ok u) w

/-- In these scopes the filters make the second value of the first. -/
inductive Piped (e : Engine σ) (scopes : Scopes) : List String → Value → Value → Prop
  | nil (v : Value) : Piped e scopes [] v v
  | cons {name : String} {names : List String} {c : Callable} {v u result : Value}
      (hfilter : scopes.resolve name false = .ok (.callable c)) (hanswer : Answers e v u c)
      (hrest : Piped e scopes names u result) : Piped e scopes (name :: names) v result

/-- The value of a name in these scopes, sent through filters that answer the same each time. A
path that does not resolve has the value null. -/
def HasValue (e : Engine σ) (scopes : Scopes) (name : Name) (v : Value) : Prop :=
  ∃ u, scopes.resolve name.path false = .ok u ∧ Piped e scopes name.filters u v

variable {e : Engine σ} {deeper : Renderer σ} {s : State σ} {name : Name} {v : Value}

theorem applyFilter_of_answers {filter : String} {c : Callable} {u : Value}
    (hfilter : s.scopes.resolve filter false = .ok (.callable c)) (h : Answers e v u c) :
    applyFilter e deeper v filter s = .ok u s := by
  have hresolve : resolve filter false s = .ok (.callable c) s := by
    unfold resolve
    rw [bind_of_ok _ (get_eq s), hfilter]
    rfl
  unfold applyFilter
  rw [bind_of_ok _ hresolve]
  obtain ⟨id, _ | _⟩ := c
  · change callNullary e id s = _
    unfold callNullary
    rw [h s.store.world]
    rfl
  · change runAct e deeper e.delimiters (e.host.unary id v e.delimiters s.store.world) s = _
    rw [h s.store.world]
    rfl

theorem applyFilters_of_piped {filters : List String} {u : Value}
    (h : Piped e s.scopes filters v u) : applyFilters e deeper filters v s = .ok u s := by
  unfold applyFilters
  induction h with
  | nil v => rfl
  | cons hfilter hanswer _ ih =>
    rw [List.foldlM_cons, bind_of_ok _ (applyFilter_of_answers hfilter hanswer)]
    exact ih

/-- Looking the value of a name up changes nothing. -/
theorem sectionValue_of_hasValue (h : HasValue e s.scopes name v) :
    sectionValue e deeper name false s = .ok v s := by
  obtain ⟨u, hresolve, hpiped⟩ := h
  have hpath : resolve name.path false s = .ok u s := by
    unfold resolve
    rw [bind_of_ok _ (get_eq s), hresolve]
    rfl
  unfold sectionValue
  rw [bind_of_ok _ hpath]
  exact applyFilters_of_piped hpiped

/-! ### The two bodies -/

section

variable (e : Engine σ) (n : Nat) (t : Template) (indent : String)

/-- The steps of a body rendered once in each of some scopes. -/
def renderIn (scopes : List Value) (steps : List Step) (out : String) : RenderM σ String :=
  scopes.foldlM
    (fun out scope => inScope scope (renderSteps e (renderLevels e n) t indent steps out)) out

/-- A section over a value that is no callable renders its body in the value's scopes. -/
theorem renderStep_section (h : HasValue e s.scopes name v) (hplain : ∀ c, v ≠ .callable c)
    (body : String) (d : Delimiters) (steps : List Step) (out : String) :
    renderStep e (renderLevels e n) t indent (.sectionStep name false body d steps) out s =
      renderIn e n t indent (sectionScopes t.strictCallables v) steps out s := by
  rw [sectionStep_eq, bind_of_ok _ (sectionValue_of_hasValue h)]
  split
  · exact absurd rfl (hplain _)
  · rfl

theorem renderStep_inverted (h : HasValue e s.scopes name v) (steps : List Step) (out : String) :
    renderStep e (renderLevels e n) t indent (.inverted name steps) out s =
      if v.truthy then .ok out s
      else renderSteps e (renderLevels e n) t indent steps out s := by
  rw [inverted_eq, bind_of_ok _ (sectionValue_of_hasValue h)]
  split <;> rfl

theorem restores_renderIn (scopes : List Value) (steps : List Step) (out : String) :
    Restores (renderIn e n t indent scopes steps out) := by
  have h := compositional_restores e
  exact h.foldlM (fun out scope =>
    (h.renderSteps (h.renderLevels n) t indent steps out).inScope scope) scopes out

end

/-- **Of a section and its inverse over one value, one body is rendered and the other is not**, if
the value is no callable. The body of the section is rendered once in each scope of the value, of
which there is one at least, or else that of the inverse is rendered once. Where callables are not
strict, what a host object gives when called has to be as truthy as the object. -/
theorem section_or_inverse (h : HasValue e s.scopes name v) (hplain : ∀ c, v ≠ .callable c)
    (t : Template) (hforthright : Forthright t.strictCallables v) (n : Nat)
    (indent body : String) (d : Delimiters) (steps inverse : List Step) (out : String) :
    let run := renderSteps e (renderLevels e n) t indent
      [.sectionStep name false body d steps, .inverted name inverse] out s
    (∃ scopes, scopes ≠ [] ∧ run = renderIn e n t indent scopes steps out s) ∨
      run = renderSteps e (renderLevels e n) t indent inverse out s := by
  intro run
  have hsection := renderStep_section e n t indent h hplain body d steps out
  have hrun : run = (renderStep e (renderLevels e n) t indent
      (.sectionStep name false body d steps) out >>= fun out =>
        renderSteps e (renderLevels e n) t indent [.inverted name inverse] out) s := by
    change renderSteps _ _ _ _ _ _ _ = _
    rw [renderSteps]
  have hsame := hforthright.truthy_standsFor
  have hempty := sectionScopes_eq_nil_iff t.strictCallables v
  cases htruthy : v.truthy with
  | true =>
    have hscopes : sectionScopes t.strictCallables v ≠ [] := by
      intro hnil
      simp [hempty.mp hnil, htruthy] at hsame
    refine Or.inl ⟨_, hscopes, ?_⟩
    have hrestores := restores_renderIn e n t indent (sectionScopes t.strictCallables v) steps out s
    cases hbody : renderIn e n t indent (sectionScopes t.strictCallables v) steps out s with
    | ok out' s' =>
      -- The scopes are what they were, so the name has the value that it had.
      rw [after_of_ok hbody] at hrestores
      have hagain : HasValue e s'.scopes name v := by rwa [hrestores.scopes]
      rw [hrun, bind_of_ok _ (hsection.trans hbody), renderSteps]
      have hskip := renderStep_inverted e n t indent hagain inverse out'
      rw [htruthy, if_pos rfl] at hskip
      rw [bind_of_ok _ hskip]
      rfl
    | error err s' => rw [hrun, bind_of_error _ (hsection.trans hbody)]
  | false =>
    refine Or.inr ?_
    have hscopes : sectionScopes t.strictCallables v = [] := hempty.mpr (hsame.trans htruthy)
    rw [hscopes] at hsection
    have hinverse := renderStep_inverted e n t indent h inverse out
    rw [htruthy, if_neg Bool.false_ne_true] at hinverse
    have hskip : renderStep e (renderLevels e n) t indent
        (.sectionStep name false body d steps) out s = .ok out s := hsection
    rw [hrun, bind_of_ok _ hskip, renderSteps]
    cases hbody : renderSteps e (renderLevels e n) t indent inverse out s with
    | ok out' s' =>
      rw [bind_of_ok _ (hinverse.trans hbody)]
      rfl
    | error err s' => rw [bind_of_error _ (hinverse.trans hbody)]

/-! ### Host objects -/

/-- A host object without names that gives `result` when called. -/
def callableObject (result : Value) (truthy : Bool) : Value :=
  .object 0 (fun _ => none) (fun _ => none) (fun _ => none) (some result) truthy

/-- An engine whose templates call host objects, and whose callables put `a` for every value. -/
def looseEngine : Engine Unit :=
  { wrappingEngine "" "" with
    config := { strictCallables := false }
    host := ⟨fun _ w => (.ok (.string "a"), w), fun _ _ _ w => .done (.ok (.string "a")) w⟩ }

def looseTemplate : Template := { emptyTemplate with strictCallables := false }

/-- The two tags over `n`, the first around `A`, the second around `B`. -/
def sectionAndInverse (name : Name) : List Step :=
  [.sectionStep name false "A" Delimiters.standard [.text "A" false],
    .inverted name [.text "B" false]]

/-- An object that calls itself falsy and gives an empty list, and one whose value comes through a
filter. -/
theorem section_or_inverse_falsy :
    let s := startOver (.map [("f", .callable ⟨0, .unary⟩),
      ("n", callableObject (.list []) false)])
    let run := fun name => renderSteps looseEngine (renderLevels looseEngine 1) looseTemplate ""
      (sectionAndInverse name) "" s
    (HasValue looseEngine s.scopes ⟨"n", []⟩ (callableObject (.list []) false) ∧
      Forthright false (callableObject (.list []) false) ∧
      HasValue looseEngine s.scopes ⟨"n", ["f"]⟩ (.string "a")) ∧
    ((∃ scopes, scopes ≠ [] ∧ run ⟨"n", []⟩ =
        renderIn looseEngine 1 looseTemplate "" scopes [.text "A" false] "" s) ∨
      run ⟨"n", []⟩ = renderSteps looseEngine (renderLevels looseEngine 1) looseTemplate ""
        [.text "B" false] "" s) ∧
    ((∃ scopes, scopes ≠ [] ∧ run ⟨"n", ["f"]⟩ =
        renderIn looseEngine 1 looseTemplate "" scopes [.text "A" false] "" s) ∨
      run ⟨"n", ["f"]⟩ = renderSteps looseEngine (renderLevels looseEngine 1) looseTemplate ""
        [.text "B" false] "" s) := by
  intro s run
  have hplain : HasValue looseEngine s.scopes ⟨"n", []⟩ (callableObject (.list []) false) :=
    ⟨_, rfl, .nil _⟩
  have hpiped : HasValue looseEngine s.scopes ⟨"n", ["f"]⟩ (.string "a") :=
    ⟨_, rfl, .cons rfl (fun _ => rfl) (.nil _)⟩
  have hforthright : Forthright false (callableObject (.list []) false) := by
    intro id method field key result truthy heq _
    injection heq with _ _ _ _ hresult htruthy
    rw [← Option.some.inj hresult, ← htruthy]
    rfl
  refine ⟨⟨hplain, hforthright, hpiped⟩, ?_, ?_⟩
  · exact section_or_inverse hplain (fun _ => nofun) looseTemplate hforthright 1 "" "A" _ _ _ ""
  · exact section_or_inverse hpiped (fun _ => nofun) looseTemplate nofun 1 "" "A" _ _ _ ""

/-- A body of text alone prints it once for each scope. -/
theorem renderIn_text (e : Engine σ) (n : Nat) (t : Template) (scopes : List Value)
    (text out : String) (s : State σ) :
    renderIn e n t "" scopes [.text text false] out s =
      .ok (scopes.foldl (fun out _ => out ++ text) out) s := by
  have hstep : ∀ out scope, inScope scope (renderSteps e (renderLevels e n) t ""
      [.text text false] out) s = .ok (out ++ text) s := by
    intro out scope
    simp only [renderSteps, renderStep]
    change EStateM.Result.ok (out ++ "" ++ text) s = _
    rw [String.append_empty]
  unfold renderIn
  induction scopes generalizing out with
  | nil => rfl
  | cons scope scopes ih =>
    rw [List.foldlM_cons, bind_of_ok _ (hstep out scope)]
    exact ih (out ++ text)

theorem length_foldl_append (scopes : List Value) (text out : String) :
    (scopes.foldl (fun out _ => out ++ text) out).length =
      out.length + scopes.length * text.length := by
  induction scopes generalizing out with
  | nil => simp
  | cons scope scopes ih =>
    rw [List.foldl_cons, ih, String.length_append, List.length_cons, Nat.add_mul]
    omega

/-- An object that calls itself truthy and gives an empty list when called: neither the section
over it nor the inverse prints anything. -/
theorem neither_section_nor_inverse :
    let v := callableObject (.list []) true
    let s := startOver (.map [("n", v)])
    let run := renderSteps looseEngine (renderLevels looseEngine 1) looseTemplate ""
      (sectionAndInverse ⟨"n", []⟩) "" s
    HasValue looseEngine s.scopes ⟨"n", []⟩ v ∧ (∀ c, v ≠ .callable c) ∧
      ¬((∃ scopes, scopes ≠ [] ∧
          run = renderIn looseEngine 1 looseTemplate "" scopes [.text "A" false] "" s) ∨
        run = renderSteps looseEngine (renderLevels looseEngine 1) looseTemplate ""
          [.text "B" false] "" s) := by
  intro v s run
  refine ⟨⟨_, rfl, .nil _⟩, fun _ => nofun, ?_⟩
  have hrun : run = .ok "" s := rfl
  rintro (⟨scopes, hscopes, hsection⟩ | hinverse)
  · rw [hrun, renderIn_text] at hsection
    have hlength := length_foldl_append scopes "A" ""
    rw [← (EStateM.Result.ok.inj hsection).1] at hlength
    have hone : ("A" : String).length = 1 := rfl
    rw [hone, Nat.mul_one, Nat.left_eq_add] at hlength
    exact hscopes (List.length_eq_zero_iff.mp hlength)
  · rw [hrun] at hinverse
    have hprinted : renderSteps looseEngine (renderLevels looseEngine 1) looseTemplate ""
        [.text "B" false] "" s = .ok "B" s := rfl
    exact absurd (EStateM.Result.ok.inj (hinverse.trans hprinted)).1 (by decide)

end Render

end Mustache
