import Mustache.Proofs.Render.Sources
import Mustache.Proofs.Template.Moved
import Mustache.Proofs.Token.Switch
import Mustache.Render

/-!
Text from a callable under delimiters that the engine has not got. It becomes a source with a switch
to them in front, and unless its first line is blank that source renders as the text does on an
engine that has them from the start. Main statement: `lambdaSource_switches`.
-/

namespace Mustache

variable {σ : Type}

namespace Render

/-! ### Templates that render alike -/

/-- The templates are told apart by what they were compiled from, and by nothing that rendering
looks at besides the steps. -/
structure LooksLike (t t' : Template) : Prop where
  name_eq : t.name = t'.name
  escape_eq : t.escape = t'.escape
  strictCallables_eq : t.strictCallables = t'.strictCallables

section

variable {e : Engine σ} {deeper : Renderer σ} {t t' : Template}

mutual

theorem renderStep_congr (h : LooksLike t t') (hdeeper : deeper t = deeper t')
    (indent : String) : ∀ step : Step,
    renderStep e deeper t indent step = renderStep e deeper t' indent step
  | .text text lineStart => by
    funext out
    rw [renderStep, renderStep]
  | .interpolation name escape strict lineStart => by
    funext out
    rw [renderStep, renderStep, interpolate, interpolate, h.escape_eq, h.strictCallables_eq]
  | .sectionStep name strict body delimiters steps => by
    funext out
    rw [renderStep, renderStep, h.strictCallables_eq, renderSteps_congr h hdeeper indent steps]
  | .inverted name steps => by
    funext out
    rw [renderStep, renderStep, renderSteps_congr h hdeeper indent steps]
  | .partialStep name own => by
    funext out
    rw [renderStep, renderStep]
  | .parent name own overrides => by
    funext out
    rw [renderStep, renderStep]
  | .block name site steps => by
    funext out
    rw [renderStep, renderStep, renderSteps_congr h hdeeper indent steps]
    simp only [renderOverride, hdeeper]

theorem renderSteps_congr (h : LooksLike t t') (hdeeper : deeper t = deeper t')
    (indent : String) : ∀ steps : List Step,
    renderSteps e deeper t indent steps = renderSteps e deeper t' indent steps
  | [] => by
    funext out
    rw [renderSteps, renderSteps]
  | step :: steps => by
    funext out
    rw [renderSteps, renderSteps, renderStep_congr h hdeeper indent step,
      renderSteps_congr h hdeeper indent steps]

end

theorem renderLevels_congr (h : LooksLike t t') (n : Nat) :
    renderLevels e n t = renderLevels e n t' := by
  induction n with
  | zero =>
    funext indent steps out
    rw [renderLevels, renderLevels, h.name_eq]
  | succ n ih =>
    funext indent steps out
    rw [renderLevels, renderLevels, renderSteps_congr h ih]

end

end Render

namespace Engine

/-- What a source is compiled to from its own tree. -/
def compiled (e : Engine σ) (name source : String) : Except Error Template :=
  e.parse source >>= Template.compile (e.compileOptions (e.cacheKey source)) name source

/-- A delimiter change leaves no node. -/
theorem ofTokens_cons_delimiters (s : PragmaSet) {u : Token} (hkind : u.kind = .delimiters)
    (ts : List Token) : Node.ofTokens s (u :: ts) = Node.ofTokens s ts := by
  have hstep : (Node.Machine.start s).step u = .ok (Node.Machine.start s) := by
    simp [Node.Machine.step, hkind]
  rw [Node.ofTokens_run, Node.ofTokens_run, Node.Machine.run_cons_ok hstep]

section

variable {a d : Delimiters} (ha : a.Writable) (hd : d.Writable)
include ha hd

/-- The tree of a text behind a switch, unless its first line is blank. -/
theorem parse_switched {e : Engine σ} (he : e.delimiters = a) {text : String}
    (hblank : Text.blankStart text.toList = false) :
    match { e with delimiters := d }.parse text with
    | .ok tree => e.parse (d.switchFrom a ++ text) =
      .ok (Node.movedAll (Token.switchLength a d) 0 tree)
    | .error _ => ∃ err, e.parse (d.switchFrom a ++ text) = .error err := by
  obtain ⟨hok, herror⟩ := Token.scan_behind_switch ha hd text
  subst he
  unfold parse tokenize
  cases hscan : Token.scan d text with
  | error err =>
    obtain ⟨f, -, hfault⟩ := herror err hscan
    exact ⟨_, by rw [hfault]; rfl⟩
  | ok ts =>
    have htokens := hok ts hscan
    rw [hblank] at htokens
    rw [htokens]
    show (match Node.ofTokens e.pragmas ts with
      | .ok tree => Node.ofTokens e.pragmas (_ :: ts.map _) = _
      | .error _ => ∃ err, Node.ofTokens e.pragmas (_ :: ts.map _) = _)
    rw [ofTokens_cons_delimiters _ rfl, Node.ofTokens_moved, Node.ofTokens_run]
    cases (Node.Machine.start e.pragmas).run ts with
    | error f => exact ⟨_, rfl⟩
    | ok tree => rfl

end

/-- A template compiled from a tree that begins further on has the same steps. -/
theorem compile_moved (options options' : CompileOptions) (name : String)
    (before source : String) (tree : List Node)
    (hescape : options'.escape = options.escape)
    (hcallables : options'.strictCallables = options.strictCallables)
    (hvariables : options'.strictVariables = options.strictVariables)
    (hpragmas : options'.pragmas = options.pragmas) :
    match Template.compile options name source tree with
    | .ok t => ∃ t', Template.compile options' name (before ++ source)
        (Node.movedAll (Text.byteLength before.toList) 0 tree) = .ok t' ∧
      Render.LooksLike t' t ∧ t'.steps = t.steps
    | .error _ => ∃ err, Template.compile options' name (before ++ source)
        (Node.movedAll (Text.byteLength before.toList) 0 tree) = .error err := by
  have hmoves := Template.moves_compileNodes before.toList source.toList
    options.strictVariables 0 tree ⟨options.pragmas, true⟩
  unfold Template.compile StateT.run
  rw [String.toList_append, hvariables, hpragmas, hmoves]
  cases Template.compileNodes source.toList options.strictVariables tree ⟨options.pragmas, true⟩ with
  | error f => exact ⟨_, rfl⟩
  | ok p => exact ⟨_, rfl, ⟨rfl, hescape, hcallables⟩, rfl⟩

/-- **Text under other delimiters.** A switch in front of it moves its tokens, takes the first one
with it if the first line is blank, and makes it fail only where it fails by itself. If the first
line is not blank, the source that an engine makes of the text compiles if and only if the text does
on an engine that starts with the delimiters, and it renders alike. -/
theorem lambdaSource_switches {a d : Delimiters} (ha : a.Writable) (hd : d.Writable)
    (hne : a ≠ d) (text : String) :
    (∀ ts, Token.scan d text = .ok ts →
      Token.scan a (d.switchFrom a ++ text) = .ok (Token.switchToken a d ::
        (if Text.blankStart text.toList then ts.tail else ts).map
          (Token.moved (Token.switchLength a d) 0))) ∧
    (∀ err, Token.scan d text = .error err →
      ∃ err', Token.scan a (d.switchFrom a ++ text) = .error err') ∧
    ∀ e : Engine σ, e.delimiters = a → Text.blankStart text.toList = false →
      match { e with delimiters := d }.compiled "lambda" text with
      | .ok t => ∃ t', e.compiled "lambda" (e.lambdaSource text (some d)) = .ok t' ∧
        t'.steps = t.steps ∧ ∀ n indent out,
          Render.renderLevels e n t' indent t'.steps out =
            Render.renderLevels e n t indent t.steps out
      | .error _ => ∃ err, e.compiled "lambda" (e.lambdaSource text (some d)) = .error err := by
  obtain ⟨hok, herror⟩ := Token.scan_behind_switch ha hd text
  refine ⟨hok, fun err h => ?_, fun e he hblank => ?_⟩
  · obtain ⟨f, -, hfault⟩ := herror err h
    exact ⟨_, hfault⟩
  · have hsource : e.lambdaSource text (some d) = d.switchFrom a ++ text := by
      simp only [lambdaSource, he]
      exact if_neg hne.symm
    have hparse := parse_switched ha hd he hblank
    rw [hsource]
    unfold compiled
    cases htree : { e with delimiters := d }.parse text with
    | error err =>
      rw [htree] at hparse
      obtain ⟨err', herr'⟩ := hparse
      exact ⟨err', by rw [herr']; rfl⟩
    | ok tree =>
      simp only [htree] at hparse
      rw [hparse]
      have hcompile := compile_moved
        ({ e with delimiters := d }.compileOptions ({ e with delimiters := d }.cacheKey text))
        (e.compileOptions (e.cacheKey (d.switchFrom a ++ text))) "lambda" (d.switchFrom a) text tree
        rfl rfl rfl rfl
      show (match Template.compile _ "lambda" text tree with
        | .ok t => ∃ t', Template.compile _ "lambda" _ _ = .ok t' ∧ _
        | .error _ => ∃ err, Template.compile _ "lambda" _ _ = .error err)
      revert hcompile
      cases Template.compile _ "lambda" text tree with
      | error err => exact id
      | ok t =>
        rintro ⟨t', ht', halike, hsteps⟩
        refine ⟨t', ht', hsteps, fun n indent out => ?_⟩
        rw [Render.renderLevels_congr halike, hsteps]

/-- A text that begins with a tag keeps its newline behind a switch. -/
theorem lambdaSource_switches_percent :
    let d : Delimiters := ⟨"<%", "%>"⟩
    let e : Engine Unit := plainEngine []
    Delimiters.standard.Writable ∧ d.Writable ∧ Delimiters.standard ≠ d ∧
    Token.scan Delimiters.standard "\x7b\x7b= <% %> =\x7d\x7d<%x%>\n" = .ok
      [⟨.delimiters, "<% %>", 1, 0, 13, Delimiters.standard, none⟩,
        ⟨.escaped, "x", 1, 13, 18, d, none⟩, ⟨.text, "\n", 1, 18, 19, d, none⟩] ∧
    ∃ t, e.compiled "lambda" (e.lambdaSource "<%x%>\n" (some d)) = .ok t ∧ ∃ t',
      { e with delimiters := d }.compiled "lambda" "<%x%>\n" = .ok t' ∧ t.steps = t'.steps := by
  intro d e
  have ha : Delimiters.standard.Writable := ⟨Delimiters.standard.text.toList, by decide +kernel⟩
  have hd : d.Writable := ⟨d.text.toList, by decide +kernel⟩
  have hne : Delimiters.standard ≠ d := by decide
  obtain ⟨hok, -, hrender⟩ := lambdaSource_switches (σ := Unit) ha hd hne "<%x%>\n"
  have hscan : Token.scan d "<%x%>\n" =
      .ok [⟨.escaped, "x", 1, 0, 5, d, none⟩, ⟨.text, "\n", 1, 5, 6, d, none⟩] := by
    decide +kernel
  refine ⟨ha, hd, hne, (hok _ hscan).trans (by decide +kernel), ?_⟩
  have hparse : { e with delimiters := d }.parse "<%x%>\n" =
      .ok [.interpolation "x" true 1, .text "\n"] := by
    unfold parse tokenize
    rw [hscan]
    cbv
  have hcompiled := hrender e rfl (by decide)
  unfold compiled at hcompiled ⊢
  rw [hparse] at hcompiled ⊢
  obtain ⟨t, ht, hsteps, -⟩ := hcompiled
  exact ⟨t, ht, _, rfl, hsteps⟩

/-- Behind a switch a newline at the beginning is lost. -/
theorem newline_behind_switch :
    let d : Delimiters := ⟨"<%", "%>"⟩
    ¬ ∀ ts, Token.scan d "\nx" = .ok ts →
      Token.scan Delimiters.standard (d.switchFrom Delimiters.standard ++ "\nx") = .ok
        (Token.switchToken Delimiters.standard d ::
          ts.map (Token.moved (Token.switchLength Delimiters.standard d) 0)) := by
  intro d h
  have hscan : Token.scan d "\nx" =
      .ok [⟨.text, "\n", 1, 0, 1, d, none⟩, ⟨.text, "x", 2, 1, 2, d, none⟩] := by
    decide +kernel
  exact absurd (h _ hscan) (by decide +kernel)

end Engine

end Mustache
